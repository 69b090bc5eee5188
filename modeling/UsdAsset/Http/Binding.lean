import UsdAsset.Http.ReadRun

/-!
# Revision binding

What a read of an open reader is worth.  Whatever the transport does, the bytes
a read counts were last written by partial responses that agree with the
captured identity and with the request.  From this follows that a reader bound
to a strong entity tag never returns bytes of another revision, however the
server publishes in between.

A reader keeps no record of the changes it has reported: it judges every read
by the identity it captured, and by nothing it saw before.
-/

namespace UsdAsset.Http

open ByteString

variable {reader : HttpAssetReader} {offset length position size : ℕ} {sent : List Sent}
  {transport : Transport} {before after wire : Wire} {result : ReadResult} {headers : HeaderTable}
  {options : HttpOptions} {exchange : ExchangeResult}

namespace HttpAssetReader

/-- A byte of the buffer that was last written by the accepted response that brought it. -/
def Validated (reader : HttpAssetReader) (offset length : ℕ) (sent : List Sent) (dst : Buffer)
    (position : ℕ) : Prop :=
  ∃ before request after, sent = before ++ request :: after ∧
    reader.Accepts offset length (reader.delivered offset length before) request.response ∧
    request.request.body = some (reader.delivered offset length before) ∧
    Buffer.Covers (reader.delivered offset length before) request.response.body position ∧
    dst position =
      request.response.body.getD (position - reader.delivered offset length before) 0 ∧
    ∀ later ∈ after, ¬later.Writes position

theorem Assembled.validated (assembled : Assembled reader offset length sent)
    (counted : position < reader.delivered offset length sent) (dst : Buffer) :
    reader.Validated offset length sent (deliverAll sent dst) position := by
  rcases assembled.last_written counted with
    ⟨before, request, after, rfl, accepted, body, covers, untouched⟩
  exact ⟨before, request, after, rfl, accepted, body, covers,
    deliverAll_of_last body covers untouched, untouched⟩

theorem ReadRun.validated (run : ReadRun reader transport offset length before result after sent)
    (counted : position < result.bytesRead) :
    reader.Validated offset length sent after.dst position := by
  rw [run.dst_eq]
  by_cases changed : result.status.code = .assetChanged
  · rw [run.changed changed] at counted
    cases counted
  · rw [run.counted changed] at counted
    exact run.assembled.validated counted before.dst

theorem ReadRun.outside (run : ReadRun reader transport offset length before result after sent)
    (outside : length ≤ position) : after.dst position = before.dst position := by
  rw [run.dst_eq]
  apply deliverAll_of_not_writes
  rintro request requestMem ⟨start, body, covers⟩
  rcases run.assembled.window requestMem with ⟨window, within, offers⟩
  have received := offers.received
  rw [offers.body, Option.some.injEq] at body
  have := covers.2
  omega

/--
No hole and no foreign byte: a read that succeeds delivered the whole resolved
range, and every byte any read counts was last written by a response it accepts.
-/
theorem read_delivers_validated_bytes (reader : HttpAssetReader) (transport : Transport)
    (offset : ℕ) (dstIsNull : Bool) (size : ℕ) (wire : Wire) :
    let length := (resolveReadRange offset size reader.metadata.size).length
    let result := (reader.read transport offset dstIsNull size wire).1
    let after := (reader.read transport offset dstIsNull size wire).2
    ∃ sent, after.trace = wire.trace ++ sent ∧
      (result.status.code = .ok → result.bytesRead = length) ∧
      (result.status.code = .assetChanged → result.bytesRead = 0) ∧
      (∀ position < result.bytesRead,
        reader.Validated offset length sent after.dst position) ∧
      (∀ request ∈ sent, ∃ start, request.request.body = some start ∧
        start + request.request.bodyCapacity ≤ length) ∧
      ∀ position, length ≤ position → after.dst position = wire.dst position := by
  intro length result after
  rcases reader.read_run transport offset dstIsNull size wire with ⟨sent, run⟩
  refine ⟨sent, run.trace_eq, run.complete, run.changed, fun position counted =>
    run.validated counted, ?_, fun position outside => run.outside outside⟩
  intro request requestMem
  rcases run.assembled.window requestMem with ⟨start, within, offers⟩
  refine ⟨start, offers.body, ?_⟩
  have := offers.capacity
  omega

end HttpAssetReader

/-! ### One reader, one revision -/

def carriedEntityTag (headers : HeaderTable) : Option Bytes :=
  (headers.find (bytes "ETag")).map trim

/-- An entity tag that is neither empty nor marked weak. -/
def IsStrongTag (tag : Bytes) : Prop := tag ≠ [] ∧ (bytes "W/").isPrefixOf tag = false

/--
A server that publishes revisions while it is read from.  At each request it
serves some revision, and what it says about it is true: a `200` to a metadata
request carries the revision's entity tag, and the body of a partial response is
a prefix of the revision's bytes for the window its `Content-Range` names, sent
with the revision's entity tag or only because `If-Range` named it.
-/
structure TruthfulServer {Revision : Type} (content entityTag : Revision → Bytes)
    (serves : ℕ → Revision) (transport : Transport) : Prop where
  described : ∀ time request, request.method = .head →
    (transport.perform time request).status = 200 →
    carriedEntityTag (transport.perform time request).headers = some (entityTag (serves time))
  partialBody : ∀ time request range, request.method = .get →
    (transport.perform time request).status = 206 →
    range ∈ ((transport.perform time request).headers.find (bytes "Content-Range")).bind
      parseContentRange →
    (transport.perform time request).body <+:
      ((content (serves time)).drop range.first).take (range.last + 1 - range.first)
  identified : ∀ time request, request.method = .get →
    (transport.perform time request).status = 206 →
    carriedEntityTag (transport.perform time request).headers =
        some (entityTag (serves time)) ∨
      request.ifRange = entityTag (serves time)
  /-- Strong entity tags of different contents differ. -/
  distinct : ∀ revision other, IsStrongTag (entityTag revision) →
    entityTag revision = entityTag other → content revision = content other

theorem captureValidator_strong (strong : (captureValidator headers).validator.strength = .strong) :
    (captureValidator headers).validator.kind = .entityTag ∧
      IsStrongTag (captureValidator headers).validator.value ∧
      carriedEntityTag headers = some (captureValidator headers).validator.value ∧
      (captureValidator headers).ifRangeValue = (captureValidator headers).validator.value := by
  have undated : (captureLastModified headers).validator.strength ≠ .strong := by
    unfold captureLastModified
    split
    · simp
    · dsimp only
      split <;> simp
  cases found : headers.find (bytes "ETag") with
  | none =>
    simp only [captureValidator, found] at strong
    exact absurd strong undated
  | some tag =>
    simp only [captureValidator, found] at strong ⊢
    split at strong
    · exact absurd strong undated
    · split at strong
      · simp at strong
      · rename_i nonempty notWeak
        simp [carriedEntityTag, IsStrongTag, found, nonempty, notWeak]

theorem carriedEntityTag_of_consistent {captured : Validator} {tag : Bytes}
    (kind : captured.kind = .entityTag)
    (consistent : contradictsCapturedValidator headers captured = false)
    (carried : carriedEntityTag headers = some tag) : tag = captured.value := by
  cases found : headers.find (bytes "ETag") with
  | none => simp [carriedEntityTag, found] at carried
  | some value =>
    simp only [contradictsCapturedValidator, kind, found, bne_eq_false_iff_eq] at consistent
    simp only [carriedEntityTag, found, Option.map_some, Option.some.injEq] at carried
    rw [← carried, consistent]

/-- What a successful open captured, and the exchange it captured it from. -/
structure Opened (url : Bytes) (options : HttpOptions) (transport : Transport) (before : Wire)
    (reader : HttpAssetReader) (after : Wire) (uri : Uri) (exchange : ExchangeResult) (left : ℕ)
    (sent : List Sent) : Prop where
  parsed : parseUri url = .ok uri
  run : ExchangeArgs.HopRun (openArgs transport options uri) options.maxRedirects.toNat 0 uri
    options.retryBudget before exchange left after sent
  succeeded : exchange.status.code = .ok
  status : exchange.response.status = 200
  options_eq : reader.options = options
  origin_eq : reader.origin = uri
  uri_eq : reader.uri = exchange.finalUri
  validator_eq : reader.metadata.validator = (captureValidator exchange.response.headers).validator
  ifRange_eq : reader.ifRangeValue = (captureValidator exchange.response.headers).ifRangeValue
  sized : reader.metadata.size ∈
    (exchange.response.headers.find (bytes "Content-Length")).bind parseContentLength

/-- The reader over an asset of `size` bytes that an exchange described. -/
def describedReader (options : HttpOptions) (origin : Uri) (exchange : ExchangeResult)
    (size : ℕ) : HttpAssetReader where
  options := options
  origin := origin
  uri := exchange.finalUri
  metadata :=
    { resolvedIdentifier := exchange.finalUri.toIdentity
      size
      supportsRandomAccess := true
      validator := (captureValidator exchange.response.headers).validator
      stability := classifyStability (captureValidator exchange.response.headers).validator
      contentType := exchange.response.headers.get (bytes "Content-Type") }
  ifRangeValue := (captureValidator exchange.response.headers).ifRangeValue

theorem describeAsset_eq_ok_iff {origin : Uri} :
    describeAsset options origin exchange = .ok reader ↔
      exchange.response.status = 200 ∧
        exchange.response.headers.hasConflictingDuplicate (bytes "Content-Length") = false ∧
        advertisesByteRanges exchange.response.headers = true ∧
        ∃ size ∈ (exchange.response.headers.find (bytes "Content-Length")).bind parseContentLength,
          reader = describedReader options origin exchange size := by
  constructor
  · intro described
    simp only [describeAsset] at described
    split at described
    · cases described
    · rename_i status
      split at described
      · cases described
      · rename_i size stated
        split at described
        · cases described
        · rename_i ranged
          split at stated
          · cases stated
          · rename_i agreed
            cases described
            exact ⟨by simpa using status, by simpa using agreed, by simpa using ranged, size, stated,
              rfl⟩
  · rintro ⟨status, agreed, ranged, size, stated, rfl⟩
    simp only [Option.mem_def] at stated
    simp only [describeAsset, status, agreed, stated, ranged]
    rfl

theorem describeAsset_metadata {origin : Uri}
    (described : describeAsset options origin exchange = .ok reader) :
    reader.metadata.resolvedIdentifier = exchange.finalUri.toIdentity ∧
      reader.metadata.stability = classifyStability reader.metadata.validator := by
  rcases describeAsset_eq_ok_iff.mp described with ⟨_, _, _, size, _, rfl⟩
  exact ⟨rfl, rfl⟩

theorem httpOpen_opened {url : Bytes}
    (opened : httpOpen url options (some transport) before = (.ok reader, after)) :
    ∃ uri exchange left sent,
      Opened url options transport before reader after uri exchange left sent := by
  cases parsed : parseUri url with
  | error error => simp [httpOpen, parsed] at opened
  | ok uri =>
    rcases (openArgs transport options uri).performExchange_run uri options.retryBudget before
      with ⟨sent, run⟩
    rcases exchanged : (openArgs transport options uri).performExchange uri options.retryBudget
      before with ⟨exchange, left, wire⟩
    rw [exchanged] at run
    simp only [httpOpen, parsed, exchanged] at opened
    split at opened
    · simp at opened
    · rename_i success
      simp only [Prod.mk.injEq] at opened
      rcases opened with ⟨described, rfl⟩
      rcases describeAsset_eq_ok_iff.mp described with ⟨status, _, _, size, stated, rfl⟩
      exact ⟨uri, exchange, left, sent, parsed, run, by simpa [Status.isOk] using success,
        status, rfl, rfl, rfl, rfl, rfl, stated⟩

namespace HttpAssetReader

theorem usableContentRange_mem {range : ContentRange}
    (usable : range ∈ usableContentRange headers) :
    range ∈ (headers.find (bytes "Content-Range")).bind parseContentRange := by
  unfold usableContentRange at usable
  split at usable
  · cases usable
  · split at usable
    · cases usable
    · rename_i parsed
      split at usable
      · cases usable
      · rw [parsed]
        exact usable

theorem bytesRead_of_ok {dstIsNull : Bool}
    (ok : (reader.read transport offset dstIsNull size wire).1.status.code = .ok) :
    (reader.read transport offset dstIsNull size wire).1.bytesRead =
      min size (reader.metadata.size - offset) := by
  rcases reader.read_run transport offset dstIsNull size wire with ⟨sent, run⟩
  rw [run.complete ok]
  have fits : (resolveReadRange offset size reader.metadata.size).outcome ≠ .overflow := by
    intro overflow
    simp [read, overflow, overflowStatus] at ok
  exact resolveReadRange_length fits

/--
A byte a reader bound to a strong entity tag counts is that byte of the
revision the tag names, whichever revisions were published in between.
-/
theorem validated_of_truthful {Revision : Type} {content entityTag : Revision → Bytes}
    {serves : ℕ → Revision} (server : TruthfulServer content entityTag serves transport)
    (kind : reader.metadata.validator.kind = .entityTag)
    (strong : IsStrongTag reader.metadata.validator.value)
    (guarded : reader.ifRangeValue = reader.metadata.validator.value) {captured : Revision}
    (capturedTag : entityTag captured = reader.metadata.validator.value)
    (run : ReadRun reader transport offset length before result after sent)
    (counted : position < result.bytesRead) :
    (content captured)[offset + position]? = some (after.dst position) := by
  rcases run.validated counted with
    ⟨earlier, request, later, rfl, ⟨partialContent, consistent, ⟨range, usable, first, _⟩, _⟩,
      body, covers, value, _⟩
  -- The response the byte came from, as the server sent it.
  have sentBy := run.recorded earlier.length request (by simp)
  rcases run.issued request (by simp) with ⟨start, locations, _, _, time, attempt, headers, _, made⟩
  have method : request.request.method = .get := by rw [made]; rfl
  have ifRange : request.request.ifRange = reader.metadata.validator.value := by
    rw [made, ← guarded]; rfl
  rw [sentBy] at partialContent consistent usable covers value
  have tagEq : entityTag (serves (before.time + earlier.length)) =
      reader.metadata.validator.value := by
    rcases server.identified _ _ method partialContent with carried | named
    · exact carriedEntityTag_of_consistent kind consistent carried
    · rw [← named, ifRange]
  have sameContent := server.distinct _ captured (by rw [tagEq]; exact strong)
    (by rw [tagEq, capturedTag])
  have window := server.partialBody _ _ range method partialContent (usableContentRange_mem usable)
  rw [sameContent] at window
  have byte := getElem?_of_prefix_window window covers.index_lt
  rw [value, ← byte, first]
  congr 1
  have := covers.1
  omega

end HttpAssetReader

/--
A reader opened with a strong entity tag returns the bytes of the revision that
was served at open, whichever revisions are published between and during the
requests of any read it makes at any later time.
-/
theorem read_returns_captured_revision {Revision : Type} {content entityTag : Revision → Bytes}
    {serves : ℕ → Revision} {transport : Transport}
    (server : TruthfulServer content entityTag serves transport) {url : Bytes}
    {options : HttpOptions} {before after : Wire} {reader : HttpAssetReader}
    (opened : httpOpen url options (some transport) before = (.ok reader, after))
    (strong : reader.metadata.validator.strength = .strong) :
    ∃ time, before.time ≤ time ∧ time < after.time ∧
      entityTag (serves time) = reader.metadata.validator.value ∧
      ∀ (offset size : ℕ) (dstIsNull : Bool) (now : Wire),
        (reader.read transport offset dstIsNull size now).1.status.code = .ok →
        (reader.read transport offset dstIsNull size now).1.bytesRead =
            min size (reader.metadata.size - offset) ∧
          ∀ position < (reader.read transport offset dstIsNull size now).1.bytesRead,
            (content (serves time))[offset + position]? =
              some ((reader.read transport offset dstIsNull size now).2.dst position) := by
  rcases httpOpen_opened opened with ⟨uri, exchange, left, sent, capture⟩
  rcases (capture.run.answered capture.succeeded).last with ⟨earlier, last, rfl, lastEq, _, _⟩
  rw [capture.validator_eq] at strong
  rcases captureValidator_strong strong with ⟨kind, strongTag, carried, guarded⟩
  rw [← capture.validator_eq] at kind strongTag carried guarded
  rw [← capture.ifRange_eq] at guarded
  -- The revision the last response of the open described.
  have answered := capture.run.recorded earlier.length last (by simp)
  rcases capture.run.made last (by simp) with ⟨_, _, _, _, _, _, _, made⟩
  have capturedTag :
      entityTag (serves (before.time + earlier.length)) = reader.metadata.validator.value := by
    have described := server.described (before.time + earlier.length) last.request
      (by rw [made]; rfl)
    rw [show transport = (openArgs transport options uri).transport from rfl, ← answered, lastEq,
      carried] at described
    simpa using (described capture.status).symm
  refine ⟨before.time + earlier.length, by omega, ?_, capturedTag, ?_⟩
  · simp only [Wire.time, capture.run.trace_eq, List.length_append, List.length_singleton]
    omega
  · intro offset size dstIsNull now ok
    refine ⟨HttpAssetReader.bytesRead_of_ok ok, fun position counted => ?_⟩
    rcases reader.read_run transport offset dstIsNull size now with ⟨_, run⟩
    exact HttpAssetReader.validated_of_truthful server kind strongTag guarded capturedTag run
      counted

/-! A server of one-byte revisions that publishes them by a schedule. -/

def letterOf (late : Bool) : Bytes := if late then bytes "B" else bytes "A"

def tagOf (late : Bool) : Bytes := if late then bytes "\"b\"" else bytes "\"a\""

def republishingServer (late : ℕ → Bool) : Transport where
  perform time request :=
    match request.method with
    | .head =>
        { status := 200
          headers := ⟨[(bytes "ETag", tagOf (late time)), (bytes "Content-Length", bytes "1"),
            (bytes "Accept-Ranges", bytes "bytes")]⟩ }
    | .get =>
        { status := 206
          headers :=
            ⟨[(bytes "ETag", tagOf (late time)), (bytes "Content-Range", bytes "bytes 0-0/1")]⟩
          body := (letterOf (late time)).take request.bodyCapacity }
  body_le_capacity := by
    intro time request
    cases request.method with
    | head => simp
    | get => exact List.length_take_le _ _

theorem republishingServer_truthful (late : ℕ → Bool) :
    TruthfulServer letterOf tagOf late (republishingServer late) where
  described := by
    intro time request method _
    simp only [republishingServer, method]
    cases late time <;> decide
  partialBody := by
    intro time request range method _ named
    simp only [republishingServer, method] at named ⊢
    obtain rfl : (⟨false, 0, 0, true, 1⟩ : ContentRange) = range := Option.some.inj named
    cases late time <;> exact List.take_prefix request.bodyCapacity _
  identified := by
    intro time request method _
    left
    simp only [republishingServer, method]
    cases late time <;> decide
  distinct := by
    intro revision other _
    cases revision <;> cases other <;> decide

def letterUri : Uri := { scheme := bytes "http", host := bytes "host", path := bytes "/a" }

/-- The reader an open of the first revision makes. -/
def letterReader : HttpAssetReader where
  options := {}
  origin := letterUri
  uri := letterUri
  metadata :=
    { resolvedIdentifier := bytes "http://host/a"
      size := 1
      supportsRandomAccess := true
      validator := ⟨bytes "\"a\"", .entityTag, .strong⟩
      stability := .stable }
  ifRangeValue := bytes "\"a\""

theorem letterReader_captured_revision :
    let server := republishingServer fun time => 2 ≤ time
    let opened := (httpOpen (bytes "http://host/a") {} (some server) {}).2
    ∃ time, time < opened.time ∧ tagOf (2 ≤ time) = bytes "\"a\"" ∧
      (letterOf (2 ≤ time))[0]? = some ((letterReader.read server 0 false 4 opened).2.dst 0) := by
  intro server opened
  have opens : httpOpen (bytes "http://host/a") {} (some server) {} = (.ok letterReader, opened) :=
    rfl
  rcases read_returns_captured_revision (republishingServer_truthful _) opens rfl with
    ⟨time, _, atOpen, tag, returned⟩
  exact ⟨time, atOpen, tag, (returned 0 4 false opened (by decide +kernel)).2 0 (by decide +kernel)⟩

/-! ### Histories of reads -/

structure ReadCall where
  offset : ℕ
  dst : Buffer
  dstIsNull : Bool
  size : ℕ

/-- A call with what came of it: its result, the requests it made and the buffer it left. -/
structure ReadEvent where
  call : ReadCall
  result : ReadResult
  sent : List Sent
  dst : Buffer

namespace HttpAssetReader

def readCall (reader : HttpAssetReader) (transport : Transport) (call : ReadCall) (wire : Wire) :
    ReadResult × Wire :=
  reader.read transport call.offset call.dstIsNull call.size { wire with dst := call.dst }

def history (reader : HttpAssetReader) (transport : Transport) :
    List ReadCall → Wire → List ReadEvent
  | [], _ => []
  | call :: rest, wire =>
      let (result, after) := reader.readCall transport call wire
      { call, result, sent := after.trace.drop wire.trace.length, dst := after.dst } ::
        reader.history transport rest after

/-- The response is evidence that the asset is not the captured revision any more. -/
def PresentsChange (reader : HttpAssetReader) (response : TransportResponse) : Prop :=
  ExchangeArgs.Sound response ∧
    (response.status = 200 ∧
        (contradictsCapturedValidator response.headers reader.metadata.validator = true ∨
          ∃ whole ∈ (response.headers.find (bytes "Content-Length")).bind parseContentLength,
            whole ≠ reader.metadata.size) ∨
      response.status = 206 ∧
        (contradictsCapturedValidator response.headers reader.metadata.validator = true ∨
          ∃ range ∈ usableContentRange response.headers,
            range.hasCompleteLength = true ∧ range.completeLength ≠ reader.metadata.size) ∨
      response.status = 416 ∧
        (contradictsCapturedValidator response.headers reader.metadata.validator = true ∨
          ∃ range ∈ (response.headers.find (bytes "Content-Range")).bind parseContentRange,
            range.unsatisfied = true ∧ range.completeLength ≠ reader.metadata.size))

instance (reader : HttpAssetReader) (response : TransportResponse) :
    Decidable (reader.PresentsChange response) :=
  inferInstanceAs (Decidable (_ ∧ (_ ∧ (_ ∨ _) ∨ _ ∧ (_ ∨ _) ∨ _ ∧ (_ ∨ _))))

theorem PresentsChange.not_discarded {response : TransportResponse}
    (presents : reader.PresentsChange response) : ¬ExchangeArgs.Discarded response := by
  rcases presents with ⟨sound, ⟨status, _⟩ | ⟨status, _⟩ | ⟨status, _⟩⟩
  · exact ExchangeArgs.not_discarded sound (Or.inl status)
  · exact ExchangeArgs.not_discarded sound (Or.inr (Or.inl status))
  · exact ExchangeArgs.not_discarded sound (Or.inr (Or.inr status))

theorem PresentsChange.judgeRead (presents : reader.PresentsChange exchange.response)
    (ok : exchange.status.code = .ok) (offset size length done : ℕ) :
    ∃ how, reader.judgeRead offset size length done exchange =
      changed offset size exchange.finalUri how := by
  simp only [HttpAssetReader.judgeRead, Status.isOk, ok]
  rcases presents with ⟨_, ⟨status, evidence⟩ | ⟨status, evidence⟩ | ⟨status, evidence⟩⟩
  · simp only [status, judgeWhole]
    rcases evidence with contradicts | ⟨whole, named, differs⟩
    · exact ⟨_, by simp only [contradicts]; rfl⟩
    · cases contradictsCapturedValidator exchange.response.headers reader.metadata.validator with
      | true => exact ⟨_, rfl⟩
      | false => exact ⟨_, by simp [Option.mem_def.mp named, differs]; rfl⟩
  · simp only [status, judgePartial]
    rcases evidence with contradicts | ⟨range, usable, stated, differs⟩
    · exact ⟨_, by simp only [contradicts]; rfl⟩
    · cases contradictsCapturedValidator exchange.response.headers reader.metadata.validator with
      | true => exact ⟨_, rfl⟩
      | false => exact ⟨_, by simp [Option.mem_def.mp usable, stated, differs]; rfl⟩
  · simp only [status, judgeUnsatisfiable]
    rcases evidence with contradicts | ⟨range, named, unsatisfied, differs⟩
    · exact ⟨_, by simp only [contradicts]; rfl⟩
    · cases contradictsCapturedValidator exchange.response.headers reader.metadata.validator with
      | true => exact ⟨_, rfl⟩
      | false => exact ⟨_, by simp [Option.mem_def.mp named, unsatisfied, differs]; rfl⟩

end HttpAssetReader

end UsdAsset.Http
