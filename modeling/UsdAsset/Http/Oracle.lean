import UsdAsset.Http.Binding
import UsdAsset.Local.Reader

/-!
# The local backend is the oracle

A static content is served by an honest server over a transport that injects
faults.  Every fault costs one retry, whichever of the two loops pays for it, so
a read that meets no more faults than it has retries returns what a read of the
content is meant to return, and so does the local backend over an unchanging
file of the same content.
-/

namespace UsdAsset.Http

open ByteString HttpAssetReader

variable {headers : HeaderTable} {transport : Transport} {reader : HttpAssetReader}
  {response : TransportResponse} {offset length start : ℕ} {sent : List Sent}

/-! ### An honest server -/

/-- What an honest server says about the content it serves. -/
structure Asset where
  content : Bytes
  etag : Option Bytes := none
  lastModified : Option Bytes := none

namespace Asset

def window (asset : Asset) (first count : ℕ) : Bytes := (asset.content.drop first).take count

/-- An `If-Range` that is absent, or names the validator of the content. -/
def Names (asset : Asset) (ifRange : Bytes) : Prop :=
  ifRange = [] ∨ (IsStrongTag ifRange ∧ asset.etag.map trim = some ifRange) ∨
    asset.lastModified.map trim = some ifRange

/-- A partial response framed for exactly the window that was asked for. -/
structure Framed (asset : Asset) (first count : ℕ) (response : TransportResponse) : Prop where
  status : response.status = 206
  contentRange : response.headers.valuesOf (bytes "Content-Range") =
    [contentRangeText first (first + count - 1) asset.content.length]
  contentLength : response.headers.hasConflictingDuplicate (bytes "Content-Length") = false
  etag : ∀ tag ∈ response.headers.find (bytes "ETag"), asset.etag = some tag
  lastModified : ∀ date ∈ response.headers.find (bytes "Last-Modified"),
    asset.lastModified = some date
  within : response.bodyOverflowed = false

/-- The whole window, as the server sends it. -/
structure Served (asset : Asset) (first count : ℕ) (response : TransportResponse) : Prop
    extends Framed asset first count response where
  error : response.error = .none
  body : response.body = asset.window first count

/-- What the transport may inject in the place of the server's answer. -/
inductive Fault (asset : Asset) (first count : ℕ) (response : TransportResponse) : Prop where
  | unavailable
      (status : response.status = 429 ∨ response.status = 502 ∨ response.status = 503 ∨
        response.status = 504)
      (error : response.error ≠ .headersTooLarge)
  | unanswered (status : response.status = 0)
      (error : response.error = .connectFailed ∨ response.error = .connectionLost)
  | truncated (framed : Framed asset first count response) (received : ℕ)
      (body : response.body = (asset.window first count).take received)
      (error : response.error = .incompleteBody ∨ response.error = .connectionLost)

/-- The server describes the content, and answers a range of it unless a fault comes between. -/
structure Honest (asset : Asset) (transport : Transport) : Prop where
  fits : asset.content.length ≤ maxU64
  described : ∀ time request, request.method = .head →
    (transport.perform time request).status = 200 →
    (transport.perform time request).headers.find (bytes "Content-Length") =
        some (decimal asset.content.length) ∧
      (transport.perform time request).headers.find (bytes "ETag") = asset.etag ∧
      (transport.perform time request).headers.find (bytes "Last-Modified") = asset.lastModified
  answered : ∀ time request first count, request.method = .get → asset.Names request.ifRange →
    request.range = formatByteRange first count → request.bodyCapacity = count → 0 < count →
    first + count ≤ asset.content.length →
    asset.Served first count (transport.perform time request) ∨
      asset.Fault first count (transport.perform time request)

end Asset

/-- The response is not the whole answer to a range request. -/
def isFault (sent : Sent) : Bool :=
  !(sent.response.status == 206 && sent.response.error == .none)

def faults (sent : List Sent) : ℕ := sent.countP isFault

/-- The interceptor, where there is one, admits every request it is asked about. -/
def HttpOptions.Admits (options : HttpOptions) : Prop :=
  ∀ interceptor ∈ options.interceptor, ∀ time method uri redirects attempt,
    ∃ headers, intercept interceptor time method uri redirects attempt = .ok headers

theorem ExchangeArgs.headersFor_admitted (args : ExchangeArgs) (admits : args.options.Admits)
    (current : Uri) (redirects time attempt : ℕ) :
    ∃ headers, args.headersFor time current redirects attempt = .ok headers := by
  simp only [ExchangeArgs.headersFor]
  split
  · exact ⟨[], rfl⟩
  · rename_i interceptor intercepted
    split
    · exact admits interceptor intercepted time args.method current redirects attempt
    · exact ⟨[], rfl⟩

/-! ### What an open of it captures -/

namespace Asset

variable {asset : Asset}

/-- A validator whose value is the header of its kind. -/
def Describes (asset : Asset) (validator : Validator) : Prop :=
  (validator.kind = .entityTag → asset.etag.map trim = some validator.value) ∧
    (validator.kind = .httpDate → asset.lastModified.map trim = some validator.value)

theorem captureLastModified_describes
    (lastModified : headers.find (bytes "Last-Modified") = asset.lastModified) :
    asset.Describes (captureLastModified headers).validator ∧
      asset.Names (captureLastModified headers).ifRangeValue := by
  cases dated : asset.lastModified with
  | none =>
    simp only [captureLastModified, lastModified, dated]
    exact ⟨⟨nofun, nofun⟩, Or.inl rfl⟩
  | some date =>
    simp only [captureLastModified, lastModified, dated]
    split
    · exact ⟨⟨nofun, nofun⟩, Or.inl rfl⟩
    · exact ⟨⟨nofun, fun _ => by simp [dated]⟩, Or.inr (Or.inr (by simp [dated]))⟩

theorem captureValidator_describes (etag : headers.find (bytes "ETag") = asset.etag)
    (lastModified : headers.find (bytes "Last-Modified") = asset.lastModified) :
    asset.Describes (captureValidator headers).validator ∧
      asset.Names (captureValidator headers).ifRangeValue := by
  cases tagged : asset.etag with
  | none =>
    simp only [captureValidator, etag, tagged]
    exact captureLastModified_describes lastModified
  | some tag =>
    simp only [captureValidator, etag, tagged]
    split
    · exact captureLastModified_describes lastModified
    · rename_i nonempty
      split
      · exact ⟨⟨fun _ => by simp [tagged], by simp⟩, Or.inl rfl⟩
      · rename_i strong
        have strongTag : IsStrongTag (trim tag) := ⟨nonempty, Bool.eq_false_iff.mpr strong⟩
        exact ⟨⟨fun _ => by simp [tagged], by simp⟩, Or.inr (Or.inl ⟨strongTag, by simp [tagged]⟩)⟩

theorem Describes.consistent {validator : Validator} (describes : asset.Describes validator)
    (etag : ∀ tag ∈ headers.find (bytes "ETag"), asset.etag = some tag)
    (lastModified : ∀ date ∈ headers.find (bytes "Last-Modified"),
      asset.lastModified = some date) :
    contradictsCapturedValidator headers validator = false := by
  cases kind : validator.kind with
  | none => simp only [contradictsCapturedValidator, kind]
  | derived => simp only [contradictsCapturedValidator, kind]
  | entityTag =>
    simp only [contradictsCapturedValidator, kind]
    split
    · rfl
    · rename_i tag carried
      have captured := describes.1 kind
      rw [etag tag carried, Option.map_some, Option.some.injEq] at captured
      simp [captured]
  | httpDate =>
    simp only [contradictsCapturedValidator, kind]
    split
    · rfl
    · rename_i date carried
      have captured := describes.2 kind
      rw [lastModified date carried, Option.map_some, Option.some.injEq] at captured
      simp [captured]

/-- A reader that captured the content's size and identity, at a URI it may connect to. -/
structure Bound (asset : Asset) (reader : HttpAssetReader) : Prop where
  size_eq : reader.metadata.size = asset.content.length
  describes : asset.Describes reader.metadata.validator
  names : asset.Names reader.ifRangeValue
  permitted : ∀ transport offset length start,
    (reader.readArgs transport offset length start).preflight reader.uri = none

theorem Honest.bound (server : asset.Honest transport) {url : Bytes} {options : HttpOptions}
    {before after : Wire}
    (opened : httpOpen url options (some transport) before = (.ok reader, after)) :
    asset.Bound reader := by
  rcases httpOpen_opened opened with ⟨uri, exchange, left, sent, capture⟩
  rcases (capture.run.answered capture.succeeded).last with ⟨earlier, last, rfl, lastEq, uriEq, _⟩
  rcases capture.run.made last (by simp) with ⟨_, _, permitted, _, _, _, _, made⟩
  have answered : last.response = transport.perform _ last.request :=
    capture.run.recorded earlier.length last (by simp)
  have described := server.described (before.time + earlier.length) last.request (by rw [made]; rfl)
  rw [← answered, lastEq] at described
  rcases described capture.status with ⟨sized, etag, lastModified⟩
  rcases captureValidator_describes etag lastModified with ⟨describes, names⟩
  refine ⟨?_, ?_, ?_, ?_⟩
  · have captured := capture.sized
    simp only [sized, Option.bind_some, parseContentLength, trim_decimal,
      parseUnsigned_decimal server.fits, Option.mem_def, Option.some.injEq] at captured
    exact captured.symm
  · rw [capture.validator_eq]
    exact describes
  · rw [capture.ifRange_eq]
    exact names
  · intro transport offset length start
    have sameOptions := capture.options_eq
    subst sameOptions
    rw [capture.uri_eq, ← uriEq]
    exact permitted

/-! ### One exchange with it -/

theorem Framed.usable {first count : ℕ} (framed : asset.Framed first count response)
    (fits : asset.content.length ≤ maxU64) (nonempty : 0 < count)
    (inside : first + count ≤ asset.content.length) :
    usableContentRange response.headers =
      some ⟨false, first, first + count - 1, true, asset.content.length⟩ := by
  have unique : response.headers.hasConflictingDuplicate (bytes "Content-Range") = false := by
    simp [HeaderTable.hasConflictingDuplicate, framed.contentRange]
  have parsed := parseContentRange_contentRangeText (by omega : first ≤ first + count - 1)
    (by omega : first + count - 1 < asset.content.length) fits
  simp [usableContentRange, unique, framed.contentLength, HeaderTable.find,
    framed.contentRange, parsed]

theorem Framed.advances (bound : asset.Bound reader) (fits : asset.content.length ≤ maxU64)
    (framed : asset.Framed (offset + start) (length - start) response) (short : start < length)
    (inside : offset + length ≤ asset.content.length)
    (progress : response.error = .none → response.body ≠ [])
    (resumable : response.error ≠ .none → isResumable response.error = true) :
    reader.Advances offset length start response := by
  have usable := framed.usable fits (by omega) (by omega)
  have consistent := bound.describes.consistent framed.etag framed.lastModified
  have sound : response.error ≠ .destinationRefused ∧ response.error ≠ .headersTooLarge := by
    constructor <;> intro error <;> simp [error, isResumable] at resumable
  refine ⟨⟨framed.status, consistent, ⟨_, usable, rfl, ?_, ?_⟩, framed.within, sound⟩, progress,
    resumable⟩
  · simp only [ContentRange.length]
    simp only [maxU64] at fits
    omega
  · intro _
    exact bound.size_eq.symm

/-- The answer to a request of the read: to be retried, or to be counted. -/
theorem Honest.judged (server : asset.Honest transport) (bound : asset.Bound reader)
    {redirects : ℕ} {request : Sent}
    (made : (reader.readArgs transport offset length start).Makes redirects request)
    (short : start < length) (inside : offset + length ≤ asset.content.length) :
    (isRetryable request.response = true ∧ isFault request = true) ∨
      (isRetryable request.response = false ∧ request.response.status = 206 ∧
        reader.Advances offset length start request.response ∧
        request.response.body <+: asset.window (offset + start) (length - start) ∧
        (isFault request = true ∨ request.response.body.length = length - start)) := by
  rcases made with ⟨time, attempt, headers, _, sentEq⟩
  have requested := server.answered time request.request (offset + start) (length - start)
    (by rw [sentEq]; rfl) (by rw [sentEq]; exact bound.names) (by rw [sentEq]; rfl)
    (by rw [sentEq]; rfl) (by omega) (by omega)
  have received : request.response = transport.perform time request.request := by
    rw [sentEq]
    rfl
  rw [← received] at requested
  rcases requested with served | fault
  · have size : request.response.body.length = length - start := by
      rw [served.body, window, List.length_take, List.length_drop]
      omega
    have advances := served.toFramed.advances bound server.fits short inside
      (fun _ empty => by simp [empty] at size; omega) (fun failed => absurd served.error failed)
    refine Or.inr ⟨?_, served.status, advances, ?_, Or.inr size⟩
    · simp [isRetryable, served.status, served.error, isRetryableStatus]
    · exact served.body ▸ List.prefix_rfl
  · cases fault with
    | unavailable status error =>
      left
      rcases status with status | status | status | status <;>
        simp [isRetryable, isFault, status, error, isRetryableStatus]
    | unanswered status error =>
      left
      rcases error with error | error <;>
        simp [isRetryable, isFault, status, error, isRetryableTransportError]
    | truncated framed count body error =>
      have advances := framed.advances bound server.fits short inside
        (fun intact => by rcases error with error | error <;> simp [error] at intact)
        (fun _ => by rcases error with error | error <;> simp [error, isResumable])
      have isFault : isFault request = true := by
        rcases error with error | error <;> simp [Http.isFault, error]
      refine Or.inr ⟨?_, framed.status, advances, ?_, Or.inl isFault⟩
      · rcases error with error | error <;>
          simp [isRetryable, framed.status, error, isRetryableStatus]
      · rw [body]
        exact List.take_prefix _ _

theorem faults_append (sent more : List Sent) : faults (sent ++ more) = faults sent + faults more :=
  List.countP_append

theorem faults_of_forall (all : ∀ request ∈ sent, isFault request = true) :
    faults sent = sent.length :=
  List.countP_eq_length.mpr all

theorem not_isRedirect_of_isRetryable (retryable : isRetryable response = true) :
    isRedirect response.status = false := by
  by_contra redirect
  simp only [isRedirect, Bool.not_eq_false, Bool.or_eq_true, beq_iff_eq] at redirect
  rcases redirect with ((status | status) | status) | status <;>
    simp [isRetryable, status, isRetryableStatus] at retryable

variable (server : asset.Honest transport) (bound : asset.Bound reader)

include server bound

theorem Honest.isFault_of_isRetryable {redirects : ℕ} {request : Sent}
    (made : (reader.readArgs transport offset length start).Makes redirects request)
    (short : start < length) (inside : offset + length ≤ asset.content.length)
    (retryable : isRetryable request.response = true) : isFault request = true := by
  rcases server.judged bound made short inside with ⟨_, fault⟩ | ⟨final, _⟩
  · exact fault
  · rw [retryable] at final
    cases final

/--
An exchange of the read.  Either it met more faults than it had retries, or it
brought the read further, and a fault was met for every retry it took and for
every byte that is still missing.
-/
theorem Honest.exchange (admits : reader.options.Admits) (short : start < length)
    (inside : offset + length ≤ asset.content.length) (retries : ℕ) (wire : Wire) :
    ∃ exchange left after sent,
      (reader.readArgs transport offset length start).performExchange reader.uri retries wire =
        (exchange, left, after) ∧ after.trace = wire.trace ++ sent ∧
      (retries < faults sent ∨
        (exchange.status.code = .ok ∧ reader.Advances offset length start exchange.response ∧
          left ≤ retries ∧
          (retries < faults sent + left ∨ exchange.response.body.length = length - start))) := by
  have admitted := (reader.readArgs transport offset length start).headersFor_admitted admits
    reader.uri 0
  have permitted := bound.permitted transport offset length start
  rcases ExchangeArgs.attemptLoop_admitted admitted retries 1 wire with
    ⟨response, left, after, attempts⟩
  rcases (reader.readArgs transport offset length start).attemptLoop_run 0 reader.uri retries 1 wire
    with ⟨sent, run⟩
  simp only [attempts] at run
  have spent := run.spent_answered.1
  rcases run.answered response rfl with ⟨earlier, last, rfl, rfl, retried, final⟩
  have isFaultOf : ∀ request ∈ earlier ++ [last], isRetryable request.response = true →
      isFault request = true := fun request mem retryable =>
    server.isFault_of_isRetryable bound (run.made request mem).2 short inside retryable
  have earlierFaults : faults earlier = earlier.length :=
    faults_of_forall fun request mem => isFaultOf request (by simp [mem]) (retried request mem)
  rw [List.length_append, List.length_singleton] at spent
  have faultsOf : isFault last = true → faults (earlier ++ [last]) = earlier.length + 1 := by
    intro fault
    rw [faults_append, earlierFaults, faults_of_forall (by simpa using fault)]
    rfl
  have exchanged : ∀ {result : ExchangeResult},
      (reader.readArgs transport offset length start).judgeHop reader.options.maxRedirects.toNat
        reader.uri last.response = .finished result →
      (reader.readArgs transport offset length start).performExchange reader.uri retries wire =
        (result, left, after) := ExchangeArgs.hopLoop_finished permitted attempts
  rcases server.judged bound (run.made last (by simp)).2 short inside with
    ⟨retryable, fault⟩ | ⟨_, status, advances, _, ending⟩
  · -- The last attempt is only retryable when no retry is left for it.
    have exhausted : left = 0 := final.resolve_right (by simp [retryable])
    rcases ExchangeArgs.judgeHop_finishes _ _ _ (not_isRedirect_of_isRetryable retryable) with
      ⟨_, judged, _⟩
    refine ⟨_, _, _, _, exchanged judged, run.trace_eq, Or.inl ?_⟩
    rw [faultsOf fault]
    omega
  · have sound : ExchangeArgs.Sound last.response :=
      ⟨advances.accepted.2.2.2.2.1, advances.accepted.2.2.2.2.2, by simp [status]⟩
    rcases ExchangeArgs.judgeHop_finishes _ _ _ (by rw [status]; rfl) with
      ⟨_, judged, _, discarded, _⟩
    refine ⟨_, _, _, _, exchanged judged, run.trace_eq,
      Or.inr ⟨?_, advances, by omega, ?_⟩⟩
    · by_contra failure
      exact ExchangeArgs.not_discarded sound (Or.inr (Or.inl status)) (discarded failure)
    · rcases ending with fault | whole
      · left
        rw [faultsOf fault]
        omega
      · exact Or.inr whole

/-! ### The whole read -/

theorem Honest.readLoop_ok
    (admits : reader.options.Admits) {size budget retries done : ℕ} {wire : Wire}
    (inside : offset + length ≤ asset.content.length) (short : done < length)
    (affordable : retries ≤ budget) (few : faults sent ≤ retries)
    (traceEq : (reader.readLoop transport offset size length budget retries done wire).2.trace =
      wire.trace ++ sent) :
    (reader.readLoop transport offset size length budget retries done wire).1.status.code = .ok := by
  induction budget using Nat.strongRecOn generalizing retries done wire sent with
  | _ budget ih =>
    rcases server.exchange bound admits short inside retries wire with
      ⟨exchange, left, after, first, exchanged, firstEq, outcome⟩
    -- What this exchange sent is the beginning of what the loop sent.
    rcases readLoop_exchange_prefix size budget exchanged with ⟨rest, restEq⟩
    have sentEq : sent = first ++ rest := by
      rw [traceEq, firstEq, List.append_assoc] at restEq
      exact (List.append_cancel_left restEq).symm
    rw [sentEq, faults_append] at few
    rcases outcome with tooMany | ⟨ok, advances, fewer, ending⟩
    · omega
    · have judged : reader.judgeRead offset size length done exchange = _ :=
        judgeRead_advanced ok advances
      by_cases complete : done + exchange.response.body.length < length
      · have fault := ending.resolve_right (by omega)
        obtain ⟨left, rfl⟩ := Nat.exists_eq_succ_of_ne_zero (by omega : left ≠ 0)
        obtain ⟨budget, rfl⟩ := Nat.exists_eq_succ_of_ne_zero (by omega : budget ≠ 0)
        rw [readLoop_resumed exchanged judged complete] at restEq ⊢
        exact ih budget (Nat.lt_succ_self budget) complete (by omega) (by omega) restEq.symm
      · rw [readLoop_complete exchanged judged complete]
        rfl

theorem Honest.copied
    {position : ℕ} (inside : offset + length ≤ asset.content.length) {before after : Wire}
    {result : ReadResult}
    (run : HttpAssetReader.ReadRun reader transport offset length before result after sent)
    (counted : position < result.bytesRead) :
    asset.content[offset + position]? = some (after.dst position) := by
  rcases run.validated counted with
    ⟨earlier, request, later, rfl, accepted, body, covers, value, _⟩
  rcases run.issued request (by simp) with ⟨start, locations, _, _, made⟩
  have startEq : start = reader.delivered offset length earlier := by
    rw [made.request_body.1] at body
    exact Option.some.inj body
  rw [← startEq] at accepted covers value
  have received : request.response.body.length ≤ length - start := made.body_le
  have short : start < length := by
    have := covers.1
    have := covers.2
    omega
  rcases server.judged bound made short inside with ⟨retryable, _⟩ | ⟨_, _, _, window, _⟩
  · exact absurd (ExchangeArgs.discarded_of_isRetryable retryable)
      fun discarded => not_accepts_of_discarded discarded accepted
  · have byte := getElem?_of_prefix_window window covers.index_lt
    rw [value, ← byte]
    congr 1
    have := covers.1
    omega

theorem Honest.read_returns
    (admits : reader.options.Admits) {size : ℕ} {dstIsNull : Bool} {wire : Wire}
    (traceEq : (reader.read transport offset dstIsNull size wire).2.trace = wire.trace ++ sent)
    (few : faults sent ≤ reader.options.retryBudget) :
    Returns (reader.read transport offset dstIsNull size wire).1
      (reader.read transport offset dstIsNull size wire).2.dst
      (contentRead asset.content offset dstIsNull size) := by
  rcases reader.read_run transport offset dstIsNull size wire with ⟨_, run⟩
  simp only [HttpAssetReader.read, bound.size_eq] at traceEq run ⊢
  apply returns_guarded Wire.dst
  intro transfer buffered
  rw [transfer, if_neg (by simp), if_neg buffered, if_neg (by simp)] at traceEq run
  rcases resolveReadRange_transfer transfer with ⟨positive, length, _, before⟩
  have inside : offset + (resolveReadRange offset size asset.content.length).length ≤
      asset.content.length := by omega
  have ok := server.readLoop_ok bound admits inside positive le_rfl few traceEq
  apply returns_of_copied transfer buffered ok (run.complete ok)
  intro position counted
  exact server.copied bound inside run counted

end Asset

/--
The remote backend equals the local oracle.  For every request, a read that
meets at most `maxAttempts - 1` faults and a read of an unchanging file of the
same content return the same code, the same count and the same bytes.
-/
theorem read_agrees_with_local {asset : Asset} {transport : Transport}
    (server : asset.Honest transport) {url : Bytes} {options : HttpOptions}
    (admits : options.Admits) {before after : Wire} {reader : HttpAssetReader}
    (opened : httpOpen url options (some transport) before = (.ok reader, after))
    {identity : Local.FileIdentity} {file : Local.PlatformFile}
    (unchanging : Local.UnchangingFile asset.content identity file) {path : Bytes}
    {oracle : Local.LocalAssetReader} (openedLocal : Local.localOpen path (.ok file) = .ok oracle)
    (offset size : ℕ) (dstIsNull : Bool) (wire : Wire) (sent : List Sent) (time : ℕ)
    (traceEq : (reader.read transport offset dstIsNull size wire).2.trace = wire.trace ++ sent)
    (few : faults sent ≤ (options.maxAttempts - 1).toNat) :
    let remote := reader.read transport offset dstIsNull size wire
    let stored := oracle.read file offset dstIsNull size wire.dst time
    remote.1.status.code = stored.1.status.code ∧ remote.1.bytesRead = stored.1.bytesRead ∧
      ∀ position < remote.1.bytesRead, remote.2.dst position = stored.2 position := by
  rcases httpOpen_opened opened with ⟨_, _, _, _, capture⟩
  have sameOptions := capture.options_eq
  subst sameOptions
  have affordable : (reader.options.maxAttempts - 1).toNat = reader.options.retryBudget := by
    simp only [HttpOptions.retryBudget]
    split <;> omega
  rw [affordable] at few
  exact (server.read_returns (server.bound opened) admits traceEq few).agree
    (Local.localRead_returns unchanging openedLocal offset dstIsNull size wire.dst time)

/-! A pair of bytes, served whole except where a connection is lost after the first one. -/

def pairAsset : Asset where
  content := bytes "AB"
  etag := some (bytes "\"a\"")

def pairServer (lost : ℕ → Bool) : Transport where
  perform time request :=
    match request.method with
    | .head =>
        { status := 200
          headers := ⟨[(bytes "ETag", bytes "\"a\""), (bytes "Content-Length", bytes "2"),
            (bytes "Accept-Ranges", bytes "bytes")]⟩ }
    | .get =>
        match [(0, 1), (0, 2), (1, 1)].find? fun window =>
            formatByteRange window.1 window.2 = request.range with
        | none => { status := 416 }
        | some (first, count) =>
            { status := 206
              headers := ⟨[(bytes "Content-Range", contentRangeText first (first + count - 1) 2)]⟩
              body := ((pairAsset.window first count).take (if lost time then 1 else count)).take
                request.bodyCapacity
              error := if lost time then .connectionLost else .none }
  body_le_capacity := by
    intro time request
    split
    · simp
    · split
      · simp
      · exact List.length_take_le _ _

theorem pairServer_honest (lost : ℕ → Bool) : pairAsset.Honest (pairServer lost) where
  fits := by decide
  described := by
    intro time request method _
    simp only [pairServer, method]
    decide
  answered := by
    intro time request first count method _ range capacity nonempty inside
    have windows : (first, count) = (0, 1) ∨ (first, count) = (0, 2) ∨ (first, count) = (1, 1) := by
      simp only [pairAsset, Prod.mk.injEq] at inside ⊢
      have two : (bytes "AB").length = 2 := rfl
      omega
    simp only [pairServer, method, range, capacity]
    rcases windows with window | window | window <;> cases window <;> cases lost time
    all_goals first
      | exact Or.inl ⟨⟨rfl, rfl, rfl, by decide, by decide, rfl⟩, rfl, rfl⟩
      | exact Or.inr (.truncated ⟨rfl, rfl, rfl, by decide, by decide, rfl⟩ 1 rfl (Or.inr rfl))

def pairUri : Uri := { scheme := bytes "http", host := bytes "host", path := bytes "/a" }

def pairReader : HttpAssetReader where
  options := {}
  origin := pairUri
  uri := pairUri
  metadata :=
    { resolvedIdentifier := bytes "http://host/a"
      size := 2
      supportsRandomAccess := true
      validator := ⟨bytes "\"a\"", .entityTag, .strong⟩
      stability := .stable }
  ifRangeValue := bytes "\"a\""

/-- A file of the same bytes that delivers one of them at a time. -/
def pairFile : Local.PlatformFile where
  stat _ := .ok ⟨2, 1, 1, 1⟩
  positionalRead _ offset size := .ok ((pairAsset.window offset size).take 1)
  delivered_le := by
    intro _ offset size data delivered
    cases delivered
    simp only [Asset.window, List.length_take, List.length_drop]
    omega

theorem pairFile_unchanging : Local.UnchangingFile pairAsset.content ⟨2, 1, 1, 1⟩ pairFile where
  size_eq := rfl
  stat_eq _ := rfl
  reads := by
    intro time offset size positive inside
    refine ⟨_, rfl, ?_, List.take_prefix _ _⟩
    intro empty
    have lengths := congrArg List.length empty
    simp [Asset.window] at lengths
    omega

def pairOracle : Local.LocalAssetReader where
  metadata :=
    { resolvedIdentifier := bytes "/a"
      size := 2
      supportsRandomAccess := true
      validator := ⟨Local.formatIdentity ⟨2, 1, 1, 1⟩, .derived, .strong⟩
      stability := .stable }
  openIdentity := ⟨2, 1, 1, 1⟩

/-- The server loses the connection of its first answer to a range. -/
def lossyServer : Transport := pairServer fun time => time == 1

/-- What the open of the pair put on the wire. -/
def pairOpened : Wire := (httpOpen (bytes "http://host/a") {} (some lossyServer) {}).2

theorem pairReader_agrees_with_local :
    (faults ((pairReader.read lossyServer 0 false 4 pairOpened).2.trace.drop 1) = 1 ∧
      (pairReader.read lossyServer 0 false 4 pairOpened).1.bytesRead = 2) ∧
    let remote := pairReader.read lossyServer 0 false 4 pairOpened
    let stored := pairOracle.read pairFile 0 false 4 pairOpened.dst 0
    remote.1.status.code = stored.1.status.code ∧ remote.1.bytesRead = stored.1.bytesRead ∧
      ∀ position < remote.1.bytesRead, remote.2.dst position = stored.2 position := by
  have opens : httpOpen (bytes "http://host/a") {} (some lossyServer) {} =
      (.ok pairReader, pairOpened) := rfl
  have opensLocal : Local.localOpen (bytes "/a") (.ok pairFile) = .ok pairOracle := rfl
  have admits : HttpOptions.Admits {} := by
    intro interceptor absent
    cases absent
  have lost : faults ((pairReader.read lossyServer 0 false 4 pairOpened).2.trace.drop 1) = 1 := by
    decide +kernel
  rcases pairReader.read_run lossyServer 0 false 4 pairOpened with ⟨sent, run⟩
  have few : faults sent ≤ (({} : HttpOptions).maxAttempts - 1).toNat := by
    rw [run.trace_eq, List.drop_left' (by decide +kernel)] at lost
    rw [lost]
    decide
  exact ⟨⟨lost, by decide +kernel⟩, read_agrees_with_local (pairServer_honest _) admits opens
    pairFile_unchanging opensLocal 0 4 false pairOpened sent 0 run.trace_eq few⟩

end UsdAsset.Http
