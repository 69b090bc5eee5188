import Mathlib.Data.List.Induction
import UsdAsset.Http.ExchangeRun

/-!
# What one read puts together

A read receives every response into the caller's own buffer: error pages and
redirect bodies, attempts that are retried, and the partial responses it counts.
`Accepts` says which of them it counts, and `delivered` how far a sequence of
responses has brought it.  The loop invariant is that every request offers the
window from the first missing byte to the end of the range, so nothing that
arrives later can touch a byte that was already counted.
-/

namespace UsdAsset.Http

open ByteString

variable {sent more : List Sent} {dst : Buffer} {position start done left : ℕ}
  {before after wire : Wire} {request : Sent} {transport : Transport}

/-- The response put a byte down at `position`. -/
def Sent.Writes (sent : Sent) (position : ℕ) : Prop :=
  ∃ start, sent.request.body = some start ∧ Buffer.Covers start sent.response.body position

theorem Sent.deliver_of_not_writes {sent : Sent} (untouched : ¬sent.Writes position) :
    sent.deliver dst position = dst position := by
  cases bodyEq : sent.request.body with
  | none => simp only [deliver, bodyEq]
  | some start =>
    simp only [deliver, bodyEq]
    exact Buffer.write_of_not_covers fun covers => untouched ⟨start, bodyEq, covers⟩

theorem Sent.deliver_of_covers {sent : Sent} (body : sent.request.body = some start)
    (covers : Buffer.Covers start sent.response.body position) :
    sent.deliver dst position = sent.response.body.getD (position - start) 0 := by
  simp only [deliver, body]
  exact Buffer.write_of_covers covers

theorem deliverAll_of_not_writes (untouched : ∀ request ∈ sent, ¬request.Writes position) :
    deliverAll sent dst position = dst position := by
  induction sent generalizing dst with
  | nil => rfl
  | cons request rest ih =>
    calc deliverAll (request :: rest) dst position
      _ = request.deliver dst position :=
          ih fun other otherMem => untouched other (List.mem_cons_of_mem _ otherMem)
      _ = dst position := Sent.deliver_of_not_writes (untouched request List.mem_cons_self)

/-- The last response that covers a position decides what stands there. -/
theorem deliverAll_of_last {before after : List Sent} (body : request.request.body = some start)
    (covers : Buffer.Covers start request.response.body position)
    (untouched : ∀ later ∈ after, ¬later.Writes position) :
    deliverAll (before ++ request :: after) dst position =
      request.response.body.getD (position - start) 0 := by
  rw [deliverAll_append]
  calc deliverAll (request :: after) (deliverAll before dst) position
    _ = request.deliver (deliverAll before dst) position := deliverAll_of_not_writes untouched
    _ = request.response.body.getD (position - start) 0 := Sent.deliver_of_covers body covers

namespace HttpAssetReader

/--
The partial response a read counts when `start` bytes are there: it does not
contradict the captured validator, its unambiguous `Content-Range` starts at the
first missing byte, covers exactly the missing bytes and agrees with the
captured size, and its body stayed within its framing.
-/
def Accepts (reader : HttpAssetReader) (offset length start : ℕ) (response : TransportResponse) :
    Prop :=
  response.status = 206 ∧
    contradictsCapturedValidator response.headers reader.metadata.validator = false ∧
    (∃ range ∈ usableContentRange response.headers,
      range.first = offset + start ∧ range.length = length - start ∧
        (range.hasCompleteLength = true → range.completeLength = reader.metadata.size)) ∧
    response.bodyOverflowed = false ∧
    response.error ≠ .destinationRefused ∧ response.error ≠ .headersTooLarge

instance (reader : HttpAssetReader) (offset length start : ℕ) (response : TransportResponse) :
    Decidable (reader.Accepts offset length start response) :=
  inferInstanceAs (Decidable (_ ∧ _ ∧ _ ∧ _ ∧ _ ∧ _))

/-- How many bytes are there after a response, when `start` were there before. -/
def advance (reader : HttpAssetReader) (offset length start : ℕ) (sent : Sent) : ℕ :=
  if reader.Accepts offset length start sent.response then start + sent.response.body.length
  else start

/-- How many bytes a sequence of responses brought: the position of the first missing byte. -/
def delivered (reader : HttpAssetReader) (offset length : ℕ) (sent : List Sent) : ℕ :=
  sent.foldl (reader.advance offset length) 0

variable {reader : HttpAssetReader} {offset length : ℕ} {exchange : ExchangeResult}

@[simp]
theorem delivered_nil : reader.delivered offset length [] = 0 := rfl

theorem delivered_snoc (sent : List Sent) (request : Sent) :
    reader.delivered offset length (sent ++ [request]) =
      reader.advance offset length (reader.delivered offset length sent) request := by
  simp [delivered, List.foldl_append]

theorem not_accepts_of_discarded {response : TransportResponse}
    (discarded : ExchangeArgs.Discarded response) :
    ¬reader.Accepts offset length start response := by
  rintro ⟨partialContent, _, _, _, notRefused, notTooLarge⟩
  exact ExchangeArgs.not_discarded ⟨notRefused, notTooLarge, by simp [partialContent]⟩
    (Or.inr (Or.inl partialContent)) discarded

/-! ### Windows -/

/-- The request offers the transport the bytes from `start` to the end of the range. -/
structure Offers (length start : ℕ) (sent : Sent) : Prop where
  body : sent.request.body = some start
  capacity : sent.request.bodyCapacity = length - start
  received : sent.response.body.length ≤ length - start

theorem Offers.not_writes {sent : Sent} (offers : Offers length start sent)
    (before : position < start) : ¬sent.Writes position := by
  rintro ⟨other, body, covers⟩
  rw [offers.body, Option.some.injEq] at body
  have := covers.1
  omega

/-- Every request offers the window that starts at the first byte still missing. -/
inductive Assembled (reader : HttpAssetReader) (offset length : ℕ) : List Sent → Prop where
  | nil : Assembled reader offset length []
  | snoc {sent : List Sent} {request : Sent} (earlier : Assembled reader offset length sent)
      (offers : Offers length (reader.delivered offset length sent) request) :
      Assembled reader offset length (sent ++ [request])

theorem advance_le (offers : Offers length start request) (within : start ≤ length) :
    start ≤ reader.advance offset length start request ∧
      reader.advance offset length start request ≤ length := by
  have := offers.received
  unfold advance
  split <;> omega

section

variable (assembled : Assembled reader offset length sent)

include assembled

theorem Assembled.delivered_le : reader.delivered offset length sent ≤ length := by
  induction assembled with
  | nil => simp
  | snoc earlier offers ih =>
    rw [delivered_snoc]
    exact (advance_le offers ih).2

theorem Assembled.last_written (counted : position < reader.delivered offset length sent) :
    ∃ before request after, sent = before ++ request :: after ∧
      reader.Accepts offset length (reader.delivered offset length before) request.response ∧
      request.request.body = some (reader.delivered offset length before) ∧
      Buffer.Covers (reader.delivered offset length before) request.response.body position ∧
      ∀ later ∈ after, ¬later.Writes position := by
  induction assembled with
  | nil => simp at counted
  | @snoc sent request earlier offers ih =>
    by_cases already : position < reader.delivered offset length sent
    · rcases ih already with ⟨before, writer, after, rfl, accepted, body, covers, untouched⟩
      refine ⟨before, writer, after ++ [request], by simp, accepted, body, covers, ?_⟩
      intro later laterMem
      rcases List.mem_append.mp laterMem with laterMem | laterMem
      · exact untouched later laterMem
      · rw [List.mem_singleton.mp laterMem]
        exact offers.not_writes already
    · rw [delivered_snoc, advance] at counted
      split at counted
      · rename_i accepted
        exact ⟨sent, request, [], by simp, accepted, offers.body, ⟨by omega, counted⟩, by simp⟩
      · exact absurd counted already

theorem Assembled.window (requestMem : request ∈ sent) :
    ∃ start, start ≤ length ∧ Offers length start request := by
  induction assembled with
  | nil => simp at requestMem
  | @snoc sent last earlier offers ih =>
    rcases List.mem_append.mp requestMem with requestMem | requestMem
    · exact ih requestMem
    · rw [List.mem_singleton.mp requestMem]
      exact ⟨_, earlier.delivered_le, offers⟩

theorem Assembled.append_discarded
    (offers : ∀ request ∈ more, Offers length (reader.delivered offset length sent) request)
    (discarded : ∀ request ∈ more, ExchangeArgs.Discarded request.response) :
    Assembled reader offset length (sent ++ more) ∧
      reader.delivered offset length (sent ++ more) = reader.delivered offset length sent := by
  induction more using List.reverseRecOn with
  | nil => simpa using assembled
  | append_singleton more request ih =>
    rcases ih (fun other mem => offers other (by simp [mem]))
      (fun other mem => discarded other (by simp [mem])) with ⟨assembledMore, same⟩
    rw [← List.append_assoc]
    refine ⟨assembledMore.snoc ?_, ?_⟩
    · rw [same]
      exact offers request (by simp)
    · rw [delivered_snoc, advance, if_neg, same]
      exact not_accepts_of_discarded (discarded request (by simp))

end

/-! ### One response of a read -/

/-- A read that fails with `done` bytes there reports them, unless the asset changed. -/
structure Failed (result : ReadResult) (done : ℕ) : Prop where
  failure : result.status.code ≠ .ok
  changed : result.status.code = .assetChanged → result.bytesRead = 0
  counted : result.status.code ≠ .assetChanged → result.bytesRead = done

/-- A step that ends the read without counting the response. -/
def Refuses (step : ReadStep) (done : ℕ) : Prop :=
  ∃ result, step = .returned result ∧ Failed result done

/-- What a response that is counted does to a read with `done` bytes, the new ones included. -/
def Counts (step : ReadStep) (response : TransportResponse) (done : ℕ) : Prop :=
  (∃ result, step = .returned result ∧ Failed result done) ∨
    (step = .advanced done response.error ∧
      (response.error = .none → response.body ≠ []) ∧
      (response.error ≠ .none → isResumable response.error = true))

theorem refuses_changed (offset size done : ℕ) (uri : Uri) (how : Bytes) :
    Refuses (changed offset size uri how) done :=
  ⟨_, rfl, by simp [assetChangedStatus], fun _ => rfl, by simp [assetChangedStatus]⟩

theorem refuses_of_code {status : Status} (failure : status.code ≠ .ok)
    (unjudged : status.code ≠ .assetChanged) : Refuses (.returned ⟨done, status⟩) done :=
  ⟨_, rfl, failure, fun changed => absurd changed unjudged, fun _ => rfl⟩

theorem refuses_misframed (offset size done : ℕ) (uri : Uri) (message : Bytes) :
    Refuses (misframed offset size done uri message) done :=
  refuses_of_code (by simp) (by simp)

theorem judgeWhole_refuses (reader : HttpAssetReader) (offset size done : ℕ)
    (exchange : ExchangeResult) : Refuses (reader.judgeWhole offset size done exchange) done := by
  simp only [judgeWhole]
  split
  · exact refuses_changed ..
  · split
    · exact refuses_changed ..
    · exact refuses_of_code (by simp) (by simp)

theorem judgeUnsatisfiable_refuses (reader : HttpAssetReader) (offset size done : ℕ)
    (exchange : ExchangeResult) :
    Refuses (reader.judgeUnsatisfiable offset size done exchange) done := by
  simp only [judgeUnsatisfiable]
  split
  · exact refuses_changed ..
  · split
    · exact refuses_changed ..
    · exact refuses_of_code (by simp) (by simp)

theorem projectTransportError_code_ne_ok {error : TransportError} (failed : error ≠ .none)
    (uri : Uri) : (projectTransportError error uri).code ≠ .ok := by
  cases error <;> simp_all [projectTransportError, destinationRefusedStatus]

theorem code_shortReadStatus (offset expected actual : ℕ) (identifier : Bytes) :
    (shortReadStatus offset expected actual identifier).code = .invalidResponse := rfl

theorem judgeDelivered_counts (reader : HttpAssetReader) (offset size length done : ℕ)
    (exchange : ExchangeResult) :
    Counts (reader.judgeDelivered offset size length done exchange) exchange.response
      (done + exchange.response.body.length) := by
  simp only [judgeDelivered]
  split
  · rename_i failed
    left
    exact refuses_of_code (by simpa using projectTransportError_code_ne_ok failed.1 _)
      (by simpa using ExchangeArgs.projectTransportError_unjudged _ _)
  · rename_i resumable
    split
    · left
      exact refuses_of_code (by simp [code_shortReadStatus]) (by simp [code_shortReadStatus])
    · rename_i progress
      right
      refine ⟨rfl, ?_, ?_⟩
      · intro intact empty
        exact progress ⟨by simp [TransportResponse.bodyBytes, empty], intact⟩
      · intro failed
        by_contra notResumable
        exact resumable ⟨failed, by simpa using notResumable⟩

theorem judgePartial_cases (reader : HttpAssetReader) (offset size length done : ℕ)
    (partialContent : exchange.response.status = 206)
    (sound : ExchangeArgs.Sound exchange.response) :
    (Refuses (reader.judgePartial offset size length done exchange) done ∧
      ¬reader.Accepts offset length done exchange.response) ∨
    (Counts (reader.judgePartial offset size length done exchange) exchange.response
        (done + exchange.response.body.length) ∧
      reader.Accepts offset length done exchange.response) := by
  simp only [judgePartial]
  split
  · rename_i contradicts
    left
    refine ⟨refuses_changed .., ?_⟩
    rintro ⟨_, consistent, _⟩
    rw [contradicts] at consistent
    cases consistent
  · rename_i consistent
    split
    · rename_i unusable
      left
      refine ⟨refuses_misframed .., ?_⟩
      rintro ⟨_, _, ⟨range, usable, _⟩, _⟩
      rw [unusable] at usable
      cases usable
    · rename_i range usable
      split
      · rename_i otherLength
        left
        refine ⟨refuses_changed .., ?_⟩
        rintro ⟨_, _, ⟨other, otherUsable, _, _, agrees⟩, _⟩
        obtain rfl : range = other := by simpa [usable] using otherUsable
        exact otherLength.2 (agrees otherLength.1)
      · rename_i sameLength
        split
        · rename_i otherWindow
          left
          refine ⟨refuses_misframed .., ?_⟩
          rintro ⟨_, _, ⟨other, otherUsable, first, covered, _⟩, _⟩
          obtain rfl : range = other := by simpa [usable] using otherUsable
          rcases otherWindow with otherFirst | otherCover
          · exact otherFirst first
          · exact otherCover covered
        · rename_i sameWindow
          split
          · rename_i overflowed
            left
            refine ⟨refuses_misframed .., ?_⟩
            rintro ⟨_, _, _, within, _⟩
            rw [overflowed] at within
            cases within
          · rename_i within
            right
            refine ⟨reader.judgeDelivered_counts .., partialContent, by simpa using consistent,
              ⟨range, usable, ?_, ?_, ?_⟩, by simpa using within, sound.1, sound.2.1⟩
            · by_contra otherFirst
              exact sameWindow (Or.inl otherFirst)
            · by_contra otherCover
              exact sameWindow (Or.inr otherCover)
            · intro stated
              by_contra otherSize
              exact sameLength ⟨stated, otherSize⟩

theorem projectHttpStatus_code (status : Int) (uri : Uri) :
    (projectHttpStatus status uri).code ≠ .ok ∧
      (projectHttpStatus status uri).code ≠ .assetChanged := by
  unfold projectHttpStatus
  repeat' split
  all_goals simp

theorem judgeRead_cases (reader : HttpAssetReader) (offset size length done : ℕ)
    (unjudged : exchange.status.code ≠ .assetChanged)
    (sound : exchange.status.code = .ok → ExchangeArgs.Sound exchange.response) :
    (Refuses (reader.judgeRead offset size length done exchange) done ∧
      (exchange.status.code = .ok → ¬reader.Accepts offset length done exchange.response)) ∨
    (Counts (reader.judgeRead offset size length done exchange) exchange.response
        (done + exchange.response.body.length) ∧
      exchange.status.code = .ok ∧ reader.Accepts offset length done exchange.response) := by
  unfold judgeRead
  split
  · rename_i failure
    have failure : exchange.status.code ≠ .ok := by simpa [Status.isOk] using failure
    left
    exact ⟨refuses_of_code (by simpa using failure) (by simpa using unjudged),
      fun ok => absurd ok failure⟩
  · rename_i success
    have ok : exchange.status.code = .ok := by simpa [Status.isOk] using success
    split
    · rename_i whole
      left
      exact ⟨reader.judgeWhole_refuses .., fun _ accepted => by simpa [whole] using accepted.1⟩
    · split
      · rename_i unsatisfiable
        left
        exact ⟨reader.judgeUnsatisfiable_refuses ..,
          fun _ accepted => by simpa [unsatisfiable] using accepted.1⟩
      · split
        · rename_i other
          left
          refine ⟨refuses_of_code ?_ ?_, fun _ accepted => other accepted.1⟩
          · simpa using (projectHttpStatus_code _ _).1
          · simpa using (projectHttpStatus_code _ _).2
        · rename_i partialContent
          have partialContent : exchange.response.status = 206 := by simpa using partialContent
          rcases reader.judgePartial_cases offset size length done partialContent (sound ok) with
            ⟨refuses, rejected⟩ | ⟨counts, accepted⟩
          · exact Or.inl ⟨refuses, fun _ => rejected⟩
          · exact Or.inr ⟨counts, ok, accepted⟩

/-- A response that brings a read further. -/
structure Advances (reader : HttpAssetReader) (offset length done : ℕ)
    (response : TransportResponse) : Prop where
  accepted : reader.Accepts offset length done response
  progress : response.error = .none → response.body ≠ []
  resumable : response.error ≠ .none → isResumable response.error = true

theorem judgeRead_advanced {reader : HttpAssetReader} {offset size length : ℕ}
    (ok : exchange.status.code = .ok)
    (advances : reader.Advances offset length done exchange.response) :
    reader.judgeRead offset size length done exchange =
      .advanced (done + exchange.response.body.length) exchange.response.error := by
  rcases advances.accepted with
    ⟨partialContent, consistent, ⟨range, usable, first, covered, agrees⟩, within, _⟩
  have sameLength : ¬(range.hasCompleteLength = true ∧
      range.completeLength ≠ reader.metadata.size) := fun differs => differs.2 (agrees differs.1)
  have sameWindow : ¬(range.first ≠ offset + done ∨ range.length ≠ length - done) := by
    simp [first, covered]
  have notFailed : ¬(exchange.response.error ≠ .none ∧
      (!isResumable exchange.response.error) = true) := by
    rintro ⟨failed, notResumable⟩
    simp [advances.resumable failed] at notResumable
  have notStuck : ¬(exchange.response.bodyBytes = 0 ∧ exchange.response.error = .none) := by
    rintro ⟨empty, intact⟩
    exact advances.progress intact (List.length_eq_zero_iff.mp empty)
  simp only [judgeRead, Status.isOk, ok, partialContent, judgePartial, consistent,
    Option.mem_def.mp usable, if_neg sameLength, if_neg sameWindow, within, judgeDelivered,
    if_neg notFailed, if_neg notStuck]
  rfl

theorem advances_of_judgeRead {reader : HttpAssetReader} {offset size length more : ℕ}
    {lastError : TransportError}
    (unjudged : exchange.status.code ≠ .assetChanged)
    (sound : exchange.status.code = .ok → ExchangeArgs.Sound exchange.response)
    (judged : reader.judgeRead offset size length done exchange = .advanced more lastError) :
    reader.Advances offset length done exchange.response ∧
      more = done + exchange.response.body.length ∧ lastError = exchange.response.error := by
  rcases reader.judgeRead_cases offset size length done unjudged sound with
    ⟨⟨result, returned, _⟩, _⟩ | ⟨counts, _, accepted⟩
  · rw [returned] at judged
    cases judged
  · rcases counts with ⟨result, returned, _⟩ | ⟨advanced, progress, resumable⟩
    · rw [returned] at judged
      cases judged
    · rw [advanced] at judged
      cases judged
      exact ⟨⟨accepted, progress, resumable⟩, rfl, rfl⟩

/-! ### The resume loop -/

/-- A request some exchange of the read made, at a URI redirects led to. -/
def Issues (reader : HttpAssetReader) (transport : Transport) (offset length : ℕ)
    (sent : List Sent) (request : Sent) : Prop :=
  ∃ start locations,
    ExchangeArgs.Reaches reader.options.maxRedirects.toNat sent reader.uri locations request.uri ∧
      (reader.readArgs transport offset length start).preflight request.uri = none ∧
      (reader.readArgs transport offset length start).Makes locations.length request

theorem Issues.mono (issues : reader.Issues transport offset length sent request)
    (subset : sent ⊆ more) :
    reader.Issues transport offset length more request := by
  rcases issues with ⟨start, locations, ⟨followed, short, redirected⟩, permitted, made⟩
  exact ⟨start, locations,
    ⟨followed, short, fun location mem => (redirected location mem).mono subset⟩, permitted, made⟩

/-- What is there of a read: the requests so far, and the buffer they left. -/
structure Progress (reader : HttpAssetReader) (transport : Transport) (offset length : ℕ)
    (before after : Wire) (sent : List Sent) : Prop where
  trace_eq : after.trace = before.trace ++ sent
  dst_eq : after.dst = deliverAll sent before.dst
  recorded : Recorded transport before.time sent
  assembled : Assembled reader offset length sent
  issued : ∀ request ∈ sent, reader.Issues transport offset length sent request

/-- What a read can do. -/
structure ReadRun (reader : HttpAssetReader) (transport : Transport) (offset length : ℕ)
    (before : Wire) (result : ReadResult) (after : Wire) (sent : List Sent) : Prop
    extends Progress reader transport offset length before after sent where
  complete : result.status.code = .ok → result.bytesRead = length
  changed : result.status.code = .assetChanged → result.bytesRead = 0
  counted : result.status.code ≠ .assetChanged →
    result.bytesRead = reader.delivered offset length sent

theorem Progress.countRetry (progress : Progress reader transport offset length before after sent) :
    Progress reader transport offset length before after.countRetry sent :=
  { progress with }

theorem Progress.failed {result : ReadResult}
    (progress : Progress reader transport offset length before after sent)
    (failed : Failed result (reader.delivered offset length sent)) :
    ReadRun reader transport offset length before result after sent :=
  { progress with
    complete := fun ok => absurd ok failed.failure
    changed := failed.changed
    counted := failed.counted }

theorem offers_of_makes {redirects : ℕ}
    (made : (reader.readArgs transport offset length start).Makes redirects request) :
    Offers length start request where
  body := made.request_body.1
  capacity := made.request_body.2
  received := made.body_le

theorem Progress.performs {middle : Wire} {retries : ℕ} {result : ExchangeResult}
    (progress : Progress reader transport offset length before middle sent)
    (run : ExchangeArgs.HopRun
      (reader.readArgs transport offset length (reader.delivered offset length sent))
      reader.options.maxRedirects.toNat 0 reader.uri retries middle result left after more) :
    Progress reader transport offset length before after (sent ++ more) ∧
      reader.delivered offset length (sent ++ more) =
        if result.status.code = .ok ∧ reader.Accepts offset length
            (reader.delivered offset length sent) result.response then
          reader.delivered offset length sent + result.response.body.length
        else reader.delivered offset length sent := by
  have offers : ∀ request ∈ more,
      Offers length (reader.delivered offset length sent) request := by
    intro request requestMem
    rcases run.made request requestMem with ⟨locations, _, _, made⟩
    exact offers_of_makes made
  have grown : Assembled reader offset length (sent ++ more) ∧
      reader.delivered offset length (sent ++ more) =
        if result.status.code = .ok ∧ reader.Accepts offset length
            (reader.delivered offset length sent) result.response then
          reader.delivered offset length sent + result.response.body.length
        else reader.delivered offset length sent := by
    by_cases ok : result.status.code = .ok
    · rcases (run.answered ok).last with ⟨earlier, last, rfl, lastEq, _, discarded⟩
      rcases progress.assembled.append_discarded
        (fun request mem => offers request (by simp [mem])) discarded with ⟨assembled, same⟩
      rw [← List.append_assoc]
      refine ⟨assembled.snoc (by rw [same]; exact offers last (by simp)), ?_⟩
      simp only [delivered_snoc, same, advance, lastEq, ok, true_and]
    · rw [if_neg fun both => ok both.1]
      exact progress.assembled.append_discarded offers (run.discarded ok)
  refine ⟨⟨?_, ?_, ?_, grown.1, ?_⟩, grown.2⟩
  · rw [run.trace_eq, progress.trace_eq, List.append_assoc]
  · rw [run.dst_eq, progress.dst_eq, deliverAll_append]
  · apply progress.recorded.append
    simpa [Wire.time, progress.trace_eq, readArgs] using run.recorded
  · intro request requestMem
    rcases List.mem_append.mp requestMem with requestMem | requestMem
    · exact (progress.issued request requestMem).mono (by simp)
    · rcases run.made request requestMem with ⟨locations, reached, permitted, made⟩
      have issues : reader.Issues transport offset length more request :=
        ⟨_, locations, reached, permitted, by simpa using made⟩
      exact issues.mono (by simp)

theorem budgetSpent_failed (reader : HttpAssetReader) (offset size length done : ℕ)
    (lastError : TransportError) :
    Failed (reader.budgetSpent offset size length done lastError) done := by
  unfold budgetSpent
  split
  · rename_i lost
    subst lost
    exact ⟨by simp [projectTransportError], by simp [projectTransportError], fun _ => rfl⟩
  · exact ⟨by simp [code_shortReadStatus], by simp [code_shortReadStatus], fun _ => rfl⟩

theorem readLoop_round (progress : Progress reader transport offset length before wire sent)
    (doneEq : reader.delivered offset length sent = done) (size retries : ℕ)
    (exchanged : (reader.readArgs transport offset length done).performExchange reader.uri retries
      wire = (exchange, left, after)) :
    ∃ more,
      (∃ result, reader.judgeRead offset size length done exchange = .returned result ∧
        ReadRun reader transport offset length before result after more) ∨
      (∃ lastError, reader.judgeRead offset size length done exchange =
          .advanced (reader.delivered offset length more) lastError ∧
        Progress reader transport offset length before after more) := by
  subst doneEq
  rcases ExchangeArgs.performExchange_run
    (reader.readArgs transport offset length (reader.delivered offset length sent)) reader.uri
    retries wire with ⟨more, run⟩
  rw [exchanged] at run
  rcases progress.performs run with ⟨grown, deliveredEq⟩
  refine ⟨sent ++ more, ?_⟩
  rcases reader.judgeRead_cases offset size length (reader.delivered offset length sent)
    run.unjudged (fun ok => (run.answered ok).notFailed) with
    ⟨⟨result, returned, failed⟩, rejected⟩ | ⟨counts, ok, accepted⟩
  · left
    rw [if_neg fun both => rejected both.1 both.2] at deliveredEq
    exact ⟨result, returned, grown.failed (by rw [deliveredEq]; exact failed)⟩
  · rw [if_pos ⟨ok, accepted⟩] at deliveredEq
    rcases counts with ⟨result, returned, failed⟩ | ⟨advanced, _, _⟩
    · left
      exact ⟨result, returned, grown.failed (by rw [deliveredEq]; exact failed)⟩
    · right
      exact ⟨_, by rw [deliveredEq]; exact advanced, grown⟩

section Rounds

variable {size budget retries more : ℕ} {exchange : ExchangeResult} {lastError : TransportError}

section

variable (exchanged : (reader.readArgs transport offset length done).performExchange reader.uri
  retries wire = (exchange, left, after))

include exchanged

theorem readLoop_returned {result : ReadResult}
    (returned : reader.judgeRead offset size length done exchange = .returned result) :
    reader.readLoop transport offset size length budget retries done wire = (result, after) := by
  rw [readLoop]
  simp only [exchanged, returned]

theorem readLoop_complete
    (advanced : reader.judgeRead offset size length done exchange = .advanced more lastError)
    (complete : ¬more < length) :
    reader.readLoop transport offset size length budget retries done wire =
      (⟨more, .success⟩, after) := by
  rw [readLoop]
  simp only [exchanged, advanced, if_neg complete]

theorem readLoop_spent
    (advanced : reader.judgeRead offset size length done exchange = .advanced more lastError)
    (short : more < length) (spent : budget = 0 ∨ left = 0) :
    reader.readLoop transport offset size length budget retries done wire =
      (reader.budgetSpent offset size length more lastError, after) := by
  rw [readLoop]
  rcases spent with rfl | rfl <;> simp only [exchanged, advanced, if_pos short]

end

theorem readLoop_resumed
    (exchanged : (reader.readArgs transport offset length done).performExchange reader.uri retries
      wire = (exchange, left + 1, after))
    (advanced : reader.judgeRead offset size length done exchange = .advanced more lastError)
    (short : more < length) :
    reader.readLoop transport offset size length (budget + 1) retries done wire =
      reader.readLoop transport offset size length budget left more after.countRetry := by
  rw [readLoop]
  simp only [exchanged, advanced, if_pos short]

theorem readLoop_cases
    (exchanged : (reader.readArgs transport offset length done).performExchange reader.uri retries
      wire = (exchange, left, after)) (size budget : ℕ) :
    (reader.readLoop transport offset size length budget retries done wire).2 = after ∨
      ∃ fewer less more lastError, budget = fewer + 1 ∧ left = less + 1 ∧
        reader.judgeRead offset size length done exchange = .advanced more lastError ∧
        reader.readLoop transport offset size length budget retries done wire =
          reader.readLoop transport offset size length fewer less more after.countRetry := by
  cases judged : reader.judgeRead offset size length done exchange with
  | returned result => exact Or.inl (by rw [readLoop_returned exchanged judged])
  | advanced more lastError =>
    by_cases short : more < length
    · by_cases spent : budget = 0 ∨ left = 0
      · exact Or.inl (by rw [readLoop_spent exchanged judged short spent])
      · rcases Nat.exists_eq_succ_of_ne_zero fun zero => spent (Or.inl zero) with ⟨fewer, rfl⟩
        rcases Nat.exists_eq_succ_of_ne_zero fun zero => spent (Or.inr zero) with ⟨less, rfl⟩
        exact Or.inr ⟨fewer, less, more, lastError, rfl, rfl, rfl,
          readLoop_resumed exchanged judged short⟩
    · exact Or.inl (by rw [readLoop_complete exchanged judged short])

end Rounds

theorem readLoop_trace_prefix (reader : HttpAssetReader) (transport : Transport)
    (offset size length budget retries done : ℕ) (wire : Wire) :
    wire.trace <+:
      (reader.readLoop transport offset size length budget retries done wire).2.trace := by
  induction budget using Nat.strongRecOn generalizing retries done wire with
  | _ budget ih =>
    rcases ExchangeArgs.performExchange_run (reader.readArgs transport offset length done)
      reader.uri retries wire with ⟨sent, run⟩
    rcases exchanged : (reader.readArgs transport offset length done).performExchange reader.uri
      retries wire with ⟨exchange, left, after⟩
    rw [exchanged] at run
    have kept : wire.trace <+: after.trace := ⟨sent, run.trace_eq.symm⟩
    rcases readLoop_cases exchanged size budget with
      ends | ⟨fewer, less, more, _, rfl, rfl, _, resumes⟩
    · rw [ends]
      exact kept
    · rw [resumes]
      exact kept.trans (ih fewer (Nat.lt_succ_self fewer) less more after.countRetry)

theorem readLoop_exchange_prefix {retries : ℕ} (size budget : ℕ)
    (exchanged : (reader.readArgs transport offset length done).performExchange reader.uri retries
      wire = (exchange, left, after)) :
    after.trace <+:
      (reader.readLoop transport offset size length budget retries done wire).2.trace := by
  rcases readLoop_cases exchanged size budget with ends | ⟨_, _, _, _, rfl, rfl, _, resumes⟩
  · exact ends ▸ List.prefix_rfl
  · rw [resumes]
    exact reader.readLoop_trace_prefix transport offset size length _ _ _ after.countRetry

theorem readLoop_run (reader : HttpAssetReader) (transport : Transport)
    (offset size length budget retries done : ℕ)
    (progress : Progress reader transport offset length before wire sent)
    (doneEq : reader.delivered offset length sent = done) :
    ∃ all, ReadRun reader transport offset length before
      (reader.readLoop transport offset size length budget retries done wire).1
      (reader.readLoop transport offset size length budget retries done wire).2 all := by
  induction budget using Nat.strongRecOn generalizing retries done wire sent with
  | _ budget ih =>
    rcases exchanged : (reader.readArgs transport offset length done).performExchange reader.uri
      retries wire with ⟨exchange, left, after⟩
    rcases readLoop_round progress doneEq size retries exchanged with
      ⟨more, ⟨result, returned, run⟩ | ⟨lastError, advanced, grown⟩⟩
    · rw [readLoop_returned exchanged returned]
      exact ⟨more, run⟩
    · by_cases short : reader.delivered offset length more < length
      · by_cases spent : budget = 0 ∨ left = 0
        · rw [readLoop_spent exchanged advanced short spent]
          exact ⟨more, grown.failed (reader.budgetSpent_failed ..)⟩
        · obtain ⟨budget, rfl⟩ := Nat.exists_eq_succ_of_ne_zero fun zero => spent (Or.inl zero)
          obtain ⟨left, rfl⟩ := Nat.exists_eq_succ_of_ne_zero fun zero => spent (Or.inr zero)
          rw [readLoop_resumed exchanged advanced short]
          exact ih budget (Nat.lt_succ_self budget) left _ grown.countRetry rfl
      · rw [readLoop_complete exchanged advanced short]
        have := grown.assembled.delivered_le
        exact ⟨more, { grown with
          complete := fun _ => by dsimp only; omega
          changed := by simp
          counted := fun _ => rfl }⟩

theorem progress_nil (reader : HttpAssetReader) (transport : Transport) (offset length : ℕ)
    (wire : Wire) : Progress reader transport offset length wire wire [] where
  trace_eq := by simp
  dst_eq := rfl
  recorded := recorded_nil _ _
  assembled := .nil
  issued := by simp

theorem read_run (reader : HttpAssetReader) (transport : Transport) (offset : ℕ) (dstIsNull : Bool)
    (size : ℕ) (wire : Wire) :
    ∃ sent, ReadRun reader transport offset
      (resolveReadRange offset size reader.metadata.size).length wire
      (reader.read transport offset dstIsNull size wire).1
      (reader.read transport offset dstIsNull size wire).2 sent := by
  have start := reader.progress_nil transport offset
    (resolveReadRange offset size reader.metadata.size).length wire
  simp only [read]
  split
  · exact ⟨[], start.failed ⟨by simp [overflowStatus], by simp [overflowStatus], fun _ => rfl⟩⟩
  · split
    · exact ⟨[], start.failed ⟨by simp [nullBufferStatus], by simp [nullBufferStatus], fun _ => rfl⟩⟩
    · split
      · rename_i empty
        exact ⟨[], { start with
          complete := fun _ => (resolveReadRange_length_of_ne (by simp [empty])).symm
          changed := by simp
          counted := fun _ => rfl }⟩
      · exact reader.readLoop_run transport offset size _ _ _ 0 start rfl

end HttpAssetReader

end UsdAsset.Http
