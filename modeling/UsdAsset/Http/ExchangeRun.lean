import UsdAsset.Http.Reader

/-!
# What one exchange puts on the wire

`AttemptRun` and `HopRun` say once what the two loops of an exchange can do: the
requests they add to the trace, how each of them was made, which redirects were
followed to reach it, and what the two budgets allow.  Every property of the
reader is derived from these facts; nothing below unfolds a loop again.
-/

namespace UsdAsset.Http

open ByteString

variable {time redirects attempt retries left hops : ℕ} {sent : List Sent} {args : ExchangeArgs}
  {current : Uri} {headers : List RequestHeader} {status : Status} {before after wire : Wire}
  {response : TransportResponse}

def deliverAll (sent : List Sent) (dst : Buffer) : Buffer :=
  sent.foldl (fun memory request => request.deliver memory) dst

theorem deliverAll_append (earlier later : List Sent) (dst : Buffer) :
    deliverAll (earlier ++ later) dst = deliverAll later (deliverAll earlier dst) := by
  simp [deliverAll, List.foldl_append]

/-- The requests were answered by the transport one after the other, from `time` on. -/
def Recorded (transport : Transport) (time : ℕ) (sent : List Sent) : Prop :=
  ∀ index request, sent[index]? = some request →
    request.response = transport.perform (time + index) request.request

theorem recorded_nil (transport : Transport) (time : ℕ) : Recorded transport time [] := by
  intro index request impossible
  simp at impossible

theorem recorded_singleton {transport : Transport} {sent : Sent}
    (answered : sent.response = transport.perform time sent.request) :
    Recorded transport time [sent] := by
  intro index request requestAt
  rw [List.getElem?_singleton] at requestAt
  split at requestAt
  · rename_i zero
    obtain rfl : sent = request := by simpa using requestAt
    simpa [zero] using answered
  · cases requestAt

theorem Recorded.append {transport : Transport} {later : List Sent}
    (recorded : Recorded transport time sent)
    (recordedLater : Recorded transport (time + sent.length) later) :
    Recorded transport time (sent ++ later) := by
  intro index request requestAt
  rw [List.getElem?_append] at requestAt
  split at requestAt
  · exact recorded index request requestAt
  · rename_i beyond
    have answered := recordedLater (index - sent.length) request requestAt
    rwa [show time + sent.length + (index - sent.length) = time + index by omega] at answered

namespace ExchangeArgs

/-- A request of this exchange, made after `redirects` redirects. -/
def Makes (args : ExchangeArgs) (redirects : ℕ) (sent : Sent) : Prop :=
  ∃ time attempt headers,
    args.headersFor time sent.uri redirects attempt = .ok headers ∧
      sent = args.send time sent.uri headers

theorem makes_send (admitted : args.headersFor time current redirects attempt = .ok headers) :
    args.Makes redirects (args.send time current headers) :=
  ⟨time, attempt, headers, admitted, rfl⟩

theorem Makes.request_body {sent : Sent} (made : args.Makes redirects sent) :
    sent.request.body = args.body ∧ sent.request.bodyCapacity = args.capacity := by
  rcases made with ⟨time, attempt, headers, _, sentEq⟩
  rw [sentEq]
  exact ⟨rfl, rfl⟩

theorem Makes.body_le {sent : Sent} (made : args.Makes redirects sent) :
    sent.response.body.length ≤ args.capacity := by
  rcases made with ⟨time, attempt, headers, _, sentEq⟩
  rw [sentEq]
  exact args.transport.body_le_capacity _ _

theorem headersFor_refusal
    (refused : args.headersFor time current redirects attempt = .error status) :
    IsRefusal status := by
  unfold headersFor at refused
  split at refused
  · cases refused
  · split at refused
    · exact intercept_refusal refused
    · cases refused

/-! ### The attempts of one hop -/

/-- What the attempts of one hop can do. -/
structure AttemptRun (args : ExchangeArgs) (redirects : ℕ) (current : Uri) (retries : ℕ)
    (before : Wire) (outcome : Except Status TransportResponse) (left : ℕ) (after : Wire)
    (sent : List Sent) : Prop where
  trace_eq : after.trace = before.trace ++ sent
  dst_eq : after.dst = deliverAll sent before.dst
  recorded : Recorded args.transport before.time sent
  redirects_eq : after.sink.redirects = before.sink.redirects
  made : ∀ request ∈ sent, request.uri = current ∧ args.Makes redirects request
  /-- Every request but the one that is answered for costs a retry. -/
  spent : sent.length + left = retries + if outcome.isOk then 1 else 0
  refused : ∀ status, outcome = .error status →
    IsRefusal status ∧ ∀ request ∈ sent, isRetryable request.response = true
  answered : ∀ response, outcome = .ok response →
    ∃ earlier last, sent = earlier ++ [last] ∧ last.response = response ∧
      (∀ request ∈ earlier, isRetryable request.response = true) ∧
      (left = 0 ∨ isRetryable response = false)

theorem AttemptRun.spent_answered
    (run : AttemptRun args redirects current retries before (.ok response) left after sent) :
    sent.length + left = retries + 1 ∧ 0 < sent.length := by
  rcases run.answered response rfl with ⟨earlier, last, sentEq, _⟩
  exact ⟨by simpa [Except.isOk, Except.toBool] using run.spent, by simp [sentEq]⟩

theorem AttemptRun.spent_refused
    (run : AttemptRun args redirects current retries before (.error status) left after sent) :
    sent.length + left = retries := by
  simpa [Except.isOk, Except.toBool] using run.spent

theorem attemptRun_answered
    (admitted : args.headersFor wire.time current redirects attempt = .ok headers)
    (final : retries = 0 ∨
      isRetryable (args.send wire.time current headers).response = false) :
    AttemptRun args redirects current retries wire
      (.ok (args.send wire.time current headers).response) retries
      (wire.push (args.send wire.time current headers))
      [args.send wire.time current headers] where
  trace_eq := rfl
  dst_eq := rfl
  recorded := recorded_singleton rfl
  redirects_eq := rfl
  made := by
    intro request requestMem
    simp only [List.mem_singleton] at requestMem
    subst request
    exact ⟨rfl, makes_send admitted⟩
  spent := by simp [Except.isOk, Except.toBool, Nat.add_comm]
  refused := by
    intro status impossible
    cases impossible
  answered := by
    intro response responseEq
    cases responseEq
    exact ⟨[], _, rfl, rfl, by simp, final⟩

theorem attemptRun_refused (refused : IsRefusal status) :
    AttemptRun args redirects current retries wire (.error status) retries wire [] where
  trace_eq := by simp
  dst_eq := rfl
  recorded := recorded_nil _ _
  redirects_eq := rfl
  made := by simp
  spent := by simp [Except.isOk, Except.toBool]
  refused := by
    intro other otherEq
    cases otherEq
    exact ⟨refused, by simp⟩
  answered := by
    intro response impossible
    cases impossible

theorem attemptRun_retried {outcome : Except Status TransportResponse}
    (admitted : args.headersFor wire.time current redirects attempt = .ok headers)
    (retryable : isRetryable (args.send wire.time current headers).response = true)
    (rest : AttemptRun args redirects current retries
      (wire.push (args.send wire.time current headers)).countRetry outcome left after sent) :
    AttemptRun args redirects current (retries + 1) wire outcome left after
      (args.send wire.time current headers :: sent) where
  trace_eq := by simp [rest.trace_eq]
  dst_eq := by simp [rest.dst_eq, deliverAll]
  recorded := by
    rw [← List.singleton_append]
    apply (recorded_singleton rfl).append
    simpa [Wire.time] using rest.recorded
  redirects_eq := rest.redirects_eq
  made := by
    intro request requestMem
    rcases List.mem_cons.mp requestMem with rfl | later
    · exact ⟨rfl, makes_send admitted⟩
    · exact rest.made request later
  spent := by
    have := rest.spent
    simp only [List.length_cons]
    omega
  refused := by
    intro status statusEq
    rcases rest.refused status statusEq with ⟨refusal, retried⟩
    exact ⟨refusal, List.forall_mem_cons.mpr ⟨retryable, retried⟩⟩
  answered := by
    intro response responseEq
    rcases rest.answered response responseEq with ⟨earlier, last, rfl, lastEq, retried, final⟩
    exact ⟨_ :: earlier, last, rfl, lastEq, List.forall_mem_cons.mpr ⟨retryable, retried⟩, final⟩

theorem retried_of_not_final (more : ¬(retries = 0 ∨ isRetryable response = false)) :
    ∃ fewer, retries = fewer + 1 ∧ isRetryable response = true := by
  rcases Nat.exists_eq_succ_of_ne_zero fun zero => more (Or.inl zero) with ⟨fewer, rfl⟩
  exact ⟨fewer, rfl, by simpa using fun final => more (Or.inr final)⟩

theorem attemptLoop_refused
    (refused : args.headersFor wire.time current redirects attempt = .error status) :
    args.attemptLoop redirects current retries attempt wire = (.error status, retries, wire) := by
  cases retries <;> simp only [attemptLoop, refused]

theorem attemptLoop_answered
    (admitted : args.headersFor wire.time current redirects attempt = .ok headers)
    (final : retries = 0 ∨ isRetryable (args.send wire.time current headers).response = false) :
    args.attemptLoop redirects current retries attempt wire =
      (.ok (args.send wire.time current headers).response, retries,
        wire.push (args.send wire.time current headers)) := by
  cases retries with
  | zero => simp only [attemptLoop, admitted]
  | succ retries =>
    have notRetryable := final.resolve_left (Nat.succ_ne_zero retries)
    simp [attemptLoop, admitted, notRetryable]

theorem attemptLoop_retried
    (admitted : args.headersFor wire.time current redirects attempt = .ok headers)
    (retryable : isRetryable (args.send wire.time current headers).response = true) :
    args.attemptLoop redirects current (retries + 1) attempt wire =
      args.attemptLoop redirects current retries (attempt + 1)
        (wire.push (args.send wire.time current headers)).countRetry := by
  simp only [attemptLoop, admitted, retryable, if_true]

theorem attemptLoop_run (args : ExchangeArgs) (redirects : ℕ) (current : Uri)
    (retries attempt : ℕ) (wire : Wire) :
    ∃ sent, AttemptRun args redirects current retries wire
      (args.attemptLoop redirects current retries attempt wire).1
      (args.attemptLoop redirects current retries attempt wire).2.1
      (args.attemptLoop redirects current retries attempt wire).2.2 sent := by
  induction retries using Nat.strongRecOn generalizing attempt wire with
  | _ retries ih =>
    cases admitted : args.headersFor wire.time current redirects attempt with
    | error status =>
      rw [attemptLoop_refused admitted]
      exact ⟨[], attemptRun_refused (headersFor_refusal admitted)⟩
    | ok headers =>
      by_cases final : retries = 0 ∨
          isRetryable (args.send wire.time current headers).response = false
      · rw [attemptLoop_answered admitted final]
        exact ⟨_, attemptRun_answered admitted final⟩
      · rcases retried_of_not_final final with ⟨fewer, rfl, retryable⟩
        rcases ih fewer (Nat.lt_succ_self fewer) (attempt + 1)
          (wire.push (args.send wire.time current headers)).countRetry with ⟨sent, rest⟩
        rw [attemptLoop_retried admitted retryable]
        exact ⟨_, attemptRun_retried admitted retryable rest⟩

theorem attemptLoop_admitted (admits : ∀ time attempt, ∃ headers,
      args.headersFor time current redirects attempt = .ok headers) (retries attempt : ℕ)
    (wire : Wire) :
    ∃ response left after,
      args.attemptLoop redirects current retries attempt wire = (.ok response, left, after) := by
  induction retries using Nat.strongRecOn generalizing attempt wire with
  | _ retries ih =>
    rcases admits wire.time attempt with ⟨headers, admitted⟩
    by_cases final : retries = 0 ∨
        isRetryable (args.send wire.time current headers).response = false
    · exact ⟨_, _, _, attemptLoop_answered admitted final⟩
    · rcases retried_of_not_final final with ⟨fewer, rfl, retryable⟩
      rw [attemptLoop_retried admitted retryable]
      exact ih fewer (Nat.lt_succ_self fewer) (attempt + 1) _

/-! ### The hops of one exchange -/

end ExchangeArgs

/-- Following `locations` one after the other leads from the first URI to the second. -/
inductive Followed : Uri → List Bytes → Uri → Prop where
  | here (uri : Uri) : Followed uri [] uri
  | redirect {current next target : Uri} {location : Bytes} {locations : List Bytes}
      (resolved : resolveReference current location = .ok next)
      (upheld : isSchemeDowngrade current next = false)
      (rest : Followed next locations target) :
      Followed current (location :: locations) target

/-- A redirect that names `location` is among the responses. -/
def Redirected (sent : List Sent) (location : Bytes) : Prop :=
  ∃ request ∈ sent, isRedirect request.response.status = true ∧
    request.response.headers.find (bytes "Location") = some location

theorem Redirected.mono {more : List Sent} {location : Bytes}
    (redirected : Redirected sent location) (subset : sent ⊆ more) : Redirected more location := by
  rcases redirected with ⟨request, requestMem, status, named⟩
  exact ⟨request, subset requestMem, status, named⟩

namespace ExchangeArgs

/-- `target` is reached from `current` over redirects that `sent` names, `hops` at most. -/
def Reaches (hops : ℕ) (sent : List Sent) (current : Uri) (locations : List Bytes)
    (target : Uri) : Prop :=
  Followed current locations target ∧ locations.length ≤ hops ∧
    ∀ location ∈ locations, Redirected sent location

/-- A response an exchange can succeed with: received, and neither refused nor abandoned. -/
def Sound (response : TransportResponse) : Prop :=
  response.error ≠ .destinationRefused ∧ response.error ≠ .headersTooLarge ∧
    (response.status = 0 → response.error = .none)

instance (response : TransportResponse) : Decidable (Sound response) :=
  inferInstanceAs (Decidable (_ ∧ _ ∧ (_ → _)))

/-- A response an exchange does not end in success with. -/
def Discarded (response : TransportResponse) : Prop :=
  Sound response → response.status ≠ 0 →
    isRetryable response = true ∨ isRedirect response.status = true

theorem discarded_of_isRetryable (retryable : isRetryable response = true) : Discarded response :=
  fun _ _ => Or.inl retryable

theorem discarded_of_isRedirect (redirect : isRedirect response.status = true) :
    Discarded response :=
  fun _ _ => Or.inr redirect

/-- A whole, partial or unsatisfiable answer is never passed over. -/
theorem not_discarded (sound : Sound response)
    (status : response.status = 200 ∨ response.status = 206 ∨ response.status = 416) :
    ¬Discarded response := by
  intro discarded
  have plain : isRetryableStatus response.status = false ∧ isRedirect response.status = false ∧
      response.status ≠ 0 := by
    rcases status with status | status | status <;> rw [status] <;> decide
  rcases discarded sound plain.2.2 with retryable | redirect
  · simp [isRetryable, sound.2.1, plain] at retryable
  · simp [plain] at redirect

/-- An exchange that succeeded: its last request was answered, and no redirect is left. -/
structure Answered (result : ExchangeResult) (left : ℕ) (sent : List Sent) : Prop where
  last : ∃ earlier request, sent = earlier ++ [request] ∧
    request.response = result.response ∧ request.uri = result.finalUri ∧
    ∀ passed ∈ earlier, Discarded passed.response
  notRedirect : isRedirect result.response.status = false
  notFailed : Sound result.response
  settled : left = 0 ∨ isRetryable result.response = false

/-- What the hops of one exchange can do. -/
structure HopRun (args : ExchangeArgs) (hops redirects : ℕ) (current : Uri) (retries : ℕ)
    (before : Wire) (result : ExchangeResult) (left : ℕ) (after : Wire) (sent : List Sent) :
    Prop where
  trace_eq : after.trace = before.trace ++ sent
  dst_eq : after.dst = deliverAll sent before.dst
  recorded : Recorded args.transport before.time sent
  made : ∀ request ∈ sent, ∃ locations, Reaches hops sent current locations request.uri ∧
    args.preflight request.uri = none ∧ args.Makes (redirects + locations.length) request
  final : ∃ locations, Reaches hops sent current locations result.finalUri
  spent : sent.length + left ≤ retries + hops + 1
  left_le : left ≤ retries
  followed : after.sink.redirects ≤ before.sink.redirects + hops
  answered : result.status.code = .ok → Answered result left sent
  discarded : result.status.code ≠ .ok → ∀ request ∈ sent, Discarded request.response
  /-- An exchange never judges the asset's identity. -/
  unjudged : result.status.code ≠ .assetChanged

theorem failedResponse_none (received : failedResponse response current = none) :
    Sound response := by
  unfold failedResponse at received
  split at received
  · cases received
  · split at received
    · cases received
    · split at received
      · cases received
      · rename_i notRefused notTooLarge answered
        exact ⟨notRefused, notTooLarge, fun zero => absurd zero answered⟩

theorem failedResponse_ok (failed : failedResponse response current = some status)
    (ok : status.code = .ok) :
    Sound response ∧ response.status = 0 := by
  unfold failedResponse at failed
  split at failed
  · cases failed
    simp [destinationRefusedStatus] at ok
  · split at failed
    · rename_i tooLarge
      cases failed
      split at ok <;> simp [tooLarge, projectTransportError] at ok
    · split at failed
      · rename_i notRefused notTooLarge unanswered
        cases failed
        refine ⟨⟨notRefused, notTooLarge, fun _ => ?_⟩, unanswered⟩
        cases error : response.error <;>
          simp_all [projectTransportError]
      · cases failed

theorem projectTransportError_unjudged (error : TransportError) (uri : Uri) :
    (projectTransportError error uri).code ≠ .assetChanged := by
  cases error <;> simp [projectTransportError, destinationRefusedStatus]

theorem failedResponse_unjudged (failed : failedResponse response current = some status) :
    status.code ≠ .assetChanged := by
  unfold failedResponse at failed
  split at failed
  · cases failed
    simp [destinationRefusedStatus]
  · split at failed
    · cases failed
      split <;> simp [projectTransportError_unjudged]
    · split at failed
      · cases failed
        exact projectTransportError_unjudged _ _
      · cases failed

theorem failedResponse_discarded (failed : failedResponse response current = some status) :
    Discarded response := by
  intro sound answered
  simp [failedResponse, sound.1, sound.2.1, answered] at failed

/-- A hop that ends the exchange, with everything a success says about the response. -/
def Finishes (hop : HopOutcome) (current : Uri) (response : TransportResponse) : Prop :=
  ∃ status, hop = .finished { response, status, finalUri := current } ∧
    (status.code = .ok → Sound response ∧ isRedirect response.status = false) ∧
    (status.code ≠ .ok → Discarded response) ∧ status.code ≠ .assetChanged

/-- A hop that is followed, with everything that was checked about the redirect. -/
def Continues (hop : HopOutcome) (hops : ℕ) (current : Uri) (response : TransportResponse) :
    Prop :=
  ∃ location target, hop = .redirected target ∧ hops ≠ 0 ∧
    isRedirect response.status = true ∧
    response.headers.find (bytes "Location") = some location ∧
    resolveReference current location = .ok target ∧
    isSchemeDowngrade current target = false

theorem refuseRedirect_finishes (current : Uri) (message : Bytes)
    (redirect : isRedirect response.status = true) :
    Finishes (refuseRedirect response current message) current response :=
  ⟨_, rfl, by simp, fun _ => discarded_of_isRedirect redirect, by simp⟩

theorem judgeHop_cases (args : ExchangeArgs) (hops : ℕ) (current : Uri)
    (response : TransportResponse) :
    Finishes (args.judgeHop hops current response) current response ∨
      Continues (args.judgeHop hops current response) hops current response := by
  unfold judgeHop
  split
  · rename_i status failed
    left
    refine ⟨status, rfl, fun ok => ?_, fun _ => failedResponse_discarded failed,
      failedResponse_unjudged failed⟩
    rcases failedResponse_ok failed ok with ⟨sound, unanswered⟩
    exact ⟨sound, by simp [unanswered, isRedirect]⟩
  · rename_i received
    split
    · rename_i notRedirect
      left
      refine ⟨.success, rfl, fun _ => ?_, by simp, by simp⟩
      exact ⟨failedResponse_none received, by simpa using notRedirect⟩
    · rename_i redirect
      have redirect : isRedirect response.status = true := by simpa using redirect
      split
      · exact Or.inl (refuseRedirect_finishes _ _ redirect)
      · rename_i location named
        split
        · exact Or.inl (refuseRedirect_finishes _ _ redirect)
        · split
          · exact Or.inl (refuseRedirect_finishes _ _ redirect)
          · rename_i hopsLeft
            split
            · exact Or.inl (refuseRedirect_finishes _ _ redirect)
            · rename_i target resolved
              split
              · exact Or.inl (refuseRedirect_finishes _ _ redirect)
              · rename_i upheld
                right
                exact ⟨location, target, rfl, hopsLeft, redirect, named, resolved,
                  by simpa using upheld⟩

/-- Before a redirect is followed, every request is made where the exchange begins. -/
theorem AttemptRun.reached {outcome : Except Status TransportResponse} (hops : ℕ)
    (run : AttemptRun args redirects current retries before outcome left after sent)
    (permitted : sent ≠ [] → args.preflight current = none) (all : List Sent) :
    ∀ request ∈ sent, ∃ locations, Reaches hops all current locations request.uri ∧
      args.preflight request.uri = none ∧ args.Makes (redirects + locations.length) request := by
  intro request requestMem
  rcases run.made request requestMem with ⟨uriEq, made⟩
  refine ⟨[], ⟨by rw [uriEq]; exact .here current, by simp, by simp⟩, ?_, made⟩
  rw [uriEq]
  exact permitted (List.ne_nil_of_mem requestMem)

theorem hopRun_refused (permitted : sent ≠ [] → args.preflight current = none)
    (run : AttemptRun args redirects current retries before (.error status) left after sent) :
    HopRun args hops redirects current retries before { status, finalUri := current } left after
      sent where
  trace_eq := run.trace_eq
  dst_eq := run.dst_eq
  recorded := run.recorded
  made := run.reached hops permitted sent
  final := ⟨[], .here current, by simp, by simp⟩
  spent := by
    have := run.spent_refused
    omega
  left_le := by
    have := run.spent_refused
    omega
  followed := by
    rw [run.redirects_eq]
    omega
  answered := fun ok => absurd ok (run.refused status rfl).1.code_ne_ok
  discarded := fun _ request requestMem =>
    discarded_of_isRetryable ((run.refused status rfl).2 request requestMem)
  unjudged := (run.refused status rfl).1.code_ne_assetChanged

theorem hopRun_finished (permitted : args.preflight current = none)
    (run : AttemptRun args redirects current retries before (.ok response) left after sent)
    (sound : status.code = .ok → Sound response ∧ isRedirect response.status = false)
    (discarded : status.code ≠ .ok → Discarded response) (unjudged : status.code ≠ .assetChanged) :
    HopRun args hops redirects current retries before { response, status, finalUri := current }
      left after sent where
  trace_eq := run.trace_eq
  dst_eq := run.dst_eq
  recorded := run.recorded
  made := run.reached hops (fun _ => permitted) sent
  final := ⟨[], .here current, by simp, by simp⟩
  spent := by
    have := run.spent_answered
    omega
  left_le := by
    have := run.spent_answered
    omega
  followed := by
    rw [run.redirects_eq]
    omega
  answered := by
    intro ok
    rcases run.answered response rfl with ⟨earlier, last, sentEq, lastEq, retried, settled⟩
    have lastUri : last.uri = current := (run.made last (by simp [sentEq])).1
    exact
      { last := ⟨earlier, last, sentEq, lastEq, lastUri,
          fun passed mem => discarded_of_isRetryable (retried passed mem)⟩
        notRedirect := (sound ok).2
        notFailed := (sound ok).1
        settled }
  discarded := by
    intro failure request requestMem
    rcases run.answered response rfl with ⟨earlier, last, rfl, lastEq, retried, _⟩
    rcases List.mem_append.mp requestMem with requestMem | requestMem
    · exact discarded_of_isRetryable (retried request requestMem)
    · rw [List.mem_singleton.mp requestMem, lastEq]
      exact discarded failure
  unjudged := unjudged

theorem hopRun_redirected {between : ℕ} {target : Uri} {middle : Wire} {location : Bytes}
    {result : ExchangeResult} {later : List Sent} (permitted : args.preflight current = none)
    (run : AttemptRun args redirects current retries before (.ok response) between middle sent)
    (redirect : isRedirect response.status = true)
    (named : response.headers.find (bytes "Location") = some location)
    (resolved : resolveReference current location = .ok target)
    (upheld : isSchemeDowngrade current target = false)
    (rest : HopRun args hops (redirects + 1) target between middle.countRedirect result left after
      later) :
    HopRun args (hops + 1) redirects current retries before result left after (sent ++ later) := by
  rcases run.answered response rfl with ⟨earlier, last, sentEq, lastEq, retried, _⟩
  have lastMem : last ∈ sent := by simp [sentEq]
  have sentDiscarded : ∀ request ∈ sent, Discarded request.response := by
    intro request requestMem
    rw [sentEq] at requestMem
    rcases List.mem_append.mp requestMem with requestMem | requestMem
    · exact discarded_of_isRetryable (retried request requestMem)
    · rw [List.mem_singleton.mp requestMem, lastEq]
      exact discarded_of_isRedirect redirect
  have reaches : ∀ {locations : List Bytes} {uri : Uri},
      Reaches hops later target locations uri →
        Reaches (hops + 1) (sent ++ later) current (location :: locations) uri := by
    rintro locations uri ⟨followed, short, redirected⟩
    refine ⟨.redirect resolved upheld followed, by simpa using short, ?_⟩
    intro other otherMem
    rcases List.mem_cons.mp otherMem with rfl | otherMem
    · exact ⟨last, by simp [lastMem], by rw [lastEq]; exact redirect, by rw [lastEq]; exact named⟩
    · exact (redirected other otherMem).mono (by simp)
  have spent := run.spent_answered
  exact
    { trace_eq := by rw [rest.trace_eq, Wire.trace_countRedirect, run.trace_eq, List.append_assoc]
      dst_eq := by rw [rest.dst_eq, Wire.dst_countRedirect, run.dst_eq, deliverAll_append]
      recorded := by
        apply run.recorded.append
        simpa [Wire.time, run.trace_eq] using rest.recorded
      made := by
        intro request requestMem
        rcases List.mem_append.mp requestMem with requestMem | requestMem
        · exact run.reached (hops + 1) (fun _ => permitted) _ request requestMem
        · rcases rest.made request requestMem with ⟨locations, reached, allowed, made⟩
          refine ⟨location :: locations, reaches reached, allowed, ?_⟩
          rwa [List.length_cons, Nat.add_comm locations.length, ← Nat.add_assoc]
      final := by
        rcases rest.final with ⟨locations, reached⟩
        exact ⟨location :: locations, reaches reached⟩
      spent := by
        have := rest.spent
        rw [List.length_append]
        omega
      left_le := by
        have := rest.left_le
        omega
      followed := by
        have bound := rest.followed
        have same := run.redirects_eq
        simp only [Wire.countRedirect] at bound
        omega
      answered := by
        intro ok
        have answered := rest.answered ok
        rcases answered.last with ⟨before, request, rfl, responseEq, uriEq, passed⟩
        refine ⟨⟨sent ++ before, request, by simp, responseEq, uriEq, ?_⟩, answered.notRedirect,
          answered.notFailed, answered.settled⟩
        intro other otherMem
        rcases List.mem_append.mp otherMem with otherMem | otherMem
        · exact sentDiscarded other otherMem
        · exact passed other otherMem
      discarded := by
        intro failure other otherMem
        rcases List.mem_append.mp otherMem with otherMem | otherMem
        · exact sentDiscarded other otherMem
        · exact rest.discarded failure other otherMem
      unjudged := rest.unjudged }

theorem preflight_code (refused : args.preflight current = some status) :
    status.code = .accessDenied := by
  unfold preflight at refused
  split at refused
  · cases refused
  · split at refused
    · cases refused
    · cases refused
      rfl

theorem hopLoop_forbidden (refused : args.preflight current = some status) :
    args.hopLoop hops redirects current retries wire =
      ({ status, finalUri := current }, retries, wire) := by
  rw [hopLoop, refused]

theorem hopLoop_refused (permitted : args.preflight current = none)
    (attempts : args.attemptLoop redirects current retries 1 wire = (.error status, left, after)) :
    args.hopLoop hops redirects current retries wire =
      ({ status, finalUri := current }, left, after) := by
  rw [hopLoop, permitted]
  simp only [attempts]

theorem hopLoop_finished {result : ExchangeResult} (permitted : args.preflight current = none)
    (attempts : args.attemptLoop redirects current retries 1 wire = (.ok response, left, after))
    (judged : args.judgeHop hops current response = .finished result) :
    args.hopLoop hops redirects current retries wire = (result, left, after) := by
  rw [hopLoop, permitted]
  simp only [attempts, judged]

theorem hopLoop_redirected {target : Uri} (permitted : args.preflight current = none)
    (attempts : args.attemptLoop redirects current retries 1 wire = (.ok response, left, after))
    (judged : args.judgeHop (hops + 1) current response = .redirected target) :
    args.hopLoop (hops + 1) redirects current retries wire =
      args.hopLoop hops (redirects + 1) target left after.countRedirect := by
  rw [hopLoop, permitted]
  simp only [attempts, judged]

theorem judgeHop_finishes (args : ExchangeArgs) (hops : ℕ) (current : Uri)
    (notRedirect : isRedirect response.status = false) :
    Finishes (args.judgeHop hops current response) current response := by
  rcases args.judgeHop_cases hops current response with finishes | ⟨_, _, _, _, redirect, _⟩
  · exact finishes
  · rw [notRedirect] at redirect
    cases redirect

theorem hopLoop_run (args : ExchangeArgs) (hops redirects : ℕ) (current : Uri) (retries : ℕ)
    (wire : Wire) :
    ∃ sent, HopRun args hops redirects current retries wire
      (args.hopLoop hops redirects current retries wire).1
      (args.hopLoop hops redirects current retries wire).2.1
      (args.hopLoop hops redirects current retries wire).2.2 sent := by
  induction hops using Nat.strongRecOn generalizing redirects current retries wire with
  | _ hops ih =>
    cases preflight : args.preflight current with
    | some refused =>
      rw [hopLoop_forbidden preflight]
      exact ⟨[], hopRun_refused (by simp)
        (attemptRun_refused (Or.inl (preflight_code preflight)))⟩
    | none =>
      rcases args.attemptLoop_run redirects current retries 1 wire with ⟨sent, run⟩
      rcases attempts : args.attemptLoop redirects current retries 1 wire with
        ⟨_ | response, left, after⟩ <;> simp only [attempts] at run
      · rw [hopLoop_refused preflight attempts]
        exact ⟨sent, hopRun_refused (fun _ => preflight) run⟩
      · rcases args.judgeHop_cases hops current response with
          ⟨status, judged, sound, discarded, unjudged⟩ |
            ⟨location, target, judged, hopsLeft, redirect, named, resolved, upheld⟩
        · rw [hopLoop_finished preflight attempts judged]
          exact ⟨sent, hopRun_finished preflight run sound discarded unjudged⟩
        · obtain ⟨hops, rfl⟩ := Nat.exists_eq_succ_of_ne_zero hopsLeft
          rw [hopLoop_redirected preflight attempts judged]
          rcases ih hops (Nat.lt_succ_self hops) (redirects + 1) target left
            after.countRedirect with ⟨later, rest⟩
          exact ⟨sent ++ later,
            hopRun_redirected preflight run redirect named resolved upheld rest⟩

theorem performExchange_run (args : ExchangeArgs) (start : Uri) (retries : ℕ) (wire : Wire) :
    ∃ sent, HopRun args args.options.maxRedirects.toNat 0 start retries wire
      (args.performExchange start retries wire).1
      (args.performExchange start retries wire).2.1
      (args.performExchange start retries wire).2.2 sent :=
  args.hopLoop_run _ 0 start retries wire

end ExchangeArgs

end UsdAsset.Http
