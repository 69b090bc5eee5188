import UsdAsset.Http.Lifetime

/-!
# Credentials stay with their origin

Two kinds of secret travel with a request: the headers an interceptor adds and
the userinfo of its URL.  The first part follows the userinfo along a chain of
redirects.  The second part compares two worlds that differ in the opened URL's
userinfo and in the interceptor, over a transport that answers the same in both:
as long as neither world is refused, request for request they agree, and at
another origin than the opened one the requests are equal.
-/

namespace UsdAsset.Http

open ByteString

variable {middle leftWire rightWire leftAfter rightAfter wire : Wire} {target opened current : Uri}
  {args : ExchangeArgs} {redirects leftRetries rightRetries retries between offset length done : ℕ}
  {left right leftMore rightMore : List Sent} {leftLater rightLater : Prop}

/-! ### Where userinfo comes from -/

def SameAuthority (start target : Uri) : Prop :=
  target.scheme = start.scheme ∧ target.host = start.host ∧ target.port = start.port ∧
    target.userinfo = start.userinfo

theorem SameAuthority.refl (uri : Uri) : SameAuthority uri uri := ⟨rfl, rfl, rfl, rfl⟩

theorem SameAuthority.trans {start middle : Uri} (first : SameAuthority start middle)
    (second : SameAuthority middle target) : SameAuthority start target :=
  ⟨second.1.trans first.1, second.2.1.trans first.2.1, second.2.2.1.trans first.2.2.1,
    second.2.2.2.trans first.2.2.2⟩

theorem sameAuthority_resolveRelative (base : Uri) (reference : Bytes) :
    SameAuthority base (resolveRelative base reference) :=
  ⟨scheme_resolveRelative base reference, resolveRelative_authority base reference⟩

/-- The chain names no authority, so the target keeps the opened one. -/
def Inherited (opened : Uri) (locations : List Bytes) (target : Uri) : Prop :=
  (∀ location ∈ locations, namedAuthority location = none) ∧ SameAuthority opened target

/-- The last authority the chain names is the target's, userinfo included. -/
def Named (locations : List Bytes) (target : Uri) : Prop :=
  ∃ before location after authority base named,
    locations = before ++ location :: after ∧
      namedAuthority location = some authority ∧
      (∀ later ∈ after, namedAuthority later = none) ∧
      resolveReference base location = .ok named ∧ SameAuthority named target ∧
      target.userinfo = authorityUserinfo authority

theorem Named.cons {locations : List Bytes} {target : Uri} (named : Named locations target)
    (first : Bytes) : Named (first :: locations) target := by
  rcases named with ⟨before, location, after, authority, base, uri, rfl, rest⟩
  exact ⟨first :: before, location, after, authority, base, uri, rfl, rest⟩

/-- Along a chain of redirects userinfo is inherited with the authority or written with it. -/
theorem Followed.userinfo {locations : List Bytes} (followed : Followed opened locations target)
    (allowed : AllowedScheme opened) :
    Inherited opened locations target ∨ Named locations target := by
  induction followed with
  | here uri => exact Or.inl ⟨by simp, .refl uri⟩
  | @redirect current next target location locations resolved upheld rest ih =>
    rcases ih (resolveReference_scheme allowed resolved) with ⟨unnamed, same⟩ | named
    · rcases resolveReference_ok allowed resolved with
        ⟨authority, _, naming, _, written⟩ | ⟨relative, rfl⟩
      · right
        exact ⟨[], location, locations, authority, current, next, rfl, naming, unnamed, resolved,
          same, same.2.2.2.trans written⟩
      · left
        exact ⟨List.forall_mem_cons.mpr ⟨relative, unnamed⟩,
          (sameAuthority_resolveRelative _ _).trans same⟩
    · exact Or.inr (named.cons location)

theorem ExchangeArgs.headersFor_foreign {time attempt : ℕ} {headers : List RequestHeader}
    (foreign : sameOrigin current args.origin = false)
    (admitted : args.headersFor time current redirects attempt = .ok headers) : headers = [] := by
  unfold headersFor at admitted
  split at admitted
  · cases admitted
    rfl
  · simp only [foreign] at admitted
    cases admitted
    rfl

theorem ExchangeArgs.Makes.sameOrigin {sent : Sent} (made : args.Makes redirects sent)
    (headed : sent.request.headers ≠ []) :
    sameOrigin sent.uri args.origin = true := by
  rcases made with ⟨time, attempt, headers, admitted, sentEq⟩
  by_contra foreign
  have unheaded := headersFor_foreign (by simpa using foreign) admitted
  apply headed
  rw [sentEq, unheaded]
  rfl

/-! ### Two worlds -/

/-- A transport that looks at neither the URL nor the added headers of a request. -/
def Transport.Blind (transport : Transport) : Prop :=
  ∀ (time : ℕ) (request : TransportRequest) (url : Bytes) (headers : List RequestHeader),
    transport.perform time { request with url, headers } = transport.perform time request

/-- One URI in both worlds: equal, or at the opened authority with the other userinfo. -/
def Twin (opened : Uri) (userinfo : Bytes) (left right : Uri) : Prop :=
  left = right ∨ right = { left with userinfo } ∧ SameAuthority opened left

section Twins

variable {left right : Uri} {userinfo : Bytes}

section

variable (twin : Twin opened userinfo left right)

include twin

theorem Twin.scheme_eq : right.scheme = left.scheme := by
  rcases twin with rfl | ⟨rfl, _⟩ <;> rfl

theorem Twin.host_eq : right.host = left.host := by
  rcases twin with rfl | ⟨rfl, _⟩ <;> rfl

theorem Twin.toIdentity_eq : right.toIdentity = left.toIdentity := by
  rcases twin with rfl | ⟨rfl, _⟩ <;> rfl

theorem Twin.sameOrigin_eq : sameOrigin right { opened with userinfo } = sameOrigin left opened := by
  rcases twin with rfl | ⟨rfl, _⟩ <;> rfl

/-- Away from the opened origin the two worlds agree on the URI. -/
theorem Twin.eq_of_foreign (foreign : sameOrigin left opened = false) : left = right := by
  rcases twin with rfl | ⟨_, scheme, host, port, _⟩
  · rfl
  · simp [sameOrigin, Uri.effectivePort, Uri.defaultPort, Uri.isSecure, scheme, host, port]
      at foreign

end

theorem resolveRelative_userinfo (base : Uri) (userinfo reference : Bytes) :
    resolveRelative { base with userinfo } reference =
      { resolveRelative base reference with userinfo } := by
  unfold resolveRelative
  split
  · rfl
  · cases splitFirst '?' reference <;> rfl

theorem Twin.of_same {Error : Type} (outcome : Except Error Uri) :
    (∃ error, outcome = .error error ∧ outcome = .error error) ∨
      ∃ left right, outcome = .ok left ∧ outcome = .ok right ∧ Twin opened userinfo left right := by
  cases outcome with
  | error error => exact Or.inl ⟨error, rfl, rfl⟩
  | ok target => exact Or.inr ⟨target, target, rfl, rfl, Or.inl rfl⟩

theorem Twin.resolveReference (twin : Twin opened userinfo left right) (location : Bytes) :
    (∃ error, resolveReference left location = .error error ∧
        resolveReference right location = .error error) ∨
      ∃ leftTarget rightTarget, resolveReference left location = .ok leftTarget ∧
        resolveReference right location = .ok rightTarget ∧
        Twin opened userinfo leftTarget rightTarget := by
  rcases twin with rfl | ⟨rfl, same⟩
  · exact Twin.of_same _
  · simp only [UsdAsset.Http.resolveReference]
    split
    · exact Or.inl ⟨_, rfl, rfl⟩
    · split
      · exact Twin.of_same _
      · split
        · exact Twin.of_same _
        · exact Or.inr ⟨_, _, rfl, rfl, Or.inr ⟨resolveRelative_userinfo left userinfo _,
            same.trans (sameAuthority_resolveRelative left _)⟩⟩

end Twins

/-- What an observer at another origin can tell apart about one request: nothing. -/
structure Indistinct (opened : Uri) (left right : Sent) : Prop where
  response_eq : right.response = left.response
  request_eq : sameOrigin left.uri opened = false → right.request = left.request

/-- Request for request, as far as both worlds get. -/
def Alike (opened : Uri) (left right : List Sent) : Prop :=
  ∀ (index : ℕ) leftSent rightSent, left[index]? = some leftSent → right[index]? = some rightSent →
    Indistinct opened leftSent rightSent

namespace Alike

theorem nil_left (right : List Sent) : Alike opened [] right := by
  intro index leftSent rightSent impossible
  simp at impossible

theorem nil_right (left : List Sent) : Alike opened left [] := by
  intro index leftSent rightSent _ impossible
  simp at impossible

theorem cons {leftFirst rightFirst : Sent} {left right : List Sent}
    (first : Indistinct opened leftFirst rightFirst) (rest : Alike opened left right) :
    Alike opened (leftFirst :: left) (rightFirst :: right) := by
  intro index leftSent rightSent leftAt rightAt
  cases index with
  | zero =>
    simp only [List.getElem?_cons_zero, Option.some.injEq] at leftAt rightAt
    subst leftAt rightAt
    exact first
  | succ index =>
    simp only [List.getElem?_cons_succ] at leftAt rightAt
    exact rest index leftSent rightSent leftAt rightAt

theorem append (alike : Alike opened left right) (inStep : left.length = right.length)
    (more : Alike opened leftMore rightMore) :
    Alike opened (left ++ leftMore) (right ++ rightMore) := by
  intro index leftSent rightSent leftAt rightAt
  rw [List.getElem?_append] at leftAt rightAt
  rw [inStep] at leftAt
  split at leftAt
  · rename_i within
    rw [if_pos within] at rightAt
    exact alike index leftSent rightSent leftAt rightAt
  · rename_i beyond
    rw [if_neg beyond] at rightAt
    exact more _ leftSent rightSent leftAt rightAt

theorem append_right (alike : Alike opened left right) (stopped : left.length ≤ right.length)
    (more : List Sent) :
    Alike opened left (right ++ more) := by
  intro index leftSent rightSent leftAt rightAt
  have within : index < right.length := by
    have := (List.getElem?_eq_some_iff.mp leftAt).1
    omega
  rw [List.getElem?_append_left within] at rightAt
  exact alike index leftSent rightSent leftAt rightAt

theorem append_left (alike : Alike opened left right) (stopped : right.length ≤ left.length)
    (more : List Sent) :
    Alike opened (left ++ more) right := by
  intro index leftSent rightSent leftAt rightAt
  have within : index < left.length := by
    have := (List.getElem?_eq_some_iff.mp rightAt).1
    omega
  rw [List.getElem?_append_left within] at leftAt
  exact alike index leftSent rightSent leftAt rightAt

end Alike

/--
Two runs side by side.  A run that goes on has made at least as many requests as
the other one, so a run that was refused is never compared with what comes later.
-/
structure Parallel (opened : Uri) (leftGoesOn rightGoesOn : Prop) (left right : List Sent) :
    Prop where
  alike : Alike opened left right
  left_le : rightGoesOn → left.length ≤ right.length
  right_le : leftGoesOn → right.length ≤ left.length

namespace Parallel

variable {leftGoesOn rightGoesOn : Prop}

theorem left_stopped (stopped : ¬leftGoesOn) (right : List Sent) :
    Parallel opened leftGoesOn rightGoesOn [] right where
  alike := .nil_left right
  left_le := by simp
  right_le := fun goesOn => absurd goesOn stopped

theorem right_stopped (stopped : ¬rightGoesOn) (left : List Sent) :
    Parallel opened leftGoesOn rightGoesOn left [] where
  alike := .nil_right left
  left_le := fun goesOn => absurd goesOn stopped
  right_le := by simp

theorem cons {leftFirst rightFirst : Sent} {left right : List Sent}
    (first : Indistinct opened leftFirst rightFirst)
    (rest : Parallel opened leftGoesOn rightGoesOn left right) :
    Parallel opened leftGoesOn rightGoesOn (leftFirst :: left) (rightFirst :: right) where
  alike := .cons first rest.alike
  left_le := fun goesOn => Nat.succ_le_succ (rest.left_le goesOn)
  right_le := fun goesOn => Nat.succ_le_succ (rest.right_le goesOn)

theorem append (first : Parallel opened leftGoesOn rightGoesOn left right) (leftOn : leftGoesOn)
    (rightOn : rightGoesOn) (more : Parallel opened leftLater rightLater leftMore rightMore) :
    Parallel opened leftLater rightLater (left ++ leftMore) (right ++ rightMore) := by
  have inStep := Nat.le_antisymm (first.left_le rightOn) (first.right_le leftOn)
  refine ⟨first.alike.append inStep more.alike, ?_, ?_⟩
  · intro goesOn
    have := more.left_le goesOn
    simp only [List.length_append]
    omega
  · intro goesOn
    have := more.right_le goesOn
    simp only [List.length_append]
    omega

theorem settle (first : Parallel opened leftGoesOn rightGoesOn left right) (leftOn : leftGoesOn)
    (rightOn : rightGoesOn) : Parallel opened leftLater rightLater left right :=
  ⟨first.alike, fun _ => first.left_le rightOn, fun _ => first.right_le leftOn⟩

theorem left_ended (first : Parallel opened leftGoesOn rightGoesOn left right)
    (stopped : ¬leftLater) (ended : ¬rightGoesOn → rightMore = [] ∧ ¬rightLater) :
    Parallel opened leftLater rightLater left (right ++ rightMore) := by
  by_cases goesOn : rightGoesOn
  · have notOvertaken := first.left_le goesOn
    refine ⟨first.alike.append_right notOvertaken rightMore, fun _ => ?_,
      fun later => absurd later stopped⟩
    simp only [List.length_append]
    omega
  · rcases ended goesOn with ⟨rfl, noLater⟩
    exact ⟨by simpa using first.alike, fun later => absurd later noLater,
      fun later => absurd later stopped⟩

theorem right_ended (first : Parallel opened leftGoesOn rightGoesOn left right)
    (stopped : ¬rightLater) (ended : ¬leftGoesOn → leftMore = [] ∧ ¬leftLater) :
    Parallel opened leftLater rightLater (left ++ leftMore) right := by
  by_cases goesOn : leftGoesOn
  · have notOvertaken := first.right_le goesOn
    refine ⟨first.alike.append_left notOvertaken leftMore, fun later => absurd later stopped,
      fun _ => ?_⟩
    simp only [List.length_append]
    omega
  · rcases ended goesOn with ⟨rfl, noLater⟩
    exact ⟨by simpa using first.alike, fun later => absurd later stopped,
      fun later => absurd later noLater⟩

end Parallel

namespace ExchangeArgs

def inWorld (args : ExchangeArgs) (interceptor : Option RequestInterceptor) (userinfo : Bytes) :
    ExchangeArgs :=
  { args with
    options := { args.options with interceptor }
    origin := { args.origin with userinfo } }

section Worlds

variable {interceptor : Option RequestInterceptor} {userinfo : Bytes} {left right : Uri}

theorem indistinct_send (blind : args.transport.Blind)
    (twin : Twin args.origin userinfo left right) {time attempt : ℕ}
    {headers otherHeaders : List RequestHeader}
    (admitted : args.headersFor time left redirects attempt = .ok headers)
    (otherAdmitted : (args.inWorld interceptor userinfo).headersFor time right redirects attempt =
      .ok otherHeaders) :
    Indistinct args.origin (args.send time left headers)
      ((args.inWorld interceptor userinfo).send time right otherHeaders) where
  response_eq := blind time (args.requestFor left headers) right.toText otherHeaders
  request_eq := by
    intro foreign
    have otherForeign : sameOrigin right (args.inWorld interceptor userinfo).origin = false :=
      twin.sameOrigin_eq.trans foreign
    obtain rfl := headersFor_foreign foreign admitted
    obtain rfl := headersFor_foreign otherForeign otherAdmitted
    obtain rfl := twin.eq_of_foreign foreign
    rfl

theorem attemptLoop_parallel (blind : args.transport.Blind)
    (twin : Twin args.origin userinfo left right) (redirects retries attempt : ℕ)
    (inStep : leftWire.time = rightWire.time)
    {leftOutcome rightOutcome : Except Status TransportResponse}
    (leftRun : args.attemptLoop redirects left retries attempt leftWire =
      (leftOutcome, leftRetries, leftAfter))
    (rightRun : (args.inWorld interceptor userinfo).attemptLoop redirects right retries attempt
      rightWire = (rightOutcome, rightRetries, rightAfter)) :
    ∃ leftSent rightSent, leftAfter.trace = leftWire.trace ++ leftSent ∧
      rightAfter.trace = rightWire.trace ++ rightSent ∧
      Parallel args.origin (leftOutcome.isOk = true) (rightOutcome.isOk = true) leftSent
        rightSent ∧
      (∀ response, leftOutcome = .ok response → rightOutcome.isOk = true →
        rightOutcome = .ok response ∧ rightRetries = leftRetries) := by
  induction retries using Nat.strongRecOn generalizing attempt leftWire rightWire with
  | _ retries ih =>
    rcases args.attemptLoop_run redirects left retries attempt leftWire with ⟨leftAll, leftTrace⟩
    rcases (args.inWorld interceptor userinfo).attemptLoop_run redirects right retries attempt
      rightWire with ⟨rightAll, rightTrace⟩
    rw [leftRun] at leftTrace
    rw [rightRun] at rightTrace
    cases admitted : args.headersFor leftWire.time left redirects attempt with
    | error status =>
      rw [attemptLoop_refused admitted] at leftRun
      cases leftRun
      exact ⟨[], rightAll, by simp, rightTrace.trace_eq,
        .left_stopped Bool.false_ne_true rightAll, by simp⟩
    | ok headers =>
      cases otherAdmitted : (args.inWorld interceptor userinfo).headersFor rightWire.time right
        redirects attempt with
      | error status =>
        rw [attemptLoop_refused otherAdmitted] at rightRun
        cases rightRun
        exact ⟨leftAll, [], leftTrace.trace_eq, by simp,
          .right_stopped Bool.false_ne_true leftAll, by simp [Except.isOk, Except.toBool]⟩
      | ok otherHeaders =>
        have first := indistinct_send blind twin admitted (inStep ▸ otherAdmitted)
        rw [inStep] at first
        have sameRetry : isRetryable ((args.inWorld interceptor userinfo).send rightWire.time
            right otherHeaders).response =
            isRetryable (args.send rightWire.time left headers).response := by
          rw [first.response_eq]
        by_cases final : retries = 0 ∨
            isRetryable (args.send rightWire.time left headers).response = false
        · rw [attemptLoop_answered admitted (by rwa [inStep])] at leftRun
          rw [attemptLoop_answered otherAdmitted (by rwa [sameRetry])] at rightRun
          cases leftRun
          cases rightRun
          rw [inStep]
          refine ⟨[_], [_], rfl, rfl, .cons first ⟨.nil_left [], by simp, by simp⟩, ?_⟩
          intro response responseEq _
          exact ⟨by rw [first.response_eq, responseEq], rfl⟩
        · rcases retried_of_not_final final with ⟨retries, rfl, retryable⟩
          rw [attemptLoop_retried admitted (by rwa [inStep])] at leftRun
          rw [attemptLoop_retried otherAdmitted (by rwa [sameRetry])] at rightRun
          rcases ih retries (Nat.lt_succ_self retries) (attempt + 1)
            (by simpa [Wire.time] using inStep) leftRun rightRun with
            ⟨leftSent, rightSent, leftEq, rightEq, rest, same⟩
          rw [inStep] at leftEq
          refine ⟨_ :: leftSent, _ :: rightSent, by simpa using leftEq, by simpa using rightEq,
            .cons first rest, same⟩

theorem preflight_inWorld (twin : Twin args.origin userinfo left right) :
    (args.inWorld interceptor userinfo).preflight right = none ↔ args.preflight left = none := by
  simp only [preflight, inWorld, twin.host_eq]
  cases classifyHostLiteral left.host with
  | none => simp
  | some literal => by_cases permitted : args.options.destinations.permits literal <;>
      simp [permitted]

theorem failedResponse_none_iff (response : TransportResponse) (left right : Uri) :
    failedResponse response right = none ↔ failedResponse response left = none := by
  unfold failedResponse
  repeat' split
  all_goals simp

theorem judgeHop_inWorld (twin : Twin args.origin userinfo left right) (hops : ℕ)
    (response : TransportResponse) :
    (∃ leftStatus rightStatus,
      args.judgeHop hops left response =
        .finished { response, status := leftStatus, finalUri := left } ∧
      (args.inWorld interceptor userinfo).judgeHop hops right response =
        .finished { response, status := rightStatus, finalUri := right }) ∨
    ∃ leftTarget rightTarget, args.judgeHop hops left response = .redirected leftTarget ∧
      (args.inWorld interceptor userinfo).judgeHop hops right response =
        .redirected rightTarget ∧ Twin args.origin userinfo leftTarget rightTarget := by
  have failedAlike := failedResponse_none_iff response left right
  unfold judgeHop
  cases failed : failedResponse response left with
  | some status =>
    cases otherFailed : failedResponse response right with
    | none => simp [failed, otherFailed] at failedAlike
    | some otherStatus => exact Or.inl ⟨_, _, rfl, rfl⟩
  | none =>
    rw [failedAlike.mpr failed]
    dsimp only
    split
    · exact Or.inl ⟨_, _, rfl, rfl⟩
    · split
      · exact Or.inl ⟨_, _, rfl, rfl⟩
      · rename_i location _
        split
        · exact Or.inl ⟨_, _, rfl, rfl⟩
        · split
          · exact Or.inl ⟨_, _, rfl, rfl⟩
          · rcases twin.resolveReference location with
              ⟨error, leftError, rightError⟩ | ⟨leftTarget, rightTarget, leftOk, rightOk, target⟩
            · rw [leftError, rightError]
              exact Or.inl ⟨_, _, rfl, rfl⟩
            · rw [leftOk, rightOk]
              have sameDowngrade : isSchemeDowngrade right rightTarget =
                  isSchemeDowngrade left leftTarget := by
                simp [isSchemeDowngrade, Uri.isSecure, twin.scheme_eq, target.scheme_eq]
              simp only [sameDowngrade]
              split
              · exact Or.inl ⟨_, _, rfl, rfl⟩
              · exact Or.inr ⟨_, _, rfl, rfl, target⟩

theorem hops_ne_zero_of_redirected {hops : ℕ} {response : TransportResponse}
    (judged : args.judgeHop hops current response = .redirected target) : hops ≠ 0 := by
  rcases args.judgeHop_cases hops current response with ⟨status, finished, _⟩ | ⟨_, _, _, left, _⟩
  · rw [judged] at finished
    cases finished
  · exact left

/-- What an exchange adds to the trace after its first hop: nothing where that was refused. -/
theorem hopLoop_rest {hops left : ℕ} {after : Wire} {outcome : Except Status TransportResponse}
    {result : ExchangeResult} (permitted : args.preflight current = none)
    (attempts : args.attemptLoop redirects current retries 1 wire = (outcome, between, middle))
    (run : args.hopLoop hops redirects current retries wire = (result, left, after)) :
    ∃ more, after.trace = middle.trace ++ more ∧
      (¬outcome.isOk = true → more = [] ∧ ¬result.status.code = .ok) := by
  cases outcome with
  | error status =>
    rcases args.attemptLoop_run redirects current retries 1 wire with ⟨sent, attemptRun⟩
    rw [attempts] at attemptRun
    rw [hopLoop_refused permitted attempts] at run
    cases run
    exact ⟨[], by simp, fun _ => ⟨rfl, (attemptRun.refused status rfl).1.code_ne_ok⟩⟩
  | ok response =>
    rcases args.judgeHop_cases hops current response with
      ⟨status, judged, _⟩ | ⟨location, target, judged, hopsLeft, _⟩
    · rw [hopLoop_finished permitted attempts judged] at run
      cases run
      exact ⟨[], by simp, fun refused => absurd rfl refused⟩
    · obtain ⟨hops, rfl⟩ := Nat.exists_eq_succ_of_ne_zero hopsLeft
      rcases args.hopLoop_run hops (redirects + 1) target between middle.countRedirect with
        ⟨more, rest⟩
      rw [← hopLoop_redirected permitted attempts judged, run] at rest
      exact ⟨more, rest.trace_eq, fun refused => absurd rfl refused⟩

theorem hopLoop_parallel (blind : args.transport.Blind)
    (twin : Twin args.origin userinfo left right) (hops redirects retries : ℕ)
    (inStep : leftWire.time = rightWire.time) {leftResult rightResult : ExchangeResult}
    (leftRun : args.hopLoop hops redirects left retries leftWire =
      (leftResult, leftRetries, leftAfter))
    (rightRun : (args.inWorld interceptor userinfo).hopLoop hops redirects right retries rightWire =
      (rightResult, rightRetries, rightAfter)) :
    ∃ leftSent rightSent, leftAfter.trace = leftWire.trace ++ leftSent ∧
      rightAfter.trace = rightWire.trace ++ rightSent ∧
      Parallel args.origin (leftResult.status.code = .ok) (rightResult.status.code = .ok) leftSent
        rightSent ∧
      (leftResult.status.code = .ok → rightResult.status.code = .ok →
        rightResult.response = leftResult.response ∧
        Twin args.origin userinfo leftResult.finalUri rightResult.finalUri ∧
        rightRetries = leftRetries) := by
  induction hops using Nat.strongRecOn generalizing left right redirects retries leftWire rightWire
    with
  | _ hops ih =>
    cases forbidden : args.preflight left with
    | some status =>
      rcases Option.ne_none_iff_exists'.mp
        (mt (preflight_inWorld twin).mp (by simp [forbidden])) with ⟨otherStatus, otherForbidden⟩
      rw [hopLoop_forbidden forbidden] at leftRun
      rw [hopLoop_forbidden otherForbidden] at rightRun
      cases leftRun
      cases rightRun
      have code := preflight_code forbidden
      exact ⟨[], [], by simp, by simp, ⟨.nil_left [], by simp, by simp⟩, by simp [code]⟩
    | none =>
      have otherPermitted : (args.inWorld interceptor userinfo).preflight right = none :=
        (preflight_inWorld twin).mpr forbidden
      rcases leftAttempts : args.attemptLoop redirects left retries 1 leftWire with
        ⟨leftOutcome, leftBetween, leftMiddle⟩
      rcases rightAttempts : (args.inWorld interceptor userinfo).attemptLoop redirects right
        retries 1 rightWire with ⟨rightOutcome, rightBetween, rightMiddle⟩
      rcases attemptLoop_parallel blind twin redirects retries 1 inStep leftAttempts
        rightAttempts with ⟨leftSent, rightSent, leftEq, rightEq, first, same⟩
      rcases hopLoop_rest forbidden leftAttempts leftRun with ⟨leftMore, leftTrace, leftEnds⟩
      rcases hopLoop_rest otherPermitted rightAttempts rightRun with
        ⟨rightMore, rightTrace, rightEnds⟩
      by_cases leftRefused : leftOutcome.isOk = true
      · by_cases rightRefused : rightOutcome.isOk = true
        · obtain ⟨response, rfl⟩ : ∃ response, leftOutcome = .ok response := by
            cases leftOutcome with
            | error status => cases leftRefused
            | ok response => exact ⟨response, rfl⟩
          rcases same response rfl rightRefused with ⟨rfl, rfl⟩
          have sentAlike : leftSent.length = rightSent.length :=
            Nat.le_antisymm (first.left_le rfl) (first.right_le rfl)
          rcases judgeHop_inWorld twin hops response with
            ⟨leftStatus, rightStatus, leftJudged, rightJudged⟩ |
              ⟨leftTarget, rightTarget, leftJudged, rightJudged, target⟩
          · rw [hopLoop_finished forbidden leftAttempts leftJudged] at leftRun
            rw [hopLoop_finished otherPermitted rightAttempts rightJudged] at rightRun
            cases leftRun
            cases rightRun
            exact ⟨leftSent, rightSent, leftEq, rightEq, first.settle rfl rfl,
              fun _ _ => ⟨rfl, twin, rfl⟩⟩
          · obtain ⟨hops, rfl⟩ := Nat.exists_eq_succ_of_ne_zero
              (hops_ne_zero_of_redirected leftJudged)
            rw [hopLoop_redirected forbidden leftAttempts leftJudged] at leftRun
            rw [hopLoop_redirected otherPermitted rightAttempts rightJudged] at rightRun
            have middleInStep : leftMiddle.countRedirect.time = rightMiddle.countRedirect.time := by
              simp only [Wire.time, Wire.trace_countRedirect, leftEq, rightEq,
                List.length_append] at inStep ⊢
              omega
            rcases ih hops (Nat.lt_succ_self hops) target (redirects + 1) rightBetween
              middleInStep leftRun rightRun with
              ⟨leftLater, rightLater, leftLaterEq, rightLaterEq, later, laterSame⟩
            refine ⟨leftSent ++ leftLater, rightSent ++ rightLater, ?_, ?_,
              first.append rfl rfl later, laterSame⟩
            · rw [leftLaterEq, Wire.trace_countRedirect, leftEq, List.append_assoc]
            · rw [rightLaterEq, Wire.trace_countRedirect, rightEq, List.append_assoc]
        · -- The right world was refused here.
          rcases rightEnds rightRefused with ⟨rfl, failure⟩
          refine ⟨leftSent ++ leftMore, rightSent, by rw [leftTrace, leftEq, List.append_assoc],
            by rw [rightTrace, rightEq, List.append_nil], first.right_ended failure leftEnds,
            fun _ ok => absurd ok failure⟩
      · -- The left world was refused here.
        rcases leftEnds leftRefused with ⟨rfl, failure⟩
        refine ⟨leftSent, rightSent ++ rightMore, by rw [leftTrace, leftEq, List.append_nil],
          by rw [rightTrace, rightEq, List.append_assoc], first.left_ended failure rightEnds,
          fun ok => absurd ok failure⟩

end Worlds

end ExchangeArgs

namespace HttpAssetReader

structure InWorld (interceptor : Option RequestInterceptor) (userinfo : Bytes)
    (left right : HttpAssetReader) : Prop where
  options_eq : right.options = { left.options with interceptor }
  origin_eq : right.origin = { left.origin with userinfo }
  uri : Twin left.origin userinfo left.uri right.uri
  metadata_eq : right.metadata = left.metadata
  ifRange_eq : right.ifRangeValue = left.ifRangeValue

/-- What a read adds to the trace after an exchange: nothing where that failed. -/
theorem readLoop_rest {reader : HttpAssetReader} {transport : Transport} {size budget : ℕ}
    {after : Wire} {exchange : ExchangeResult} {result : ReadResult}
    (exchanged : (reader.readArgs transport offset length done).performExchange reader.uri retries
      wire = (exchange, between, middle))
    (run : reader.readLoop transport offset size length budget retries done wire =
      (result, after)) :
    ∃ more, after.trace = middle.trace ++ more ∧ (¬exchange.status.code = .ok → more = []) := by
  rcases readLoop_cases exchanged size budget with
    ends | ⟨fewer, less, reached, lastError, rfl, rfl, judged, resumes⟩
  · exact ⟨[], by rw [← ends, run, List.append_nil], fun _ => rfl⟩
  · have ok : exchange.status.code = .ok := by
      by_contra failure
      simp [judgeRead, Status.isOk, failure] at judged
    rcases reader.readLoop_trace_prefix transport offset size length fewer less reached
      middle.countRetry with ⟨more, moreEq⟩
    rw [← resumes, run] at moreEq
    exact ⟨more, moreEq.symm, fun failure => absurd ok failure⟩

section Worlds

variable {interceptor : Option RequestInterceptor} {userinfo : Bytes}
  {left right : HttpAssetReader} {transport : Transport}

theorem InWorld.readArgs_eq (world : InWorld interceptor userinfo left right)
    (offset length done : ℕ) :
    right.readArgs transport offset length done =
      (left.readArgs transport offset length done).inWorld interceptor userinfo := by
  simp only [readArgs, ExchangeArgs.inWorld, world.options_eq, world.origin_eq, world.ifRange_eq]

theorem InWorld.advances_iff (world : InWorld interceptor userinfo left right)
    {response : TransportResponse} :
    right.Advances offset length done response ↔ left.Advances offset length done response := by
  have accepts : right.Accepts offset length done response ↔
      left.Accepts offset length done response := by
    simp only [Accepts, world.metadata_eq]
  exact ⟨fun advances => { advances with accepted := accepts.mp advances.accepted },
    fun advances => { advances with accepted := accepts.mpr advances.accepted }⟩

theorem exchange_sound {reader : HttpAssetReader} {exchange : ExchangeResult}
    (exchanged : (reader.readArgs transport offset length done).performExchange reader.uri retries
      wire = (exchange, between, middle)) :
    exchange.status.code ≠ .assetChanged ∧
      (exchange.status.code = .ok → ExchangeArgs.Sound exchange.response) := by
  rcases (reader.readArgs transport offset length done).performExchange_run reader.uri retries wire
    with ⟨sent, run⟩
  rw [exchanged] at run
  exact ⟨run.unjudged, fun ok => (run.answered ok).notFailed⟩

theorem InWorld.judgeRead_advanced_iff (world : InWorld interceptor userinfo left right)
    {leftBetween rightBetween : ℕ} {leftMiddle rightMiddle : Wire}
    {leftExchange rightExchange : ExchangeResult}
    (leftExchanged : (left.readArgs transport offset length done).performExchange left.uri
      leftRetries leftWire = (leftExchange, leftBetween, leftMiddle))
    (rightExchanged : (right.readArgs transport offset length done).performExchange right.uri
      rightRetries rightWire = (rightExchange, rightBetween, rightMiddle))
    (leftOk : leftExchange.status.code = .ok) (rightOk : rightExchange.status.code = .ok)
    (responseEq : rightExchange.response = leftExchange.response) (size more : ℕ)
    (lastError : TransportError) :
    right.judgeRead offset size length done rightExchange = .advanced more lastError ↔
      left.judgeRead offset size length done leftExchange = .advanced more lastError := by
  constructor
  · intro judged
    rcases advances_of_judgeRead (exchange_sound rightExchanged).1
      (exchange_sound rightExchanged).2 judged with ⟨advances, rfl, rfl⟩
    rw [responseEq] at advances ⊢
    exact judgeRead_advanced leftOk (world.advances_iff.mp advances)
  · intro judged
    rcases advances_of_judgeRead (exchange_sound leftExchanged).1
      (exchange_sound leftExchanged).2 judged with ⟨advances, rfl, rfl⟩
    rw [← responseEq] at advances ⊢
    exact judgeRead_advanced rightOk (world.advances_iff.mpr advances)

theorem readLoop_alike (blind : transport.Blind) (world : InWorld interceptor userinfo left right)
    (offset size length budget retries done : ℕ) (inStep : leftWire.time = rightWire.time)
    {leftResult rightResult : ReadResult}
    (leftRun : left.readLoop transport offset size length budget retries done leftWire =
      (leftResult, leftAfter))
    (rightRun : right.readLoop transport offset size length budget retries done rightWire =
      (rightResult, rightAfter)) :
    ∃ leftSent rightSent, leftAfter.trace = leftWire.trace ++ leftSent ∧
      rightAfter.trace = rightWire.trace ++ rightSent ∧ Alike left.origin leftSent rightSent := by
  induction budget using Nat.strongRecOn generalizing retries done leftWire rightWire with
  | _ budget ih =>
    rcases leftExchanged : (left.readArgs transport offset length done).performExchange left.uri
      retries leftWire with ⟨leftExchange, leftBetween, leftMiddle⟩
    rcases rightExchanged : (right.readArgs transport offset length done).performExchange
      right.uri retries rightWire with ⟨rightExchange, rightBetween, rightMiddle⟩
    rcases readLoop_rest leftExchanged leftRun with ⟨leftMore, leftTrace, leftEnds⟩
    rcases readLoop_rest rightExchanged rightRun with ⟨rightMore, rightTrace, rightEnds⟩
    have rightHops := rightExchanged
    rw [world.readArgs_eq] at rightHops
    rcases ExchangeArgs.hopLoop_parallel blind world.uri _ 0 retries inStep leftExchanged
      rightHops with ⟨leftSent, rightSent, leftEq, rightEq, first, same⟩
    by_cases leftOk : leftExchange.status.code = .ok
    · by_cases rightOk : rightExchange.status.code = .ok
      · rcases same leftOk rightOk with ⟨responseEq, _, rfl⟩
        have judgedAlike := world.judgeRead_advanced_iff leftExchanged rightExchanged leftOk
          rightOk responseEq size
        have middleInStep : leftMiddle.countRetry.time = rightMiddle.countRetry.time := by
          have := first.left_le rightOk
          have := first.right_le leftOk
          simp only [Wire.time, Wire.trace_countRetry, leftEq, rightEq, List.length_append]
            at inStep ⊢
          omega
        cases leftJudged : left.judgeRead offset size length done leftExchange with
        | returned leftReturned =>
          cases rightJudged : right.judgeRead offset size length done rightExchange with
          | returned rightReturned =>
            rw [readLoop_returned leftExchanged leftJudged] at leftRun
            rw [readLoop_returned rightExchanged rightJudged] at rightRun
            cases leftRun
            cases rightRun
            exact ⟨leftSent, rightSent, leftEq, rightEq, first.alike⟩
          | advanced reached lastError =>
            have := (judgedAlike reached lastError).mp rightJudged
            rw [leftJudged] at this
            cases this
        | advanced reached lastError =>
          have rightJudged := (judgedAlike reached lastError).mpr leftJudged
          by_cases short : reached < length
          · by_cases spent : budget = 0 ∨ rightBetween = 0
            · rw [readLoop_spent leftExchanged leftJudged short spent] at leftRun
              rw [readLoop_spent rightExchanged rightJudged short spent] at rightRun
              cases leftRun
              cases rightRun
              exact ⟨leftSent, rightSent, leftEq, rightEq, first.alike⟩
            · obtain ⟨budget, rfl⟩ :=
                Nat.exists_eq_succ_of_ne_zero fun zero => spent (Or.inl zero)
              obtain ⟨between, rfl⟩ :=
                Nat.exists_eq_succ_of_ne_zero fun zero => spent (Or.inr zero)
              rw [readLoop_resumed leftExchanged leftJudged short] at leftRun
              rw [readLoop_resumed rightExchanged rightJudged short] at rightRun
              rcases ih budget (Nat.lt_succ_self budget) between reached middleInStep leftRun
                rightRun with ⟨leftLater, rightLater, leftLaterEq, rightLaterEq, later⟩
              refine ⟨leftSent ++ leftLater, rightSent ++ rightLater, ?_, ?_,
                first.alike.append
                  (Nat.le_antisymm (first.left_le rightOk) (first.right_le leftOk)) later⟩
              · rw [leftLaterEq, Wire.trace_countRetry, leftEq, List.append_assoc]
              · rw [rightLaterEq, Wire.trace_countRetry, rightEq, List.append_assoc]
          · rw [readLoop_complete leftExchanged leftJudged short] at leftRun
            rw [readLoop_complete rightExchanged rightJudged short] at rightRun
            cases leftRun
            cases rightRun
            exact ⟨leftSent, rightSent, leftEq, rightEq, first.alike⟩
      · -- The exchange failed in the right world, which ends its read.
        rw [rightEnds rightOk, List.append_nil] at rightTrace
        exact ⟨leftSent ++ leftMore, rightSent, by rw [leftTrace, leftEq, List.append_assoc],
          by rw [rightTrace, rightEq],
          (first.right_ended not_false fun failed => ⟨leftEnds failed, not_false⟩).alike⟩
    · -- The exchange failed in the left world, which ends its read.
      rw [leftEnds leftOk, List.append_nil] at leftTrace
      exact ⟨leftSent, rightSent ++ rightMore, by rw [leftTrace, leftEq],
        by rw [rightTrace, rightEq, List.append_assoc],
        (first.left_ended not_false fun failed => ⟨rightEnds failed, not_false⟩).alike⟩

theorem read_alike (blind : transport.Blind) (world : InWorld interceptor userinfo left right)
    (offset : ℕ) (dstIsNull : Bool) (size : ℕ) (inStep : leftWire.time = rightWire.time) :
    ∃ leftSent rightSent,
      (left.read transport offset dstIsNull size leftWire).2.trace =
        leftWire.trace ++ leftSent ∧
      (right.read transport offset dstIsNull size rightWire).2.trace =
        rightWire.trace ++ rightSent ∧ Alike left.origin leftSent rightSent := by
  have budget : right.options.retryBudget = left.options.retryBudget := by
    rw [world.options_eq]
    rfl
  simp only [read, world.metadata_eq, budget]
  split
  · exact ⟨[], [], by simp, by simp, .nil_left []⟩
  · split
    · exact ⟨[], [], by simp, by simp, .nil_left []⟩
    · split
      · exact ⟨[], [], by simp, by simp, .nil_left []⟩
      · exact readLoop_alike blind world offset size _ _ _ 0 inStep rfl rfl

end Worlds

end HttpAssetReader

theorem describeAsset_inWorld {options : HttpOptions} {userinfo : Bytes}
    {interceptor : Option RequestInterceptor} {left right : ExchangeResult}
    {leftReader rightReader : HttpAssetReader} (responseEq : right.response = left.response)
    (twin : Twin opened userinfo left.finalUri right.finalUri)
    (leftDescribed : describeAsset options opened left = .ok leftReader)
    (rightDescribed : describeAsset { options with interceptor } { opened with userinfo } right =
      .ok rightReader) :
    HttpAssetReader.InWorld interceptor userinfo leftReader rightReader := by
  simp only [describeAsset, responseEq] at leftDescribed rightDescribed
  split at leftDescribed
  · cases leftDescribed
  · rename_i status
    rw [if_neg status] at rightDescribed
    split at leftDescribed
    · cases leftDescribed
    · rename_i size sized
      simp only [sized] at rightDescribed
      split at leftDescribed
      · cases leftDescribed
      · rename_i ranged
        rw [if_neg ranged] at rightDescribed
        cases leftDescribed
        cases rightDescribed
        exact ⟨rfl, rfl, twin, by simp [twin.toIdentity_eq], rfl⟩

theorem httpOpen_alike {url otherUrl : Bytes} {userinfo : Bytes} {transport : Transport}
    (blind : transport.Blind) (parsed : parseUri url = .ok opened)
    (otherParsed : parseUri otherUrl = .ok { opened with userinfo })
    (interceptor : Option RequestInterceptor) (options : HttpOptions)
    (inStep : leftWire.time = rightWire.time) :
    (∃ leftSent rightSent,
      (httpOpen url options (some transport) leftWire).2.trace = leftWire.trace ++ leftSent ∧
      (httpOpen otherUrl { options with interceptor } (some transport) rightWire).2.trace =
        rightWire.trace ++ rightSent ∧ Alike opened leftSent rightSent) ∧
    ∀ left right,
      (httpOpen url options (some transport) leftWire).1 = .ok left →
      (httpOpen otherUrl { options with interceptor } (some transport) rightWire).1 = .ok right →
      left.origin = opened ∧ HttpAssetReader.InWorld interceptor userinfo left right := by
  have twin : Twin opened userinfo opened { opened with userinfo } := Or.inr ⟨rfl, .refl opened⟩
  rcases leftExchanged : (openArgs transport options opened).performExchange opened
    options.retryBudget leftWire with ⟨leftExchange, leftBetween, leftAfter⟩
  rcases rightExchanged : ((openArgs transport options opened).inWorld interceptor
    userinfo).performExchange { opened with userinfo } options.retryBudget rightWire with
    ⟨rightExchange, rightBetween, rightAfter⟩
  rcases ExchangeArgs.hopLoop_parallel blind twin _ 0 _ inStep leftExchanged rightExchanged with
    ⟨leftSent, rightSent, leftEq, rightEq, first, same⟩
  have rightExchanged : (openArgs transport { options with interceptor }
      { opened with userinfo }).performExchange { opened with userinfo }
      ({ options with interceptor } : HttpOptions).retryBudget rightWire =
        (rightExchange, rightBetween, rightAfter) := rightExchanged
  simp only [httpOpen, parsed, otherParsed, leftExchanged, rightExchanged]
  constructor
  · refine ⟨leftSent, rightSent, ?_, ?_, first.alike⟩
    · split <;> exact leftEq
    · split <;> exact rightEq
  · intro left right leftOpened rightOpened
    split at leftOpened
    · cases leftOpened
    · split at rightOpened
      · cases rightOpened
      · rename_i leftOk rightOk
        rcases same (by simpa [Status.isOk] using leftOk) (by simpa [Status.isOk] using rightOk)
          with ⟨responseEq, finalTwin, _⟩
        have originEq : left.origin = opened := by
          rcases describeAsset_eq_ok_iff.mp leftOpened with ⟨_, _, _, size, _, rfl⟩
          rfl
        exact ⟨originEq, describeAsset_inWorld responseEq finalTwin leftOpened rightOpened⟩

/--
Over the whole life of a reader, interceptor headers go only to the opened
origin, and the userinfo of a request is inherited with the opened authority or
written in the redirect that named its authority.  Another interceptor and
another userinfo in the opened URL change nothing about a request to another
origin, neither of the open nor of any read.
-/
theorem credentials_stay_with_origin {url : Bytes} {opened : Uri}
    (parsed : parseUri url = .ok opened) (options : HttpOptions) (transport : Transport) :
    (∀ calls, ∀ request ∈ (lifetime url options transport calls {}).trace,
      (request.request.headers ≠ [] →
        request.uri.scheme = opened.scheme ∧ request.uri.host = opened.host ∧
          request.uri.effectivePort = opened.effectivePort) ∧
      ∃ locations, Followed opened locations request.uri ∧
        (∀ location ∈ locations,
          Redirected (lifetime url options transport calls {}).trace location) ∧
        (Inherited opened locations request.uri ∨ Named locations request.uri)) ∧
    ∀ (otherUrl userinfo : Bytes) (interceptor : Option RequestInterceptor)
      (leftWire rightWire : Wire), transport.Blind →
      parseUri otherUrl = .ok { opened with userinfo } → leftWire.time = rightWire.time →
      (∃ leftSent rightSent,
        (httpOpen url options (some transport) leftWire).2.trace = leftWire.trace ++ leftSent ∧
        (httpOpen otherUrl { options with interceptor } (some transport) rightWire).2.trace =
          rightWire.trace ++ rightSent ∧ Alike opened leftSent rightSent) ∧
      ∀ left right,
        (httpOpen url options (some transport) leftWire).1 = .ok left →
        (httpOpen otherUrl { options with interceptor } (some transport) rightWire).1 =
          .ok right →
        ∀ (offset size : ℕ) (dstIsNull : Bool) (leftNow rightNow : Wire),
          leftNow.time = rightNow.time →
          ∃ leftSent rightSent,
            (left.read transport offset dstIsNull size leftNow).2.trace =
              leftNow.trace ++ leftSent ∧
            (right.read transport offset dstIsNull size rightNow).2.trace =
              rightNow.trace ++ rightSent ∧ Alike opened leftSent rightSent := by
  constructor
  · intro calls request requestMem
    rcases lifetime_issued parsed options transport calls request requestMem with
      ⟨args, start, earlier, locations, issued⟩
    refine ⟨?_, earlier ++ locations, issued.followed, ?_,
      issued.followed.userinfo (parseUri_ok parsed).1⟩
    · intro headed
      have same := issued.made.sameOrigin headed
      rw [issued.origin_eq] at same
      simpa [sameOrigin, and_assoc] using same
    · intro location locationMem
      rcases List.mem_append.mp locationMem with locationMem | locationMem
      · exact issued.startedBy location locationMem
      · exact issued.reached.2.2 location locationMem
  · intro otherUrl userinfo interceptor leftWire rightWire blind otherParsed inStep
    have opens := httpOpen_alike blind parsed otherParsed interceptor options inStep
    refine ⟨opens.1, ?_⟩
    intro left right leftOpened rightOpened offset size dstIsNull leftNow rightNow nowInStep
    rcases opens.2 left right leftOpened rightOpened with ⟨originEq, world⟩
    rw [← originEq]
    exact HttpAssetReader.read_alike blind world offset dstIsNull size nowInStep

/-- Redirects the first request to another host, then describes a one-byte asset. -/
def leavingServer : Transport where
  perform time _ :=
    if time = 0 then { status := 302, headers := ⟨[(bytes "Location", bytes "//other/b")]⟩ }
    else
      { status := 200
        headers := ⟨[(bytes "Content-Length", bytes "1"),
          (bytes "Accept-Ranges", bytes "bytes")]⟩ }
  body_le_capacity := by
    intro time request
    split <;> simp

theorem leavingServer_credentials :
    let options : HttpOptions := { interceptor := some fun _ _ => some [⟨bytes "X", bytes "y"⟩] }
    let url := bytes "http://user@host/a"
    let trace := (lifetime url options leavingServer [] {}).trace
    trace.map (fun request => (request.uri.host, request.request.headers.length)) =
        [(bytes "host", 1), (bytes "other", 0)] ∧
      (∀ request ∈ trace, request.request.headers ≠ [] → request.uri.host = bytes "host") ∧
      ∃ leftSent rightSent,
        (httpOpen url options (some leavingServer) {}).2.trace = leftSent ∧
        (httpOpen (bytes "http://host/a") {} (some leavingServer) {}).2.trace = rightSent ∧
        Alike { letterUri with userinfo := bytes "user" } leftSent rightSent := by
  intro options url trace
  have parsed : parseUri url = .ok { letterUri with userinfo := bytes "user" } := by decide +kernel
  have stays := credentials_stay_with_origin parsed options leavingServer
  refine ⟨by decide +kernel, fun request requestMem headed => ?_, ?_⟩
  · exact ((stays.1 [] request requestMem).1 headed).2.1
  · have parsedOther : parseUri (bytes "http://host/a") =
        .ok { letterUri with userinfo := [] } := by decide +kernel
    exact (stays.2 (bytes "http://host/a") [] none {} {} (fun _ _ _ _ => rfl) parsedOther rfl).1

end UsdAsset.Http
