import UsdAsset.Http.Lifetime

/-!
# Two runs that differ in their secrets

Two URIs are alike where they agree besides userinfo and query.  An open and the
reads of the reader it returns are compared for two such URIs, over a transport
whose answers do not depend on the URL.  The relation is kept by every exchange,
whichever redirects the transport answers with, so the two runs make as many
requests and report the same codes and messages.
-/

namespace UsdAsset.Http

open ByteString

variable {left right : Uri} {other wire : Wire} {transport : Transport}

/-! ### Two URIs that differ in their secrets -/

/-- Agreement of two URIs besides their userinfo and query. -/
structure Uri.Alike (left right : Uri) : Prop where
  scheme : left.scheme = right.scheme
  host : left.host = right.host
  port : left.port = right.port
  path : left.path = right.path
  hasQuery : left.hasQuery = right.hasQuery

theorem Uri.Alike.refl (uri : Uri) : uri.Alike uri := ⟨rfl, rfl, rfl, rfl, rfl⟩

theorem elideQuery_cut {before : Bytes} (after : Bytes) (absent : questionMark ∉ before) :
    elideQuery (before ++ questionMark :: after) = before ++ bytes "?<elided>" := by
  have found := splitFirst_append after absent
  simp only [questionMark] at found
  simp only [elideQuery, questionMark, found]

theorem elideQuery_whole {text : Bytes} (absent : questionMark ∉ text) :
    elideQuery text = text := by
  have missing := splitFirst_eq_none absent
  simp only [questionMark] at missing
  simp only [elideQuery, missing]

theorem append_questionMark (lead tail : Bytes) :
    lead ++ bytes "?" ++ tail = lead ++ questionMark :: tail := by
  rw [List.append_assoc]
  rfl

theorem elideQuery_append (lead left right : Bytes) :
    elideQuery (lead ++ bytes "?" ++ left) = elideQuery (lead ++ bytes "?" ++ right) := by
  rw [append_questionMark, append_questionMark]
  by_cases early : questionMark ∈ lead
  · rcases List.eq_append_cons_of_mem early with ⟨before, after, rfl, absent⟩
    rw [List.append_assoc, List.append_assoc, List.cons_append, List.cons_append,
      elideQuery_cut _ absent, elideQuery_cut _ absent]
  · rw [elideQuery_cut _ early, elideQuery_cut _ early]

namespace Uri.Alike

variable (alike : left.Alike right)

include alike

theorem isSecure : left.isSecure = right.isSecure := by
  rw [Uri.isSecure, Uri.isSecure, alike.scheme]

theorem elided_identity : elideSecrets left.toIdentity = elideSecrets right.toIdentity := by
  simp only [elideSecrets, Uri.toIdentity, Uri.compose, Uri.defaultPort, alike.isSecure,
    alike.scheme, alike.host, alike.port, alike.path, alike.hasQuery]
  cases right.hasQuery with
  | false => rfl
  | true =>
    simp only [if_true, ← List.append_assoc, Bool.false_eq_true, false_and, if_false]
    exact congrArg elideUserinfo (elideQuery_append _ left.query right.query)

theorem whereText : whereText left = whereText right := by
  rw [Http.whereText, Http.whereText, alike.elided_identity]

theorem resolvePath (reference : Bytes) :
    resolvePath left reference = resolvePath right reference := by
  simp only [Http.resolvePath, alike.path]

theorem resolveRelative (reference : Bytes) :
    (resolveRelative left reference).Alike (resolveRelative right reference) := by
  simp only [Http.resolveRelative]
  split
  · exact ⟨alike.scheme, alike.host, alike.port, alike.path, rfl⟩
  · split
    · exact ⟨alike.scheme, alike.host, alike.port, alike.resolvePath _, rfl⟩
    · exact ⟨alike.scheme, alike.host, alike.port, alike.resolvePath _, rfl⟩

end Uri.Alike

/-- Both computations fail, and alike, or both succeed with related values. -/
inductive SameOutcome {ε α : Type} (related : α → α → Prop) : Except ε α → Except ε α → Prop where
  | error (failure : ε) : SameOutcome related (.error failure) (.error failure)
  | ok {left right : α} (relation : related left right) : SameOutcome related (.ok left) (.ok right)

theorem SameOutcome.refl {ε α : Type} {related : α → α → Prop}
    (reflexive : ∀ value, related value value) (outcome : Except ε α) :
    SameOutcome related outcome outcome := by
  cases outcome with
  | error failure => exact .error failure
  | ok value => exact .ok (reflexive value)

theorem SameOutcome.bind {ε α β : Type} {related : α → α → Prop} {following : β → β → Prop}
    {left right : Except ε α} {next other : α → Except ε β}
    (outcomes : SameOutcome related left right)
    (continued : ∀ first second, related first second →
      SameOutcome following (next first) (other second)) :
    SameOutcome following (left >>= next) (right >>= other) := by
  cases outcomes with
  | error failure => exact .error failure
  | ok relation => exact continued _ _ relation

theorem Uri.Alike.resolveReference (alike : left.Alike right) (location : Bytes) :
    SameOutcome Uri.Alike (resolveReference left location) (resolveReference right location) := by
  simp only [Http.resolveReference, alike.scheme]
  split
  · exact .error _
  · split
    · exact .refl Uri.Alike.refl _
    · split
      · exact .refl Uri.Alike.refl _
      · exact .ok (alike.resolveRelative _)

/-! ### Two exchanges -/

/-- The responses of a transport do not depend on the URL a request is made to. -/
def Transport.IgnoresUrl (transport : Transport) : Prop :=
  ∀ time (request : TransportRequest) (url : Bytes),
    transport.perform time { request with url } = transport.perform time request

/-- The same response and status, at URIs that agree besides their secrets. -/
structure ExchangeResult.Alike (left right : ExchangeResult) : Prop where
  response : left.response = right.response
  status : left.status = right.status
  finalUri : left.finalUri.Alike right.finalUri

namespace ExchangeArgs

/-- Agreement of two hops: both end and alike, or both go on to targets that agree. -/
inductive HopOutcome.Alike : HopOutcome → HopOutcome → Prop where
  | finished {left right : ExchangeResult} (alike : left.Alike right) :
      HopOutcome.Alike (.finished left) (.finished right)
  | redirected {left right : Uri} (alike : left.Alike right) :
      HopOutcome.Alike (.redirected left) (.redirected right)

section

theorem failedResponse_congr (alike : left.Alike right) (response : TransportResponse) :
    failedResponse response left = failedResponse response right := by
  simp only [failedResponse, destinationRefusedStatus, projectTransportError, alike.whereText]

theorem refuseRedirect_agrees (alike : left.Alike right) (response : TransportResponse)
    (message : Bytes) :
    (refuseRedirect response left message).Alike (refuseRedirect response right message) := by
  refine .finished ⟨rfl, ?_, alike⟩
  dsimp only
  rw [alike.whereText]

theorem judgeHop_agrees {args other : ExchangeArgs} (options : args.options = other.options)
    (alike : left.Alike right) (hops : ℕ) (response : TransportResponse) :
    (args.judgeHop hops left response).Alike (other.judgeHop hops right response) := by
  simp only [judgeHop, failedResponse_congr alike, options]
  split
  · exact .finished ⟨rfl, rfl, alike⟩
  · split
    · exact .finished ⟨rfl, rfl, alike⟩
    · split
      · exact refuseRedirect_agrees alike _ _
      · split
        · exact refuseRedirect_agrees alike _ _
        · split
          · exact refuseRedirect_agrees alike _ _
          · rename_i location _ _ _
            generalize resolvedLeft : resolveReference left location = outcomeLeft
            generalize resolvedRight : resolveReference right location = outcomeRight
            have outcomes := alike.resolveReference location
            rw [resolvedLeft, resolvedRight] at outcomes
            cases outcomes with
            | error failure => exact refuseRedirect_agrees alike _ _
            | @ok target otherTarget targets =>
              have sameJudgement :
                  isSchemeDowngrade left target = isSchemeDowngrade right otherTarget := by
                rw [isSchemeDowngrade, isSchemeDowngrade, alike.isSecure, targets.isSecure]
              dsimp only
              by_cases downgraded : isSchemeDowngrade right otherTarget = true
              · rw [if_pos (sameJudgement.trans downgraded), if_pos downgraded]
                exact refuseRedirect_agrees alike _ _
              · rw [if_neg (sameJudgement ▸ downgraded), if_neg downgraded]
                exact .redirected targets

end

/-- Two exchanges that differ in the URL an asset was opened at, and nothing else. -/
structure Alike (left right : ExchangeArgs) : Prop where
  sameBesides : { left with origin := right.origin } = right
  silent : left.options.interceptor = none
  ignoresUrl : left.transport.IgnoresUrl

namespace Alike

variable {left right : ExchangeArgs}

variable (alike : left.Alike right)

include alike

theorem options : left.options = right.options := by
  rw [← alike.sameBesides]

theorem headersFor_left (time : ℕ) (current : Uri)
    (redirects attempt : ℕ) : left.headersFor time current redirects attempt = .ok [] := by
  simp only [headersFor, alike.silent]

theorem headersFor_right (time : ℕ) (current : Uri)
    (redirects attempt : ℕ) : right.headersFor time current redirects attempt = .ok [] := by
  simp only [headersFor, ← alike.options, alike.silent]

theorem response (time : ℕ) (current target : Uri) :
    (left.send time current []).response = (right.send time target []).response := by
  have sameRequest : right.requestFor target [] =
      { left.requestFor current [] with url := target.toText } := by
    rw [← alike.sameBesides]
    rfl
  have sameTransport : right.transport = left.transport := by
    rw [← alike.sameBesides]
  simp only [send]
  rw [sameTransport, sameRequest]
  exact (alike.ignoresUrl time _ _).symm

theorem preflight {current target : Uri} (uris : current.Alike target) :
    left.preflight current = right.preflight target := by
  simp only [ExchangeArgs.preflight, uris.host, alike.options, destinationRefusedStatus,
    uris.whereText]

end Alike

/-- Two runs of an exchange that nothing but the URLs on their wires tells apart. -/
structure SameRun (left right : ExchangeResult × ℕ × Wire) : Prop where
  result : left.1.Alike right.1
  retries : left.2.1 = right.2.1
  time : left.2.2.time = right.2.2.time

section

variable {left right : ExchangeArgs} {current target : Uri}

theorem attemptLoop_agrees (alike : left.Alike right) (current target : Uri)
    (redirects retries attempt : ℕ) (sameTime : wire.time = other.time) :
    ∃ response remaining after otherAfter,
      left.attemptLoop redirects current retries attempt wire = (.ok response, remaining, after) ∧
      right.attemptLoop redirects target retries attempt other =
        (.ok response, remaining, otherAfter) ∧ after.time = otherAfter.time := by
  have pushed : ∀ sent otherSent, (wire.push sent).time = (other.push otherSent).time := by
    intro sent otherSent
    simpa [Wire.time] using sameTime
  induction retries generalizing attempt wire other with
  | zero =>
    simp only [attemptLoop, alike.headersFor_left, alike.headersFor_right]
    rw [← sameTime, ← alike.response wire.time current target]
    exact ⟨_, _, _, _, rfl, rfl, pushed _ _⟩
  | succ retries ih =>
    simp only [attemptLoop, alike.headersFor_left, alike.headersFor_right]
    rw [← sameTime, ← alike.response wire.time current target]
    split
    · have counted := pushed (left.send wire.time current []) (right.send wire.time target [])
      refine ih (attempt + 1) (by simpa [Wire.time] using counted) ?_
      intro sent otherSent
      simpa [Wire.time] using sameTime
    · exact ⟨_, _, _, _, rfl, rfl, pushed _ _⟩

theorem hopLoop_agrees (alike : left.Alike right) (hops redirects retries : ℕ)
    (uris : current.Alike target) (sameTime : wire.time = other.time) :
    SameRun (left.hopLoop hops redirects current retries wire)
      (right.hopLoop hops redirects target retries other) := by
  induction hops using Nat.strongRecOn generalizing redirects current target retries wire other with
  | _ hops ih =>
    rw [hopLoop, hopLoop, alike.preflight uris]
    split
    · exact ⟨⟨rfl, rfl, uris⟩, rfl, sameTime⟩
    · rcases attemptLoop_agrees alike current target redirects retries 1 sameTime with
        ⟨response, remaining, after, otherAfter, answered, otherAnswered, sameAfter⟩
      rw [answered, otherAnswered]
      have outcomes := judgeHop_agrees alike.options uris hops response
      dsimp only
      generalize left.judgeHop hops current response = outcome at outcomes ⊢
      generalize right.judgeHop hops target response = otherOutcome at outcomes ⊢
      cases outcomes with
      | finished results => exact ⟨results, rfl, sameAfter⟩
      | redirected targets =>
        cases hops with
        | zero => exact ⟨⟨rfl, rfl, uris⟩, rfl, sameAfter⟩
        | succ hops => exact ih hops (Nat.lt_succ_self hops) (redirects + 1) remaining targets sameAfter

theorem performExchange_agrees (alike : left.Alike right) (retries : ℕ)
    (uris : current.Alike target) (sameTime : wire.time = other.time) :
    SameRun (left.performExchange current retries wire)
      (right.performExchange target retries other) := by
  rw [performExchange, performExchange, alike.options]
  exact hopLoop_agrees alike _ 0 retries uris sameTime

end

end ExchangeArgs

/-! ### Two readers -/

namespace HttpAssetReader

/-- Two readers of one revision that differ in the secrets of their URLs. -/
structure Alike (left right : HttpAssetReader) : Prop where
  options : left.options = right.options
  uri : left.uri.Alike right.uri
  size : left.metadata.size = right.metadata.size
  validator : left.metadata.validator = right.metadata.validator
  ifRangeValue : left.ifRangeValue = right.ifRangeValue
  identified : left.metadata.resolvedIdentifier = left.uri.toIdentity
  otherIdentified : right.metadata.resolvedIdentifier = right.uri.toIdentity

end HttpAssetReader

theorem Uri.toIdentity_ne_nil (uri : Uri) : uri.toIdentity ≠ [] := by
  simp [Uri.toIdentity, Uri.compose, bytes]

theorem projectHttpStatus_congr (alike : left.Alike right) (status : Int) :
    projectHttpStatus status left = projectHttpStatus status right := by
  simp only [projectHttpStatus, alike.whereText]

theorem projectTransportError_congr (alike : left.Alike right) (error : TransportError) :
    projectTransportError error left = projectTransportError error right := by
  simp only [projectTransportError, destinationRefusedStatus, alike.whereText]

theorem describeAsset_agrees (options : HttpOptions) (origin otherOrigin : Uri)
    {left right : ExchangeResult} (alike : left.Alike right) :
    SameOutcome HttpAssetReader.Alike (describeAsset options origin left)
      (describeAsset options otherOrigin right) := by
  rw [describeAsset, describeAsset, alike.response]
  simp only [projectHttpStatus_congr alike.finalUri, alike.finalUri.whereText]
  split
  · exact .error _
  · split
    · exact .error _
    · split
      · exact .error _
      · exact .ok ⟨rfl, alike.finalUri, rfl, rfl, rfl, rfl, rfl⟩

namespace HttpAssetReader

section

variable {left right : HttpAssetReader}

theorem Alike.shortReadStatus (alike : left.Alike right) (offset expected actual : ℕ) :
    shortReadStatus offset expected actual left.metadata.resolvedIdentifier =
      shortReadStatus offset expected actual right.metadata.resolvedIdentifier := by
  simp only [UsdAsset.shortReadStatus, alike.identified, alike.otherIdentified,
    Uri.toIdentity_ne_nil, if_false, alike.uri.elided_identity]

theorem changed_congr {uri other : Uri} (uris : uri.Alike other) (offset size : ℕ) (how : Bytes) :
    changed offset size uri how = changed offset size other how := by
  rw [changed, changed, assetChangedStatus, assetChangedStatus, uris.whereText]

theorem misframed_congr {uri other : Uri} (uris : uri.Alike other) (offset size done : ℕ)
    (message : Bytes) :
    misframed offset size done uri message = misframed offset size done other message := by
  rw [misframed, misframed, uris.whereText]

variable (alike : left.Alike right)

include alike

theorem judgeRead_congr (offset size length done : ℕ)
    {exchange other : ExchangeResult} (results : exchange.Alike other) :
    left.judgeRead offset size length done exchange =
      right.judgeRead offset size length done other := by
  simp only [judgeRead, judgeWhole, judgeUnsatisfiable, judgePartial, judgeDelivered,
    results.response, results.status, alike.size, alike.validator, alike.shortReadStatus,
    changed_congr results.finalUri, misframed_congr results.finalUri,
    projectHttpStatus_congr results.finalUri, projectTransportError_congr results.finalUri,
    results.finalUri.whereText]

theorem Alike.budgetSpent (offset size length done : ℕ) (lastError : TransportError) :
    left.budgetSpent offset size length done lastError =
      right.budgetSpent offset size length done lastError := by
  simp only [HttpAssetReader.budgetSpent, projectTransportError_congr alike.uri,
    alike.shortReadStatus]

variable (silent : left.options.interceptor = none) (ignoresUrl : transport.IgnoresUrl)

include silent ignoresUrl

theorem Alike.readArgs (offset length done : ℕ) : (left.readArgs transport offset length done).Alike
      (right.readArgs transport offset length done) where
  sameBesides := by
    simp only [HttpAssetReader.readArgs, alike.options, alike.ifRangeValue]
  silent := silent
  ignoresUrl := ignoresUrl

theorem readLoop_agrees (offset size length budget retries done : ℕ)
    (sameTime : wire.time = other.time) :
    (left.readLoop transport offset size length budget retries done wire).1 =
        (right.readLoop transport offset size length budget retries done other).1 ∧
      (left.readLoop transport offset size length budget retries done wire).2.time =
        (right.readLoop transport offset size length budget retries done other).2.time := by
  induction budget using Nat.strongRecOn generalizing retries done wire other with
  | _ budget ih =>
    have exchanged := ExchangeArgs.performExchange_agrees
      (alike.readArgs silent ignoresUrl offset length done) retries alike.uri sameTime
    rw [readLoop, readLoop]
    generalize (left.readArgs transport offset length done).performExchange left.uri retries
      wire = run at exchanged ⊢
    generalize (right.readArgs transport offset length done).performExchange right.uri retries
      other = otherRun at exchanged ⊢
    rcases run with ⟨result, remaining, after⟩
    rcases otherRun with ⟨otherResult, otherRemaining, otherAfter⟩
    rcases exchanged with ⟨results, sameRetries, sameAfter⟩
    dsimp only at results sameRetries sameAfter ⊢
    subst sameRetries
    rw [judgeRead_congr alike offset size length done results]
    split
    · exact ⟨rfl, sameAfter⟩
    · split
      · split
        · exact ih _ (Nat.lt_succ_self _) _ _ sameAfter
        · exact ⟨alike.budgetSpent _ _ _ _ _, sameAfter⟩
      · exact ⟨rfl, sameAfter⟩

theorem readCall_agrees (call : ReadCall) (sameTime : wire.time = other.time) :
    (left.readCall transport call wire).1 = (right.readCall transport call other).1 ∧
      (left.readCall transport call wire).2.time =
        (right.readCall transport call other).2.time := by
  simp only [readCall, read, alike.size, alike.options]
  split
  · exact ⟨rfl, sameTime⟩
  · split
    · exact ⟨rfl, sameTime⟩
    · split
      · exact ⟨rfl, sameTime⟩
      · exact readLoop_agrees alike silent ignoresUrl _ _ _ _ _ _ sameTime

theorem history_agrees (calls : List ReadCall) (sameTime : wire.time = other.time) :
    (left.history transport calls wire).map ReadEvent.result =
      (right.history transport calls other).map ReadEvent.result := by
  induction calls generalizing wire other with
  | nil => rfl
  | cons call rest ih =>
    rcases readCall_agrees alike silent ignoresUrl call sameTime with ⟨sameResult, sameAfter⟩
    simp only [history, List.map_cons]
    rw [sameResult, ih sameAfter]

end

end HttpAssetReader

/-! ### The reports of a reader's life -/

/-- What a caller sees of a status: its code and message. -/
def report (status : Status) : StatusCode × Bytes := (status.code, status.message)

/-- The report of a failed open, or those of the reads on the reader it returned. -/
def reported (url : Bytes) (options : HttpOptions) (factory : Option Transport)
    (calls : List ReadCall) (wire : Wire) :
    Except (StatusCode × Bytes) (List (StatusCode × Bytes)) :=
  match httpOpen url options factory wire with
  | (.error status, _) => .error (report status)
  | (.ok reader, after) =>
      .ok (match factory with
        | none => []
        | some transport =>
            (reader.history transport calls after).map fun event =>
              report event.result.status)

section

variable {options : HttpOptions} {factory : Option Transport}

theorem openArgs_agrees (silent : options.interceptor = none) (ignoresUrl : transport.IgnoresUrl)
    (origin other : Uri) :
    (openArgs transport options origin).Alike (openArgs transport options other) :=
  ⟨rfl, silent, ignoresUrl⟩

theorem httpOpen_agrees (silent : options.interceptor = none)
    (ignoresUrl : ∀ transport ∈ factory, transport.IgnoresUrl) {url other : Bytes}
    (parsed : SameOutcome Uri.Alike (parseUri url) (parseUri other))
    (quoted : elideSecrets url = elideSecrets other) (wire : Wire) :
    SameOutcome HttpAssetReader.Alike (httpOpen url options factory wire).1
        (httpOpen other options factory wire).1 ∧
      (httpOpen url options factory wire).2.time =
        (httpOpen other options factory wire).2.time := by
  simp only [httpOpen, quoted]
  generalize parseUri url = outcome at parsed
  generalize parseUri other = otherOutcome at parsed
  cases parsed with
  | error failure => exact ⟨.error _, rfl⟩
  | @ok uri otherUri uris =>
    cases factory with
    | none =>
      dsimp only
      rw [projectTransportError_congr uris]
      exact ⟨.error _, rfl⟩
    | some transport =>
      have exchanged := ExchangeArgs.performExchange_agrees
        (openArgs_agrees silent (ignoresUrl transport rfl) uri otherUri) options.retryBudget uris
        (rfl : wire.time = wire.time)
      dsimp only
      rw [exchanged.result.status]
      split
      · exact ⟨.error _, exchanged.time⟩
      · exact ⟨describeAsset_agrees options uri otherUri exchanged.result, exchanged.time⟩

theorem reported_congr (silent : options.interceptor = none)
    (ignoresUrl : ∀ transport ∈ factory, transport.IgnoresUrl) {url other : Bytes}
    (parsed : SameOutcome Uri.Alike (parseUri url) (parseUri other))
    (quoted : elideSecrets url = elideSecrets other) (calls : List ReadCall) (wire : Wire) :
    reported url options factory calls wire = reported other options factory calls wire := by
  rcases httpOpen_agrees silent ignoresUrl parsed quoted wire with ⟨outcomes, sameTime⟩
  simp only [reported]
  generalize opened : httpOpen url options factory wire = run at outcomes sameTime ⊢
  generalize httpOpen other options factory wire = otherRun at outcomes sameTime ⊢
  rcases run with ⟨outcome, after⟩
  rcases otherRun with ⟨otherOutcome, otherAfter⟩
  dsimp only at outcomes
  cases outcomes with
  | error failure => rfl
  | ok readers =>
    cases factory with
    | none => rfl
    | some transport =>
      rcases httpOpen_opened opened with ⟨_, _, _, _, kept⟩
      have events := HttpAssetReader.history_agrees readers (kept.options_eq ▸ silent)
        (ignoresUrl transport rfl) calls sameTime
      simpa [Function.comp_def] using
        congrArg (List.map fun result => report result.status) events

end

end UsdAsset.Http
