import UsdAsset.Http.Lifetime
import UsdAsset.Http.Oracle
import UsdAsset.Io.Metrics

/-!
# What the counters of a reader say

Models `PendingSink::ReplayInto` and `ReaderSink` of `HttpAssetReader.cpp` over
the counters of `ReaderMetrics`.  An open counts into a sink of its own, which is
replayed when the reader exists; the reads of the reader count into its metrics.

`Tally` says what a sink was told between two points of a run.  It composes, so
the counts of a whole operation are those of its attempts, hops and resumes.
-/

namespace UsdAsset.Http

open ByteString

/-! ### What a sink is told -/

def Sent.isMetadata (sent : Sent) : Bool := sent.request.method == .head

def bodyTotal (sent : List Sent) : ℕ := (sent.map fun request => request.response.bodyBytes).sum

theorem bodyTotal_append (earlier later : List Sent) :
    bodyTotal (earlier ++ later) = bodyTotal earlier + bodyTotal later := by
  rw [bodyTotal, List.map_append, List.sum_append, bodyTotal, bodyTotal]

/-- Everything the sink was told between two points. -/
structure Tally (before after : Wire) (sent : List Sent) (retries redirects : ℕ) : Prop where
  trace : after.trace = before.trace ++ sent
  requests : after.sink.requests = before.sink.requests + sent.length
  metadataRequests :
    after.sink.metadataRequests = before.sink.metadataRequests + sent.countP Sent.isMetadata
  bytesTransferred : after.sink.bytesTransferred = before.sink.bytesTransferred + bodyTotal sent
  retries : after.sink.retries = before.sink.retries + retries
  redirects : after.sink.redirects = before.sink.redirects + redirects

theorem Tally.refl (wire : Wire) : Tally wire wire [] 0 0 :=
  ⟨(List.append_nil _).symm, rfl, rfl, rfl, rfl, rfl⟩

theorem Tally.trans {before middle after : Wire} {sent later : List Sent}
    {retries moreRetries redirects moreRedirects : ℕ}
    (first : Tally before middle sent retries redirects)
    (second : Tally middle after later moreRetries moreRedirects) :
    Tally before after (sent ++ later) (retries + moreRetries) (redirects + moreRedirects) where
  trace := by rw [second.trace, first.trace, List.append_assoc]
  requests := by rw [second.requests, first.requests, List.length_append, Nat.add_assoc]
  metadataRequests := by
    rw [second.metadataRequests, first.metadataRequests, List.countP_append, Nat.add_assoc]
  bytesTransferred := by
    rw [second.bytesTransferred, first.bytesTransferred, bodyTotal_append, Nat.add_assoc]
  retries := by rw [second.retries, first.retries, Nat.add_assoc]
  redirects := by rw [second.redirects, first.redirects, Nat.add_assoc]

theorem tally_push (wire : Wire) (sent : Sent) : Tally wire (wire.push sent) [sent] 0 0 where
  trace := rfl
  requests := rfl
  metadataRequests := by
    rw [List.countP_singleton, Sent.isMetadata]
    simp only [Wire.push, RequestSink.request]
    split <;> rfl
  bytesTransferred := rfl
  retries := rfl
  redirects := rfl

theorem tally_countRetry (wire : Wire) : Tally wire wire.countRetry [] 1 0 :=
  ⟨(List.append_nil _).symm, rfl, rfl, rfl, rfl, rfl⟩

theorem tally_countRedirect (wire : Wire) : Tally wire wire.countRedirect [] 0 1 :=
  ⟨(List.append_nil _).symm, rfl, rfl, rfl, rfl, rfl⟩

/-! ### One exchange -/

/-- An operation counts one request, and one more for every retry and redirect it announces; the
last one announced is not made if it is refused. -/
def Balanced (sent : List Sent) (retries redirects : ℕ) (refused : Bool) : Prop :=
  sent.length + refused.toNat = 1 + retries + redirects

namespace ExchangeArgs

variable {args : ExchangeArgs} {hops redirects retries : ℕ} {current : Uri} {wire : Wire}

/-- Whether the hops end because the pre-flight or the interceptor refuses the next request. -/
def hopsRefused (args : ExchangeArgs) :
    (hops redirects : ℕ) → (current : Uri) → (retries : ℕ) → (wire : Wire) → Bool
  | hops, redirects, current, retries, wire =>
      match args.preflight current with
      | some _ => true
      | none =>
          match args.attemptLoop redirects current retries 1 wire with
          | (.error _, _, _) => true
          | (.ok response, retries, wire) =>
              match hops, args.judgeHop hops current response with
              | hops + 1, .redirected target =>
                  args.hopsRefused hops (redirects + 1) target retries wire.countRedirect
              | _, _ => false

def refused (args : ExchangeArgs) (start : Uri) (retries : ℕ) (wire : Wire) : Bool :=
  args.hopsRefused args.options.maxRedirects.toNat 0 start retries wire

theorem attemptLoop_counts (args : ExchangeArgs) (redirects : ℕ) (current : Uri)
    (retries attempt : ℕ) (wire : Wire) :
    ∃ sent spent,
      Tally wire (args.attemptLoop redirects current retries attempt wire).2.2 sent spent 0 ∧
      spent + (args.attemptLoop redirects current retries attempt wire).2.1 = retries ∧
      Balanced sent spent 0 (!(args.attemptLoop redirects current retries attempt wire).1.isOk) := by
  induction retries using Nat.strongRecOn generalizing attempt wire with
  | _ retries ih =>
    cases admitted : args.headersFor wire.time current redirects attempt with
    | error status =>
      rw [attemptLoop_refused admitted]
      exact ⟨[], 0, .refl wire, Nat.zero_add _, rfl⟩
    | ok headers =>
      by_cases final : retries = 0 ∨
          isRetryable (args.send wire.time current headers).response = false
      · rw [attemptLoop_answered admitted final]
        exact ⟨_, 0, tally_push wire _, Nat.zero_add _, rfl⟩
      · rcases retried_of_not_final final with ⟨fewer, rfl, retryable⟩
        rcases ih fewer (Nat.lt_succ_self fewer) (attempt + 1)
          (wire.push (args.send wire.time current headers)).countRetry with
          ⟨sent, spent, counts, within, balanced⟩
        rw [attemptLoop_retried admitted retryable]
        refine ⟨_, _, ((tally_push wire _).trans (tally_countRetry _)).trans counts, ?_, ?_⟩
        · omega
        · simp only [Balanced, List.append_nil, List.length_append, List.length_singleton]
            at balanced ⊢
          omega

theorem hopLoop_counts (args : ExchangeArgs) (hops redirects : ℕ) (current : Uri) (retries : ℕ)
    (wire : Wire) :
    ∃ sent spent followed,
      Tally wire (args.hopLoop hops redirects current retries wire).2.2 sent spent followed ∧
      spent + (args.hopLoop hops redirects current retries wire).2.1 = retries ∧
      Balanced sent spent followed (args.hopsRefused hops redirects current retries wire) := by
  induction hops using Nat.strongRecOn generalizing redirects current retries wire with
  | _ hops ih =>
    rw [hopsRefused]
    cases preflight : args.preflight current with
    | some refused =>
      rw [hopLoop_forbidden preflight]
      exact ⟨[], 0, 0, .refl wire, Nat.zero_add _, rfl⟩
    | none =>
      rcases args.attemptLoop_counts redirects current retries 1 wire with
        ⟨sent, spent, counts, within, balanced⟩
      rcases attempts : args.attemptLoop redirects current retries 1 wire with
        ⟨_ | response, left, after⟩ <;> simp only [attempts] at counts within balanced
      · rw [hopLoop_refused preflight attempts]
        exact ⟨sent, spent, 0, counts, within, balanced⟩
      · rcases args.judgeHop_cases hops current response with
          ⟨status, judged, _⟩ | ⟨location, target, judged, hopsLeft, _⟩
        · rw [hopLoop_finished preflight attempts judged]
          refine ⟨sent, spent, 0, counts, within, ?_⟩
          cases hops <;> simp only [judged] <;> exact balanced
        · rcases Nat.exists_eq_succ_of_ne_zero hopsLeft with ⟨hops, rfl⟩
          rw [hopLoop_redirected preflight attempts judged]
          simp only [judged]
          rcases ih hops (Nat.lt_succ_self hops) (redirects + 1) target left
            after.countRedirect with ⟨later, more, followed, countsLater, withinLater, rest⟩
          refine ⟨_, _, _, (counts.trans (tally_countRedirect after)).trans countsLater, ?_, ?_⟩
          · omega
          · simp only [Balanced, List.append_nil, List.length_append] at balanced rest ⊢
            simp only [Except.isOk, Except.toBool, Bool.not_true, Bool.toNat_false] at balanced
            omega

theorem performExchange_counts (args : ExchangeArgs) (start : Uri) (retries : ℕ) (wire : Wire) :
    ∃ sent spent followed,
      Tally wire (args.performExchange start retries wire).2.2 sent spent followed ∧
      spent + (args.performExchange start retries wire).2.1 = retries ∧
      Balanced sent spent followed (args.refused start retries wire) :=
  args.hopLoop_counts _ 0 start retries wire

theorem hopsRefused_fails (refused : args.hopsRefused hops redirects current retries wire = true) :
    (args.hopLoop hops redirects current retries wire).1.status.code ≠ .ok := by
  induction hops using Nat.strongRecOn generalizing redirects current retries wire with
  | _ hops ih =>
    rw [hopsRefused] at refused
    cases preflight : args.preflight current with
    | some status =>
      rw [hopLoop_forbidden preflight]
      simp [preflight_code preflight]
    | none =>
      rcases args.attemptLoop_run redirects current retries 1 wire with ⟨sent, run⟩
      rcases attempts : args.attemptLoop redirects current retries 1 wire with
        ⟨status | response, left, after⟩ <;> simp only [attempts, preflight] at run refused
      · rw [hopLoop_refused preflight attempts]
        exact (run.refused status rfl).1.code_ne_ok
      · rcases args.judgeHop_cases hops current response with
          ⟨status, judged, _⟩ | ⟨location, target, judged, hopsLeft, _⟩
        · cases hops <;> simp [judged] at refused
        · rcases Nat.exists_eq_succ_of_ne_zero hopsLeft with ⟨hops, rfl⟩
          rw [hopLoop_redirected preflight attempts judged]
          simp only [judged] at refused
          exact ih hops (Nat.lt_succ_self hops) refused

end ExchangeArgs

/-! ### One read -/

namespace HttpAssetReader

variable {reader : HttpAssetReader}

/-- Whether a read ends because the pre-flight or the interceptor refuses the next request. -/
def roundsRefused (reader : HttpAssetReader) (transport : Transport) (offset size length : ℕ) :
    ℕ → ℕ → ℕ → Wire → Bool
  | budget, retries, done, wire =>
      let args := reader.readArgs transport offset length done
      let (exchange, left, after) := args.performExchange reader.uri retries wire
      match reader.judgeRead offset size length done exchange with
      | .returned _ => args.refused reader.uri retries wire
      | .advanced done _ =>
          if done < length then
            match budget, left with
            | budget + 1, left + 1 =>
                reader.roundsRefused transport offset size length budget left done after.countRetry
            | _, _ => false
          else false

theorem not_refused_of_advanced {transport : Transport}
    {offset size length done more retries left : ℕ} {wire after : Wire}
    {exchange : ExchangeResult} {lastError : TransportError}
    (exchanged : (reader.readArgs transport offset length done).performExchange reader.uri retries
      wire = (exchange, left, after))
    (advanced : reader.judgeRead offset size length done exchange = .advanced more lastError) :
    (reader.readArgs transport offset length done).refused reader.uri retries wire = false := by
  apply Bool.eq_false_iff.mpr
  intro refused
  have fails := ExchangeArgs.hopsRefused_fails refused
  change ((reader.readArgs transport offset length done).performExchange reader.uri retries
    wire).1.status.code ≠ .ok at fails
  rw [exchanged] at fails
  have notOk : exchange.status.isOk = false := by simpa [Status.isOk] using fails
  simp [judgeRead, notOk] at advanced

theorem readLoop_counts (reader : HttpAssetReader) (transport : Transport)
    (offset size length budget retries done : ℕ) (wire : Wire) :
    ∃ sent spent followed,
      Tally wire (reader.readLoop transport offset size length budget retries done wire).2 sent
        spent followed ∧
      spent ≤ retries ∧
      Balanced sent spent followed
        (reader.roundsRefused transport offset size length budget retries done wire) := by
  induction budget using Nat.strongRecOn generalizing retries done wire with
  | _ budget ih =>
    rcases (reader.readArgs transport offset length done).performExchange_counts reader.uri
      retries wire with ⟨sent, spent, followed, counts, within, balanced⟩
    rcases exchanged : (reader.readArgs transport offset length done).performExchange reader.uri
      retries wire with ⟨exchange, left, after⟩
    simp only [exchanged] at counts within
    rw [roundsRefused]
    simp only [exchanged]
    cases judged : reader.judgeRead offset size length done exchange with
    | returned result =>
      rw [readLoop_returned exchanged judged]
      exact ⟨sent, spent, followed, counts, by omega, balanced⟩
    | advanced more lastError =>
      rw [not_refused_of_advanced exchanged judged] at balanced
      by_cases short : more < length
      · simp only [if_pos short]
        by_cases stopped : budget = 0 ∨ left = 0
        · rw [readLoop_spent exchanged judged short stopped]
          refine ⟨sent, spent, followed, counts, by omega, ?_⟩
          rcases stopped with rfl | rfl
          · exact balanced
          · cases budget <;> exact balanced
        · rcases Nat.exists_eq_succ_of_ne_zero fun zero => stopped (Or.inl zero) with
            ⟨budget, rfl⟩
          rcases Nat.exists_eq_succ_of_ne_zero fun zero => stopped (Or.inr zero) with
            ⟨left, rfl⟩
          rw [readLoop_resumed exchanged judged short]
          rcases ih budget (Nat.lt_succ_self budget) left more after.countRetry with
            ⟨later, moreSpent, moreFollowed, countsLater, withinLater, rest⟩
          -- The resume is announced before the exchange it leads to.
          refine ⟨_, _, _, (counts.trans (tally_countRetry after)).trans countsLater, ?_, ?_⟩
          · omega
          · simp only [Balanced, List.append_nil, List.length_append, Bool.toNat_false]
              at balanced rest ⊢
            omega
      · rw [readLoop_complete exchanged judged short]
        simp only [if_neg short]
        exact ⟨sent, spent, followed, counts, by omega, balanced⟩

/-- A call that gets as far as an exchange. -/
def Exchanges (reader : HttpAssetReader) (call : ReadCall) : Prop :=
  (resolveReadRange call.offset call.size reader.metadata.size).outcome = .transfer ∧
    call.dstIsNull = false

def refused (reader : HttpAssetReader) (transport : Transport) (call : ReadCall) (wire : Wire) :
    Bool :=
  reader.roundsRefused transport call.offset call.size
    (resolveReadRange call.offset call.size reader.metadata.size).length
    reader.options.retryBudget reader.options.retryBudget 0 { wire with dst := call.dst }

theorem read_counts (reader : HttpAssetReader) (transport : Transport) (call : ReadCall)
    (wire : Wire) :
    ∃ sent spent followed,
      Tally wire (reader.readCall transport call wire).2 sent spent followed ∧
      spent ≤ reader.options.retryBudget ∧
      (reader.Exchanges call →
        Balanced sent spent followed (reader.refused transport call wire)) := by
  have idle : Tally wire { wire with dst := call.dst } [] 0 0 :=
    ⟨(List.append_nil _).symm, rfl, rfl, rfl, rfl, rfl⟩
  simp only [readCall, read]
  split
  · rename_i overflow
    refine ⟨[], 0, 0, idle, Nat.zero_le _, ?_⟩
    rintro ⟨transfers, _⟩
    rw [transfers] at overflow
    cases overflow
  · split
    · rename_i isNull
      refine ⟨[], 0, 0, idle, Nat.zero_le _, ?_⟩
      rintro ⟨_, notNull⟩
      rw [notNull] at isNull
      exact absurd isNull.2 Bool.false_ne_true
    · split
      · rename_i empty
        refine ⟨[], 0, 0, idle, Nat.zero_le _, ?_⟩
        rintro ⟨transfers, _⟩
        rw [transfers] at empty
        cases empty
      · rcases reader.readLoop_counts transport call.offset call.size
          (resolveReadRange call.offset call.size reader.metadata.size).length
          reader.options.retryBudget reader.options.retryBudget 0 { wire with dst := call.dst }
          with ⟨sent, spent, followed, counts, within, balanced⟩
        refine ⟨sent, spent, followed, ?_, within, fun _ => balanced⟩
        exact { counts with }

end HttpAssetReader

/-! ### One open -/

theorem httpOpen_counts {url : Bytes} {uri : Uri} (parsed : parseUri url = .ok uri)
    (options : HttpOptions) (transport : Transport) (wire : Wire) :
    ∃ sent spent followed,
      Tally wire (httpOpen url options (some transport) wire).2 sent spent followed ∧
      spent ≤ options.retryBudget ∧
      Balanced sent spent followed
        ((openArgs transport options uri).refused uri options.retryBudget wire) := by
  rcases (openArgs transport options uri).performExchange_counts uri options.retryBudget wire with
    ⟨sent, spent, followed, counts, within, balanced⟩
  refine ⟨sent, spent, followed, ?_, by omega, balanced⟩
  rcases exchanged : (openArgs transport options uri).performExchange uri options.retryBudget wire
    with ⟨exchange, left, after⟩
  rw [exchanged] at counts
  simp only [httpOpen, parsed, exchanged]
  split <;> exact counts

/-! ### The metrics of a reader -/

/-- `ReaderMetrics`, as far as a transport counts into it. -/
structure ReaderMetrics where
  requestCount : ℕ := 0
  metadataRequestCount : ℕ := 0
  retryCount : ℕ := 0
  redirectCount : ℕ := 0
  bytesTransferred : ℕ := 0
  deriving DecidableEq, Repr

namespace ReaderMetrics

def addRequest (metrics : ReaderMetrics) (count : ℕ) : ReaderMetrics :=
  { metrics with requestCount := metrics.requestCount + count }

def addMetadataRequest (metrics : ReaderMetrics) (count : ℕ) : ReaderMetrics :=
  { metrics with
    metadataRequestCount := metrics.metadataRequestCount + count
    requestCount := metrics.requestCount + count }

def addRetry (metrics : ReaderMetrics) (count : ℕ) : ReaderMetrics :=
  { metrics with retryCount := metrics.retryCount + count }

def addRedirect (metrics : ReaderMetrics) (count : ℕ) : ReaderMetrics :=
  { metrics with redirectCount := metrics.redirectCount + count }

def addBytesTransferred (metrics : ReaderMetrics) (bytes : ℕ) : ReaderMetrics :=
  { metrics with bytesTransferred := metrics.bytesTransferred + bytes }

def request (metrics : ReaderMetrics) (metadata : Bool) (bytes : ℕ) : ReaderMetrics :=
  (if metadata then metrics.addMetadataRequest 1 else metrics.addRequest 1).addBytesTransferred
    bytes

/-- The counters as a sink; a `ReaderSink` counts into them directly. -/
def sink (metrics : ReaderMetrics) : RequestSink where
  requests := metrics.requestCount
  metadataRequests := metrics.metadataRequestCount
  retries := metrics.retryCount
  redirects := metrics.redirectCount
  bytesTransferred := metrics.bytesTransferred

def ofSink (sink : RequestSink) : ReaderMetrics where
  requestCount := sink.requests
  metadataRequestCount := sink.metadataRequests
  retryCount := sink.retries
  redirectCount := sink.redirects
  bytesTransferred := sink.bytesTransferred

end ReaderMetrics

/-- `PendingSink::ReplayInto`: metadata requests are requests already. -/
def RequestSink.replayInto (pending : RequestSink) (metrics : ReaderMetrics) : ReaderMetrics :=
  ((((metrics.addRequest (pending.requests - pending.metadataRequests)).addMetadataRequest
    pending.metadataRequests).addRetry pending.retries).addRedirect
      pending.redirects).addBytesTransferred pending.bytesTransferred

theorem RequestSink.sink_replayInto {pending : RequestSink}
    (subset : pending.metadataRequests ≤ pending.requests) :
    (pending.replayInto {}).sink = pending := by
  cases pending
  simp only [replayInto, ReaderMetrics.sink, ReaderMetrics.addRequest,
    ReaderMetrics.addMetadataRequest, ReaderMetrics.addRetry, ReaderMetrics.addRedirect,
    ReaderMetrics.addBytesTransferred, Nat.zero_add, RequestSink.mk.injEq, and_true]
  exact Nat.sub_add_cancel subset

/-- The part of a whole set that a transport counts into. -/
def ReaderMetrics.ofSet (set : UsdAsset.ReaderMetrics) : ReaderMetrics where
  requestCount := set.requestCount
  metadataRequestCount := set.metadataRequestCount
  retryCount := set.retryCount
  redirectCount := set.redirectCount
  bytesTransferred := set.bytesTransferred

/-- What `ReaderSink::Request` tells the set. -/
def requestOperations (metadata : Bool) (bytes microseconds : ℕ) : List Operation :=
  [if metadata then .addMetadataRequest 1 else .addRequest 1, .addBytesTransferred bytes,
    .recordRequestLatency microseconds]

/-- What `PendingSink::ReplayInto` tells the set. -/
def RequestSink.replayOperations (pending : RequestSink) (samples : List ℕ) : List Operation :=
  [.addRequest (pending.requests - pending.metadataRequests),
    .addMetadataRequest pending.metadataRequests, .addRetry pending.retries,
    .addRedirect pending.redirects, .addBytesTransferred pending.bytesTransferred] ++
    samples.map .recordRequestLatency

theorem ReaderMetrics.ofSet_request (set : UsdAsset.ReaderMetrics) (metadata : Bool)
    (bytes microseconds : ℕ) :
    ofSet ((requestOperations metadata bytes microseconds).foldl .perform set) =
      (ofSet set).request metadata bytes := by
  cases metadata <;> rfl

theorem ReaderMetrics.ofSet_replay (set : UsdAsset.ReaderMetrics) (pending : RequestSink)
    (samples : List ℕ) :
    ofSet ((pending.replayOperations samples).foldl .perform set) =
      pending.replayInto (ofSet set) := by
  have timed : ∀ set : UsdAsset.ReaderMetrics,
      ofSet ((samples.map .recordRequestLatency).foldl .perform set) = ofSet set := by
    induction samples with
    | nil => exact fun _ => rfl
    | cons sample samples ih => exact fun set => ih _
  rw [RequestSink.replayOperations, List.foldl_append, timed]
  rfl

/-- An open counts into a sink of its own, which is replayed where there is a reader. -/
def openMetered (url : Bytes) (options : HttpOptions) (transport : Transport) (wire : Wire) :
    Except Status (HttpAssetReader × ReaderMetrics) × Wire :=
  match httpOpen url options (some transport) { wire with sink := {} } with
  | (.error status, after) => (.error status, after)
  | (.ok reader, after) => (.ok (reader, after.sink.replayInto {}), after)

/-- A read counts into the metrics of its reader. -/
def HttpAssetReader.readMetered (reader : HttpAssetReader) (transport : Transport)
    (state : ReaderMetrics × Wire) (call : ReadCall) : ReaderMetrics × Wire :=
  let after := (reader.readCall transport call { state.2 with sink := state.1.sink }).2
  (.ofSink after.sink, after)

/-- The wire with the counters of a reader for its sink. -/
def metered (state : ReaderMetrics × Wire) : Wire := { state.2 with sink := state.1.sink }

theorem metered_readMetered (reader : HttpAssetReader) (transport : Transport)
    (state : ReaderMetrics × Wire) (call : ReadCall) :
    metered (reader.readMetered transport state call) =
      (reader.readCall transport call (metered state)).2 := rfl

theorem reads_counts (reader : HttpAssetReader) (transport : Transport) (calls : List ReadCall)
    (state : ReaderMetrics × Wire) :
    ∃ sent spent followed,
      Tally (metered state) (metered (calls.foldl (reader.readMetered transport) state)) sent spent
        followed := by
  induction calls generalizing state with
  | nil => exact ⟨[], 0, 0, .refl _⟩
  | cons call rest ih =>
    rcases reader.read_counts transport call (metered state) with
      ⟨sent, spent, followed, counts, _⟩
    rcases ih (reader.readMetered transport state call) with ⟨later, _, _, countsLater⟩
    rw [← metered_readMetered] at counts
    exact ⟨sent ++ later, _, _, counts.trans countsLater⟩

theorem openMetered_opens {url : Bytes} {options : HttpOptions} {transport : Transport}
    {wire opened : Wire} {reader : HttpAssetReader} {metrics : ReaderMetrics}
    (opens : openMetered url options transport wire = (.ok (reader, metrics), opened)) :
    httpOpen url options (some transport) { wire with sink := {} } = (.ok reader, opened) ∧
      metrics = opened.sink.replayInto {} := by
  simp only [openMetered] at opens
  split at opens
  · cases opens
  · rename_i made
    cases opens
    exact ⟨made, rfl⟩

theorem Tally.metered_replay {wire opened : Wire} {sent : List Sent} {retries redirects : ℕ}
    (counts : Tally { wire with sink := {} } opened sent retries redirects) :
    metered (opened.sink.replayInto {}, opened) = opened := by
  have subset : opened.sink.metadataRequests ≤ opened.sink.requests := by
    rw [counts.metadataRequests, counts.requests]
    exact Nat.add_le_add_left (List.countP_le_length) _
  rw [metered, RequestSink.sink_replayInto subset]

theorem retryBudget_eq (options : HttpOptions) :
    (options.retryBudget : Int) = max options.maxAttempts 1 - 1 := by
  simp only [HttpOptions.retryBudget]
  split <;> omega

/-- What one operation adds to the metrics: a request for itself and for everything it announces,
but one less where the last of these is refused. -/
def Charged (options : HttpOptions) (before after : ReaderMetrics) (refused : Bool) : Prop :=
  ∃ requests retries redirects : ℕ,
    after.requestCount = before.requestCount + requests ∧
    after.retryCount = before.retryCount + retries ∧
    after.redirectCount = before.redirectCount + redirects ∧
    requests + (if refused then 1 else 0) = 1 + retries + redirects ∧
    (retries : Int) ≤ max options.maxAttempts 1 - 1

theorem Tally.charged {options : HttpOptions} {before after : ReaderMetrics × Wire}
    {sent : List Sent} {spent followed : ℕ} {refused : Bool}
    (counts : Tally (metered before) (metered after) sent spent followed)
    (within : spent ≤ options.retryBudget) (balanced : Balanced sent spent followed refused) :
    Charged options before.1 after.1 refused := by
  refine ⟨sent.length, spent, followed, counts.requests, counts.retries, counts.redirects, ?_, ?_⟩
  · cases refused <;> exact balanced
  · rw [← retryBudget_eq]
    exact Int.ofNat_le.mpr within

/-- The counters of a reader are those of the requests its open and its reads made, and every
operation that makes an exchange is charged for what it announced. -/
theorem transportAccounting {url : Bytes} {options : HttpOptions} {transport : Transport}
    {wire opened : Wire} {reader : HttpAssetReader} {metrics : ReaderMetrics}
    (opens : openMetered url options transport wire = (.ok (reader, metrics), opened))
    (calls : List ReadCall) :
    let state := calls.foldl (reader.readMetered transport) (metrics, opened)
    (∃ sent, state.2.trace = wire.trace ++ sent ∧
      state.1.requestCount = sent.length ∧
      state.1.metadataRequestCount = sent.countP Sent.isMetadata ∧
      state.1.bytesTransferred = bodyTotal sent) ∧
    (∃ uri, parseUri url = .ok uri ∧
      Charged options {} metrics
        ((openArgs transport options uri).refused uri options.retryBudget
          { wire with sink := {} })) ∧
    ∀ call, reader.Exchanges call →
      Charged options state.1 (reader.readMetered transport state call).1
        (reader.refused transport call (metered state)) := by
  intro state
  rcases openMetered_opens opens with ⟨made, rfl⟩
  rcases httpOpen_opened made with ⟨uri, _, _, _, capture⟩
  rcases httpOpen_counts capture.parsed options transport { wire with sink := {} } with
    ⟨sent, spent, followed, counts, within, balanced⟩
  rw [made] at counts
  have replayed := counts.metered_replay
  refine ⟨?_, ⟨uri, capture.parsed, ?_⟩, ?_⟩
  · rcases reads_counts reader transport calls (opened.sink.replayInto {}, opened) with
      ⟨later, _, _, countsLater⟩
    rw [replayed] at countsLater
    have total := counts.trans countsLater
    refine ⟨sent ++ later, total.trace, ?_, ?_, ?_⟩
    · exact total.requests.trans (Nat.zero_add _)
    · exact total.metadataRequests.trans (Nat.zero_add _)
    · exact total.bytesTransferred.trans (Nat.zero_add _)
  · have fromNothing : Tally (metered ({}, wire)) (metered (opened.sink.replayInto {}, opened))
        sent spent followed := by
      rw [replayed]
      exact counts
    exact fromNothing.charged within balanced
  · intro call exchanges
    rcases reader.read_counts transport call (metered state) with
      ⟨sent, spent, followed, countsRead, withinRead, balancedRead⟩
    rw [← metered_readMetered] at countsRead
    rw [capture.options_eq] at withinRead
    exact countsRead.charged withinRead (balancedRead exchanges)

/-- A read that is resumed after its connection was lost. -/
theorem transportAccounting_resumed :
    ∃ metrics, openMetered (bytes "http://host/a") {} lossyServer {} =
        (.ok (pairReader, metrics), pairOpened) ∧
      (pairReader.readMetered lossyServer (metrics, pairOpened) ⟨0, fun _ => 0, false, 2⟩).1 =
        ⟨3, 1, 1, 0, 2⟩ ∧
      Charged {} metrics
        (pairReader.readMetered lossyServer (metrics, pairOpened) ⟨0, fun _ => 0, false, 2⟩).1
        false := by
  refine ⟨⟨1, 1, 0, 0, 0⟩, rfl, by decide +kernel, ?_⟩
  have opens : openMetered (bytes "http://host/a") {} lossyServer {} =
      (.ok (pairReader, ⟨1, 1, 0, 0, 0⟩), pairOpened) := rfl
  have charged := (transportAccounting opens []).2.2 ⟨0, fun _ => 0, false, 2⟩
    ⟨by decide +kernel, rfl⟩
  have notRefused : pairReader.refused lossyServer ⟨0, fun _ => 0, false, 2⟩
      (metered (⟨1, 1, 0, 0, 0⟩, pairOpened)) = false := by
    decide +kernel
  rw [List.foldl_nil, notRefused] at charged
  exact charged

end UsdAsset.Http
