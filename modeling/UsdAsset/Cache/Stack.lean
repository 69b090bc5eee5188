import UsdAsset.Io.Metrics
import UsdAsset.Lib.Machine

/-!
# A stack is counted once

Models what `CachedAssetReader.cpp` does with counters: the constructor and the destructor
of `Impl`, and `SnapshotMetrics`.  A cached reader has a set of its own beside that of the
reader it decorates.  It detaches the inner set when it is made and absorbs the transport
counters of it when it is destroyed, so that only the outer set reaches the registry.

A process opens readers, decorates some of them and destroys them while others go on.  The
destructor of a cached reader takes three steps, between which other readers take theirs:
the body of `~Impl`, then the set of the cached reader, then the inner reader with its set.
-/

namespace UsdAsset.Cache.Stack

open LatencyHistogram (recorded)

/-! ### Readers -/

/-- What a cached reader tells its own set; its constructor alone sets the size. -/
def madeByCache : Operation → Bool
  | .addBytesRequested _ | .addBytesFromCache _ | .addBlockHit _ | .addBlockMiss _
  | .addPartialHit _ | .addRequestsSavedByCoalescing _ | .addRequestsSavedBySingleFlight _
  | .addBytesOverFetched _ | .addEviction _ | .addPersistedHit _ | .addPersistedWrite _
  | .observeResidentBytes _ | .recordReadLatency _ => true
  | _ => false

abbrev CacheOperation := { operation : Operation // madeByCache operation = true }

/-- How far a reader is destroyed. -/
inductive Stage where
  | live
  | absorbed
  | folded
  | gone
  deriving DecidableEq, Repr

structure Reader where
  resolvedIdentifier : Bytes
  size : ℕ
  transport : ReaderMetrics
  cache : Option ReaderMetrics := none
  stage : Stage := .live

/-- The set of a reader of an asset, before the reader tells it anything. -/
def openedSet (resolvedIdentifier : Bytes) (size : ℕ) : ReaderMetrics :=
  (ReaderMetrics.named resolvedIdentifier).perform (.setAssetSize size)

/-- What a reader can do, or can be done to it. -/
inductive Action where
  | wrap
  | transport (operation : Operation)
  | cache (operation : CacheOperation)
  | close

namespace Reader

def opened (resolvedIdentifier : Bytes) (size : ℕ) : Reader where
  resolvedIdentifier := resolvedIdentifier
  size := size
  transport := openedSet resolvedIdentifier size

/-- The constructor of `CachedAssetReader::Impl`. -/
def wrap (reader : Reader) : Option Reader :=
  match reader.stage, reader.cache with
  | .live, none =>
      some { reader with
        transport := reader.transport.detachFromRegistry
        cache := some (openedSet reader.resolvedIdentifier reader.size) }
  | _, _ => none

/-- The next step of the destructor, and the set that reaches the registry by it. -/
def close (reader : Reader) : Option (Reader × Option ReaderMetrics) :=
  match reader.stage, reader.cache with
  | .live, none => some ({ reader with stage := .gone }, reader.transport.folded)
  | .live, some cache =>
      some ({ reader with
        cache := some (cache.absorbTransport reader.transport), stage := .absorbed }, none)
  | .absorbed, some cache => some ({ reader with stage := .folded }, cache.folded)
  | .folded, some _ => some ({ reader with stage := .gone }, reader.transport.folded)
  | _, _ => none

def take (reader : Reader) : Action → Option (Reader × Option ReaderMetrics)
  | .wrap => reader.wrap.map fun next => (next, none)
  | .transport operation =>
      match reader.stage with
      | .live => some ({ reader with transport := reader.transport.perform operation }, none)
      | _ => none
  | .cache operation =>
      match reader.stage, reader.cache with
      | .live, some cache => some ({ reader with cache := some (cache.perform operation) }, none)
      | _, _ => none
  | .close => reader.close

def snapshotMetrics (reader : Reader) : MetricsSnapshot :=
  match reader.cache with
  | none => reader.transport.snapshot
  | some cache => cache.snapshot.absorbTransport reader.transport.snapshot

/-- The set that faces the caller. -/
def face (reader : Reader) : ReaderMetrics := reader.cache.getD reader.transport

end Reader

/-! ### The process -/

inductive Event where
  | opened (resolvedIdentifier : Bytes) (size : ℕ)
  | acts (reader : ℕ) (action : Action)

structure Process where
  readers : List Reader := []
  registry : MetricsRegistry := {}

namespace Process

/-- The set that a step folds into the registry. -/
def folds (process : Process) : Event → Option ReaderMetrics
  | .opened _ _ => none
  | .acts index action =>
      ((process.readers[index]?).bind fun reader => reader.take action).bind Prod.snd

def step (process : Process) : Event → Option Process
  | .opened resolvedIdentifier size =>
      some { process with readers := process.readers ++ [.opened resolvedIdentifier size] }
  | .acts index action => do
      let reader ← process.readers[index]?
      let taken ← reader.take action
      return {
        readers := process.readers.set index taken.1
        registry := (process.folds (.acts index action)).elim process.registry
          process.registry.fold }

/-- What a reader folds into the registry along a run. -/
def contributions (index : ℕ) : Process → List Event → List ReaderMetrics
  | _, [] => []
  | process, event :: rest =>
      match process.step event, event with
      | none, _ => []
      | some next, .opened _ _ => next.contributions index rest
      | some next, .acts place _ =>
          (if place = index then (process.folds event).toList else []) ++
            next.contributions index rest

end Process

/-! ### What a reader told its sets -/

/-- What the event told the set of the transport reader at a position. -/
def Event.transportOperation (index : ℕ) : Event → Option Operation
  | .acts place (.transport operation) => if place = index then some operation else none
  | _ => none

def Event.cacheOperation (index : ℕ) : Event → Option CacheOperation
  | .acts place (.cache operation) => if place = index then some operation else none
  | _ => none

def transportOperations (events : List Event) (index : ℕ) : List Operation :=
  events.filterMap (Event.transportOperation index)

def cacheOperations (events : List Event) (index : ℕ) : List CacheOperation :=
  events.filterMap (Event.cacheOperation index)

/-- Of a decorated reader, the caller sees the cache only. -/
def Reader.callerOperations (events : List Event) (reader : Reader) (index : ℕ) :
    List Operation :=
  match reader.cache with
  | none => transportOperations events index
  | some _ => (cacheOperations events index).map Subtype.val

def openSample : Operation → Option ℕ
  | .recordOpenLatency microseconds => some microseconds
  | _ => none

def requestSample : Operation → Option ℕ
  | .recordRequestLatency microseconds => some microseconds
  | _ => none

def readSample : Operation → Option ℕ
  | .recordReadLatency microseconds => some microseconds
  | _ => none

def Process.samples (process : Process) (operations : Reader → ℕ → List Operation)
    (sample : Operation → Option ℕ) : List ℕ :=
  process.readers.zipIdx.flatMap fun entry => (operations entry.1 entry.2).filterMap sample

/-- What the registry holds when no reader is left. -/
structure Process.Settled (events : List Event) (process : Process) : Prop where
  requestCount : process.registry.aggregate.requestCount =
    (process.readers.map fun reader => reader.transport.requestCount).sum
  metadataRequestCount : process.registry.aggregate.metadataRequestCount =
    (process.readers.map fun reader => reader.transport.metadataRequestCount).sum
  retryCount : process.registry.aggregate.retryCount =
    (process.readers.map fun reader => reader.transport.retryCount).sum
  redirectCount : process.registry.aggregate.redirectCount =
    (process.readers.map fun reader => reader.transport.redirectCount).sum
  bytesTransferred : process.registry.aggregate.bytesTransferred =
    (process.readers.map fun reader => reader.transport.bytesTransferred).sum
  bytesRequested : process.registry.aggregate.bytesRequested =
    (process.readers.map fun reader => reader.face.bytesRequested).sum
  openLatency : process.registry.openLatency.Tallies
    (process.samples (fun _ => transportOperations events) openSample)
  requestLatency : process.registry.requestLatency.Tallies
    (process.samples (fun _ => transportOperations events) requestSample)
  readLatency : process.registry.readLatency.Tallies
    (process.samples (Reader.callerOperations events) readSample)

/-! ### Sets -/

def performed (metrics : ReaderMetrics) (operations : List Operation) : ReaderMetrics :=
  operations.foldl ReaderMetrics.perform metrics

section

variable (metrics : ReaderMetrics)

include metrics

@[simp]
theorem performed_append (operations : List Operation) (operation : Operation) :
    performed metrics (operations ++ [operation]) =
      (performed metrics operations).perform operation := by
  rw [performed, List.foldl_concat, performed]

theorem perform_detachFromRegistry (operation : Operation) :
    metrics.detachFromRegistry.perform operation =
      (metrics.perform operation).detachFromRegistry := by
  cases operation <;> rfl

@[simp]
theorem detached_perform (operation : Operation) :
    (metrics.perform operation).detached = metrics.detached := by
  cases operation <;> rfl

@[simp]
theorem detached_performed (operations : List Operation) :
    (performed metrics operations).detached = metrics.detached := by
  induction operations generalizing metrics with
  | nil => rfl
  | cons operation operations ih => exact (ih _).trans (detached_perform metrics operation)

theorem openLatency_performed (operations : List Operation) :
    (performed metrics operations).openLatency =
      (operations.filterMap openSample).foldl LatencyHistogram.record metrics.openLatency := by
  induction operations generalizing metrics with
  | nil => rfl
  | cons operation operations ih => cases operation <;> exact ih _

theorem requestLatency_performed (operations : List Operation) :
    (performed metrics operations).requestLatency =
      (operations.filterMap requestSample).foldl LatencyHistogram.record
        metrics.requestLatency := by
  induction operations generalizing metrics with
  | nil => rfl
  | cons operation operations ih => cases operation <;> exact ih _

theorem readLatency_performed (operations : List Operation) :
    (performed metrics operations).readLatency =
      (operations.filterMap readSample).foldl LatencyHistogram.record metrics.readLatency := by
  induction operations generalizing metrics with
  | nil => rfl
  | cons operation operations ih => cases operation <;> exact ih _

end

/-- A set in which nothing crossed a transport. -/
structure TransportFree (metrics : ReaderMetrics) : Prop where
  bytesTransferred : metrics.bytesTransferred = 0
  requestCount : metrics.requestCount = 0
  metadataRequestCount : metrics.metadataRequestCount = 0
  retryCount : metrics.retryCount = 0
  redirectCount : metrics.redirectCount = 0
  openLatency : metrics.openLatency = 0
  requestLatency : metrics.requestLatency = 0

namespace TransportFree

variable {metrics : ReaderMetrics}

theorem perform (free : TransportFree metrics) (operation : CacheOperation) :
    TransportFree (metrics.perform operation) := by
  rcases operation with ⟨operation, made⟩
  rcases free with ⟨bytesTransferred, requestCount, metadataRequestCount, retryCount,
    redirectCount, openLatency, requestLatency⟩
  cases operation <;>
    first
    | exact ⟨bytesTransferred, requestCount, metadataRequestCount, retryCount, redirectCount,
        openLatency, requestLatency⟩
    | cases made

theorem performed (free : TransportFree metrics) (operations : List CacheOperation) :
    TransportFree (performed metrics (operations.map Subtype.val)) := by
  induction operations generalizing metrics with
  | nil => exact free
  | cons operation operations ih => exact ih (free.perform operation)

theorem openedSet (resolvedIdentifier : Bytes) (size : ℕ) :
    TransportFree (openedSet resolvedIdentifier size) :=
  ⟨rfl, rfl, rfl, rfl, rfl, rfl, rfl⟩

variable (free : TransportFree metrics) (inner : ReaderMetrics)

include free inner

theorem openLatency_absorb : (metrics.absorbTransport inner).openLatency = inner.openLatency := by
  have folded : (metrics.absorbTransport inner).openLatency =
      metrics.openLatency + inner.openLatency := rfl
  rw [folded, free.openLatency, zero_add]

theorem requestLatency_absorb :
    (metrics.absorbTransport inner).requestLatency = inner.requestLatency := by
  have folded : (metrics.absorbTransport inner).requestLatency =
      metrics.requestLatency + inner.requestLatency := rfl
  rw [folded, free.requestLatency, zero_add]

theorem snapshot_absorbTransport :
    metrics.snapshot.absorbTransport inner.snapshot = (metrics.absorbTransport inner).snapshot := by
  simp only [ReaderMetrics.snapshot, free.openLatency_absorb, free.requestLatency_absorb]
  rfl

end TransportFree

/-! ### What the sets of a reader hold -/

def Reader.transportSet (events : List Event) (index : ℕ) (reader : Reader) : ReaderMetrics :=
  performed (openedSet reader.resolvedIdentifier reader.size) (transportOperations events index)

def Reader.cacheSet (events : List Event) (index : ℕ) (reader : Reader) : ReaderMetrics :=
  performed (openedSet reader.resolvedIdentifier reader.size)
    ((cacheOperations events index).map Subtype.val)

/-- The sets of a reader are those of what it told them. -/
structure Reader.Follows (events : List Event) (index : ℕ) (reader : Reader) : Prop where
  transport : reader.transport =
    if reader.cache.isSome then (reader.transportSet events index).detachFromRegistry
    else reader.transportSet events index
  undecorated : reader.cache = none → cacheOperations events index = []
  cache : ∀ cache, reader.cache = some cache →
    cache =
      if reader.stage = .live then reader.cacheSet events index
      else (reader.cacheSet events index).absorbTransport reader.transport

@[simp]
theorem transportOperations_append (events : List Event) (event : Event) (index : ℕ) :
    transportOperations (events ++ [event]) index =
      transportOperations events index ++ (event.transportOperation index).toList := by
  rw [transportOperations, List.filterMap_append, ← transportOperations]
  cases told : event.transportOperation index <;> simp [told]

@[simp]
theorem cacheOperations_append (events : List Event) (event : Event) (index : ℕ) :
    cacheOperations (events ++ [event]) index =
      cacheOperations events index ++ (event.cacheOperation index).toList := by
  rw [cacheOperations, List.filterMap_append, ← cacheOperations]
  cases told : event.cacheOperation index <;> simp [told]

theorem Event.silent {index place : ℕ} (other : place ≠ index) (action : Action) :
    (Event.acts place action).transportOperation index = none ∧
      (Event.acts place action).cacheOperation index = none := by
  cases action <;> simp [transportOperation, cacheOperation, other]

/-- All that can happen to a reader. -/
inductive Reader.Takes (reader : Reader) : Action → Reader → Option ReaderMetrics → Prop where
  | wrap (live : reader.stage = .live) (plain : reader.cache = none) :
      Takes reader .wrap
        { reader with
          transport := reader.transport.detachFromRegistry
          cache := some (openedSet reader.resolvedIdentifier reader.size) } none
  | transport (live : reader.stage = .live) (operation : Operation) :
      Takes reader (.transport operation)
        { reader with transport := reader.transport.perform operation } none
  | cache (live : reader.stage = .live) {metrics : ReaderMetrics}
      (decorated : reader.cache = some metrics) (operation : CacheOperation) :
      Takes reader (.cache operation)
        { reader with cache := some (metrics.perform operation) } none
  | closePlain (live : reader.stage = .live) (plain : reader.cache = none) :
      Takes reader .close { reader with stage := .gone } reader.transport.folded
  | absorb (live : reader.stage = .live) {metrics : ReaderMetrics}
      (decorated : reader.cache = some metrics) :
      Takes reader .close
        { reader with
          cache := some (metrics.absorbTransport reader.transport), stage := .absorbed } none
  | fold (absorbed : reader.stage = .absorbed) {metrics : ReaderMetrics}
      (decorated : reader.cache = some metrics) :
      Takes reader .close { reader with stage := .folded } metrics.folded
  | destroyInner (folded : reader.stage = .folded) {metrics : ReaderMetrics}
      (decorated : reader.cache = some metrics) :
      Takes reader .close { reader with stage := .gone } reader.transport.folded

variable {reader next : Reader} {action : Action} {folded : Option ReaderMetrics}

theorem Reader.takes (taken : reader.take action = some (next, folded)) :
    reader.Takes action next folded := by
  rcases reader with ⟨resolvedIdentifier, size, transport, cache, stage⟩
  cases action with
  | wrap =>
    cases stage <;> cases cache <;> cases taken
    exact .wrap rfl rfl
  | transport operation =>
    cases stage <;> cases taken
    exact .transport rfl operation
  | cache operation =>
    cases stage <;> cases cache <;> cases taken
    exact .cache rfl rfl operation
  | close =>
    cases stage <;> cases cache <;> cases taken
    · exact .closePlain rfl rfl
    · exact .absorb rfl rfl
    · exact .fold rfl rfl
    · exact .destroyInner rfl rfl

namespace Reader.Follows

variable {events : List Event} {index : ℕ}

theorem opened {resolvedIdentifier : Bytes} {size : ℕ}
    (untold : transportOperations events index = [] ∧ cacheOperations events index = []) :
    (Reader.opened resolvedIdentifier size).Follows events index := by
  refine ⟨?_, fun _ => untold.2, nofun⟩
  rw [Reader.transportSet, untold.1]
  rfl

theorem silent (follows : reader.Follows events index) (event : Event)
    (silent : event.transportOperation index = none ∧ event.cacheOperation index = none) :
    reader.Follows (events ++ [event]) index := by
  rcases follows with ⟨transport, undecorated, cache⟩
  refine ⟨?_, ?_, ?_⟩
  · simpa [Reader.transportSet, silent.1] using transport
  · simpa [silent.2] using undecorated
  · simpa [Reader.cacheSet, silent.2] using cache

theorem take (follows : reader.Follows events index)
    (takes : reader.Takes action next folded) :
    next.Follows (events ++ [.acts index action]) index := by
  cases takes with
  | wrap live plain =>
    have quiet := follows.silent (.acts index .wrap) ⟨rfl, rfl⟩
    refine ⟨?_, nofun, ?_⟩
    · have before := quiet.transport
      simp only [plain, Option.isSome_none, Bool.false_eq_true, if_false] at before
      simp only [Option.isSome_some, if_true, before]
      rfl
    · intro metrics same
      cases same
      rw [if_pos live, Reader.cacheSet, quiet.undecorated plain]
      rfl
  | transport live operation =>
    refine ⟨?_, ?_, ?_⟩
    · have told : reader.transportSet (events ++ [.acts index (.transport operation)]) index =
          (reader.transportSet events index).perform operation := by
        simp [Reader.transportSet, Event.transportOperation]
      have before := follows.transport
      split at before
      · rename_i decorated
        rw [if_pos decorated, before, perform_detachFromRegistry, ← told]
        rfl
      · rename_i plain
        rw [if_neg plain, before, ← told]
        rfl
    · simpa [Event.cacheOperation] using follows.undecorated
    · simpa [Event.cacheOperation, Reader.cacheSet, live] using follows.cache
  | cache live decorated operation =>
    have told : reader.cacheSet (events ++ [.acts index (.cache operation)]) index =
        (reader.cacheSet events index).perform operation := by
      simp [Reader.cacheSet, Event.cacheOperation]
    refine ⟨?_, nofun, ?_⟩
    · simpa [Reader.transportSet, Event.transportOperation, decorated] using follows.transport
    · intro metrics same
      cases same
      have before := follows.cache _ decorated
      rw [if_pos live] at before
      rw [if_pos live, before]
      exact told.symm
  | closePlain live plain =>
    have quiet := follows.silent (.acts index .close) ⟨rfl, rfl⟩
    refine ⟨quiet.transport, quiet.undecorated, ?_⟩
    intro metrics same
    rw [plain] at same
    cases same
  | absorb live decorated =>
    have quiet := follows.silent (.acts index .close) ⟨rfl, rfl⟩
    refine ⟨?_, nofun, ?_⟩
    · simpa [Reader.transportSet, decorated] using quiet.transport
    · intro metrics same
      cases same
      have before := quiet.cache _ decorated
      rw [if_pos live] at before
      rw [if_neg nofun, before]
      rfl
  | fold begun _ | destroyInner begun _ =>
    have quiet := follows.silent (.acts index .close) ⟨rfl, rfl⟩
    refine ⟨quiet.transport, quiet.undecorated, ?_⟩
    simpa [Reader.cacheSet, begun] using quiet.cache

end Reader.Follows

/-! ### What reaches the registry -/

/-- Of the sets of a reader, the one that faces the caller is folded. -/
structure Reader.Attached (reader : Reader) : Prop where
  transport : reader.transport.detached = reader.cache.isSome
  cache : ∀ cache, reader.cache = some cache → cache.detached = false

namespace Reader.Attached

theorem folded_plain (attached : reader.Attached) (plain : reader.cache = none) :
    reader.transport.folded = some reader.transport := by
  rw [ReaderMetrics.folded, attached.transport, plain]
  rfl

theorem folded_cache (attached : reader.Attached) {cache : ReaderMetrics}
    (decorated : reader.cache = some cache) : cache.folded = some cache := by
  rw [ReaderMetrics.folded, attached.cache cache decorated]
  rfl

theorem folded_inner (attached : reader.Attached) {cache : ReaderMetrics}
    (decorated : reader.cache = some cache) : reader.transport.folded = none := by
  rw [ReaderMetrics.folded, attached.transport, decorated]
  rfl

end Reader.Attached

theorem Reader.Follows.attached {events : List Event} {index : ℕ}
    (follows : reader.Follows events index) : reader.Attached := by
  constructor
  · rw [follows.transport]
    split
    · rename_i decorated
      exact decorated.symm
    · rename_i plain
      rw [Reader.transportSet, detached_performed, Bool.eq_false_of_not_eq_true plain]
      rfl
  · intro cache decorated
    have own : (reader.cacheSet events index).detached = false := detached_performed _ _
    rw [follows.cache cache decorated]
    split <;> exact own

def Reader.counted (reader : Reader) : Bool :=
  match reader.cache, reader.stage with
  | none, .gone | some _, .folded | some _, .gone => true
  | _, _ => false

/-- An amount of which the registry holds the sum. -/
structure Measure (Amount : Type) [AddCommMonoid Amount] where
  ofReader : ReaderMetrics → Amount
  ofRegistry : MetricsRegistry → Amount
  ofRegistry_empty : ofRegistry {} = 0
  ofRegistry_fold : ∀ registry reader,
    ofRegistry (registry.fold reader) = ofRegistry registry + ofReader reader

namespace Measure

variable {Amount : Type} [AddCommMonoid Amount] (measure : Measure Amount)

/-- A counter that is added up. -/
def counter (field : Counters → ℕ) (zero : field {} = 0)
    (adds : ∀ snapshot other : MetricsSnapshot, field (snapshot.add other).toCounters =
      field snapshot.toCounters + field other.toCounters) : Measure ℕ where
  ofReader metrics := field metrics.toCounters
  ofRegistry registry := field registry.aggregate.toCounters
  ofRegistry_empty := zero
  ofRegistry_fold registry metrics := adds registry.aggregateSnapshot metrics.snapshot

def openLatency : Measure LatencyHistogram where
  ofReader := ReaderMetrics.openLatency
  ofRegistry := MetricsRegistry.openLatency
  ofRegistry_empty := rfl
  ofRegistry_fold _ _ := rfl

def requestLatency : Measure LatencyHistogram where
  ofReader := ReaderMetrics.requestLatency
  ofRegistry := MetricsRegistry.requestLatency
  ofRegistry_empty := rfl
  ofRegistry_fold _ _ := rfl

def readLatency : Measure LatencyHistogram where
  ofReader := ReaderMetrics.readLatency
  ofRegistry := MetricsRegistry.readLatency
  ofRegistry_empty := rfl
  ofRegistry_fold _ _ := rfl

/-- What the registry has from a reader. -/
def worth (reader : Reader) : Amount :=
  if reader.counted then measure.ofReader reader.face else 0

def given (folded : Option ReaderMetrics) : Amount := folded.elim 0 measure.ofReader

theorem ofRegistry_given (registry : MetricsRegistry) (folded : Option ReaderMetrics) :
    measure.ofRegistry (folded.elim registry registry.fold) =
      measure.ofRegistry registry + measure.given folded := by
  cases folded with
  | none => exact (add_zero _).symm
  | some metrics => exact measure.ofRegistry_fold registry metrics

theorem worth_take (attached : reader.Attached) (takes : reader.Takes action next folded) :
    measure.worth next = measure.worth reader + measure.given folded := by
  cases takes with
  | wrap live plain => simp [worth, given, Reader.counted, live, plain]
  | transport live operation =>
    cases cache : reader.cache <;> simp [worth, given, Reader.counted, live, cache]
  | cache live decorated operation => simp [worth, given, Reader.counted, live, decorated]
  | closePlain live plain =>
    simp [worth, given, Reader.counted, Reader.face, live, plain, attached.folded_plain plain]
  | absorb live decorated => simp [worth, given, Reader.counted, live, decorated]
  | fold absorbed decorated =>
    simp [worth, given, Reader.counted, Reader.face, absorbed, decorated,
      attached.folded_cache decorated]
  | destroyInner folded decorated =>
    simp [worth, given, Reader.counted, Reader.face, folded, decorated,
      attached.folded_inner decorated]

end Measure

/-! ### Along a run -/

namespace Process

variable {process after : Process} {events : List Event} {index : ℕ}

theorem step_acts (stepped : process.step (.acts index action) = some after) :
    ∃ reader next folded, process.readers[index]? = some reader ∧
      reader.Takes action next folded ∧ process.folds (.acts index action) = folded ∧
      after =
        ⟨process.readers.set index next, folded.elim process.registry process.registry.fold⟩ := by
  simp only [step, Option.bind_eq_bind, Option.bind_eq_some_iff] at stepped
  rcases stepped with ⟨reader, found, ⟨next, folded⟩, taken, same⟩
  have folds : process.folds (.acts index action) = folded := by
    simp [Process.folds, found, taken]
  rw [folds] at same
  exact ⟨reader, next, folded, found, Reader.takes taken, folds, (Option.some.inj same).symm⟩

/-- The sets are those of what was told, and the registry holds what the readers gave. -/
structure Books {Amount : Type} [AddCommMonoid Amount] (measure : Measure Amount)
    (events : List Event) (process : Process) : Prop where
  follows : ∀ index (reader : Reader), process.readers[index]? = some reader →
    reader.Follows events index
  untold : ∀ index, process.readers.length ≤ index →
    transportOperations events index = [] ∧ cacheOperations events index = []
  balanced : measure.ofRegistry process.registry = (process.readers.map measure.worth).sum

namespace Books

variable {Amount : Type} [AddCommMonoid Amount] {measure : Measure Amount}

theorem initial (measure : Measure Amount) : Books measure [] {} where
  follows := nofun
  untold := fun _ _ => ⟨rfl, rfl⟩
  balanced := measure.ofRegistry_empty

theorem opened (books : Books measure events process) (resolvedIdentifier : Bytes) (size : ℕ) :
    Books measure (events ++ [.opened resolvedIdentifier size])
      { process with readers := process.readers ++ [.opened resolvedIdentifier size] } := by
  refine ⟨?_, ?_, ?_⟩
  · intro index reader found
    rcases Machine.getElem?_append_singleton found with before | ⟨rfl, rfl⟩
    · exact (books.follows index reader before).silent _ ⟨rfl, rfl⟩
    · exact (Reader.Follows.opened (books.untold _ (Nat.le_refl _))).silent _ ⟨rfl, rfl⟩
  · intro index beyond
    rw [List.length_append] at beyond
    simpa [Event.transportOperation, Event.cacheOperation] using
      books.untold index (Nat.le_of_add_right_le beyond)
  · have nothing : measure.worth (.opened resolvedIdentifier size) = 0 := rfl
    rw [List.map_append, List.sum_append, ← books.balanced, List.map_singleton,
      List.sum_singleton, nothing, add_zero]

theorem acts {place : ℕ} (books : Books measure events process)
    (found : process.readers[place]? = some reader) (takes : reader.Takes action next folded) :
    Books measure (events ++ [.acts place action])
      ⟨process.readers.set place next, folded.elim process.registry process.registry.fold⟩ := by
  have follows := books.follows place reader found
  refine ⟨?_, ?_, ?_⟩
  · intro index other present
    rcases Machine.getElem?_set_cases present with ⟨rfl, rfl⟩ | ⟨different, before⟩
    · exact follows.take takes
    · exact (books.follows index other before).silent _ (Event.silent (Ne.symm different) action)
  · intro index beyond
    rw [List.length_set] at beyond
    have different : place ≠ index := by
      rintro rfl
      rw [List.getElem?_eq_none beyond] at found
      cases found
    have silent := Event.silent different action
    simpa [silent.1, silent.2] using books.untold index beyond
  · rw [measure.ofRegistry_given, books.balanced]
    exact (Machine.sum_map_set_add found (measure.worth_take follows.attached takes)).symm

theorem step {event : Event} (books : Books measure events process)
    (stepped : process.step event = some after) : Books measure (events ++ [event]) after := by
  cases event with
  | opened resolvedIdentifier size =>
    cases stepped
    exact books.opened resolvedIdentifier size
  | acts place action =>
    rcases step_acts stepped with ⟨reader, next, folded, found, takes, _, rfl⟩
    exact books.acts found takes

theorem of_run (measure : Measure Amount)
    (reached : Machine.run Process.step {} events = some process) :
    Books measure events process := by
  have books : Books measure ([] ++ events) process := by
    refine Machine.invariant_of_history ?_ (initial measure) reached
    intro past before event next books stepped
    exact books.step stepped
  exact books

theorem caller_side (books : Books measure events process)
    (closed : ∀ reader ∈ process.readers, reader.stage = .gone) :
    measure.ofRegistry process.registry =
      (process.readers.map fun reader => measure.ofReader reader.face).sum := by
  have counted : ∀ reader ∈ process.readers, measure.worth reader =
      measure.ofReader reader.face := by
    intro reader readerMem
    have gone := closed reader readerMem
    cases cache : reader.cache <;> simp [Measure.worth, Reader.counted, gone, cache]
  rw [books.balanced, List.map_congr_left counted]

theorem transport_side (books : Books measure events process)
    (closed : ∀ reader ∈ process.readers, reader.stage = .gone)
    (absorbs : ∀ {outer}, TransportFree outer → ∀ inner,
      measure.ofReader (outer.absorbTransport inner) = measure.ofReader inner) :
    measure.ofRegistry process.registry =
      (process.readers.map fun reader => measure.ofReader reader.transport).sum := by
  have same : ∀ reader ∈ process.readers, measure.ofReader reader.face =
      measure.ofReader reader.transport := by
    intro reader readerMem
    rcases List.getElem?_of_mem readerMem with ⟨index, found⟩
    have follows := books.follows index reader found
    cases decorated : reader.cache with
    | none => simp [Reader.face, decorated]
    | some cache =>
      have absorbed := follows.cache cache decorated
      rw [closed reader readerMem, if_neg nofun] at absorbed
      have free : TransportFree (reader.cacheSet events index) :=
        (TransportFree.openedSet _ _).performed _
      rw [Reader.face, decorated, Option.getD_some, absorbed]
      exact absorbs free reader.transport
  rw [books.caller_side closed, List.map_congr_left same]

end Books

/-! ### Samples -/

theorem tallies_samples {histogram : LatencyHistogram} {latency : Reader → LatencyHistogram}
    {operations : Reader → ℕ → List Operation} {sample : Operation → Option ℕ}
    (total : histogram = (process.readers.map latency).sum)
    (each : ∀ index reader, process.readers[index]? = some reader →
      latency reader = recorded ((operations reader index).filterMap sample)) :
    histogram.Tallies (process.samples operations sample) := by
  have listed : process.readers.map latency =
      process.readers.zipIdx.map fun entry =>
        recorded ((operations entry.1 entry.2).filterMap sample) := by
    calc process.readers.map latency
        = (process.readers.zipIdx.map Prod.fst).map latency := by rw [List.zipIdx_map_fst]
      _ = process.readers.zipIdx.map fun entry => latency entry.1 := List.map_map
      _ = _ := by
          apply List.map_congr_left
          intro entry entryMem
          exact each entry.2 entry.1 (List.mem_zipIdx_iff_getElem?.mp entryMem)
  rw [total, listed, LatencyHistogram.sum_map_recorded]
  exact LatencyHistogram.tallies_recorded _

end Process

namespace Reader.Follows

variable {events : List Event} {index : ℕ}

theorem openLatency (follows : reader.Follows events index) :
    reader.transport.openLatency =
      recorded ((transportOperations events index).filterMap openSample) := by
  rw [follows.transport]
  split
  · exact openLatency_performed _ _
  · exact openLatency_performed _ _

theorem requestLatency (follows : reader.Follows events index) :
    reader.transport.requestLatency =
      recorded ((transportOperations events index).filterMap requestSample) := by
  rw [follows.transport]
  split
  · exact requestLatency_performed _ _
  · exact requestLatency_performed _ _

theorem readLatency (follows : reader.Follows events index) :
    reader.face.readLatency =
      recorded ((reader.callerOperations events index).filterMap readSample) := by
  cases decorated : reader.cache with
  | none =>
    have told := follows.transport
    simp only [decorated, Option.isSome_none, Bool.false_eq_true, if_false] at told
    simp only [Reader.face, Reader.callerOperations, decorated, Option.getD_none, told]
    exact readLatency_performed _ _
  | some cache =>
    simp only [Reader.face, Reader.callerOperations, decorated, Option.getD_some,
      follows.cache cache decorated]
    split
    · exact readLatency_performed _ _
    · exact readLatency_performed _ _

end Reader.Follows

/-! ### What a close contributes -/

/-- What a reader whose destructor runs has yet to fold. -/
def Reader.remaining (reader : Reader) : List ReaderMetrics :=
  match reader.cache, reader.stage with
  | some cache, .absorbed => [cache]
  | _, _ => []

theorem Reader.Takes.remaining (takes : reader.Takes action next folded)
    (attached : reader.Attached) (begun : reader.stage ≠ .live) :
    reader.remaining = folded.toList ++ next.remaining ∧ next.Attached ∧ next.stage ≠ .live := by
  cases takes with
  | wrap live _ | transport live _ | cache live _ _ | closePlain live _ | absorb live _ =>
    exact absurd live begun
  | fold absorbed decorated =>
    refine ⟨?_, ⟨attached.transport, attached.cache⟩, nofun⟩
    simp [Reader.remaining, absorbed, decorated, attached.folded_cache decorated]
  | destroyInner folded decorated =>
    refine ⟨?_, ⟨attached.transport, attached.cache⟩, nofun⟩
    simp [Reader.remaining, folded, decorated, attached.folded_inner decorated]

namespace Process

variable {process after final : Process} {events : List Event} {index : ℕ}

/-- Once its destructor runs, a reader folds what remains, whatever the others do. -/
theorem contributions_eq (found : process.readers[index]? = some reader)
    (attached : reader.Attached) (begun : reader.stage ≠ .live)
    (reached : Machine.run Process.step process events = some final)
    (gone : ∀ last, final.readers[index]? = some last → last.stage = .gone) :
    process.contributions index events = reader.remaining := by
  induction events generalizing process reader with
  | nil =>
    cases reached
    have last := gone reader found
    cases cache : reader.cache <;> simp [contributions, Reader.remaining, last, cache]
  | cons event rest ih =>
    rcases Machine.run_cons reached with ⟨next, stepped, continued⟩
    cases event with
    | opened resolvedIdentifier size =>
      simp only [contributions, stepped]
      cases stepped
      exact ih (Machine.getElem?_append_of_some _ found) attached begun continued
    | acts place action =>
      simp only [contributions, stepped]
      rcases step_acts stepped with ⟨taker, changed, folded, takerFound, takes, folds, rfl⟩
      by_cases same : place = index
      · subst same
        rw [found] at takerFound
        cases takerFound
        rcases takes.remaining attached begun with ⟨split, stillAttached, stillBegun⟩
        have present : (process.readers.set place changed)[place]? = some changed := by
          rw [List.getElem?_set_self (List.getElem?_eq_some_iff.mp found).1]
        rw [if_pos rfl, folds, ih present stillAttached stillBegun continued, split]
      · have kept : (process.readers.set place changed)[index]? = some reader := by
          rw [List.getElem?_set_ne same]
          exact found
        rw [if_neg same, List.nil_append]
        exact ih kept attached begun continued

theorem contributions_close {past : List Event}
    (follows : reader.Follows past index) (found : process.readers[index]? = some reader)
    (live : reader.stage = .live)
    (reached : Machine.run Process.step process (.acts index .close :: events) = some final)
    (gone : ∀ last, final.readers[index]? = some last → last.stage = .gone) :
    (process.contributions index (.acts index .close :: events)).map ReaderMetrics.snapshot =
      [reader.snapshotMetrics] := by
  rcases Machine.run_cons reached with ⟨next, stepped, continued⟩
  simp only [contributions, stepped, if_true]
  rcases step_acts stepped with ⟨taker, changed, folded, takerFound, takes, folds, rfl⟩
  rw [found] at takerFound
  cases takerFound
  have attached := (follows.take takes).attached
  have present : (process.readers.set index changed)[index]? = some changed := by
    rw [List.getElem?_set_self (List.getElem?_eq_some_iff.mp found).1]
  rw [folds]
  cases takes with
  | closePlain _ plain =>
    rw [contributions_eq present attached nofun continued gone,
      follows.attached.folded_plain plain]
    simp [Reader.remaining, Reader.snapshotMetrics, plain]
  | @absorb _ metrics decorated =>
    have own := follows.cache metrics decorated
    rw [if_pos live] at own
    have free : TransportFree metrics := own ▸ (TransportFree.openedSet _ _).performed _
    rw [contributions_eq present attached nofun continued gone]
    simp [Reader.remaining, Reader.snapshotMetrics, decorated, free.snapshot_absorbTransport]
  | fold begun _ | destroyInner begun _ =>
    rw [live] at begun
    cases begun

theorem transport_counter (reached : Machine.run Process.step {} events = some process)
    (closed : ∀ reader ∈ process.readers, reader.stage = .gone) (counter : Counters → ℕ)
    (zero : counter {} = 0)
    (adds : ∀ snapshot other : MetricsSnapshot, counter (snapshot.add other).toCounters =
      counter snapshot.toCounters + counter other.toCounters)
    (absorbs : ∀ {outer}, TransportFree outer → ∀ inner,
      counter (outer.absorbTransport inner).toCounters = counter inner.toCounters) :
    counter process.registry.aggregate.toCounters =
      (process.readers.map fun reader => counter reader.transport.toCounters).sum :=
  (Books.of_run (.counter counter zero adds) reached).transport_side closed absorbs

theorem settled (reached : Machine.run Process.step {} events = some process)
    (closed : ∀ reader ∈ process.readers, reader.stage = .gone) : process.Settled events := by
  have counter := transport_counter reached closed
  refine ⟨?_, ?_, ?_, ?_, ?_, ?_, ?_, ?_, ?_⟩
  · exact counter (·.requestCount) rfl (fun _ _ => rfl) fun free _ => by
      simp [ReaderMetrics.absorbTransport, free.requestCount]
  · exact counter (·.metadataRequestCount) rfl (fun _ _ => rfl) fun free _ => by
      simp [ReaderMetrics.absorbTransport, free.metadataRequestCount]
  · exact counter (·.retryCount) rfl (fun _ _ => rfl) fun free _ => by
      simp [ReaderMetrics.absorbTransport, free.retryCount]
  · exact counter (·.redirectCount) rfl (fun _ _ => rfl) fun free _ => by
      simp [ReaderMetrics.absorbTransport, free.redirectCount]
  · exact counter (·.bytesTransferred) rfl (fun _ _ => rfl) fun free _ => by
      simp [ReaderMetrics.absorbTransport, free.bytesTransferred]
  · exact (Books.of_run (.counter (·.bytesRequested) rfl fun _ _ => rfl) reached).caller_side closed
  · have books := Books.of_run .openLatency reached
    refine tallies_samples (books.transport_side closed fun free _ => free.openLatency_absorb _) ?_
    intro index reader found
    exact (books.follows index reader found).openLatency
  · have books := Books.of_run .requestLatency reached
    refine tallies_samples
      (books.transport_side closed fun free _ => free.requestLatency_absorb _) ?_
    intro index reader found
    exact (books.follows index reader found).requestLatency
  · have books := Books.of_run .readLatency reached
    refine tallies_samples (books.caller_side closed) ?_
    intro index reader found
    exact (books.follows index reader found).readLatency

end Process

/-- Whatever readers do and in whatever order they are decorated and destroyed, the registry has
what crossed the transports and what the callers asked for, each once, and a close contributes
what the reader showed just before it. -/
theorem stack_is_counted_once (events : List Event) (process : Process)
    (reached : Machine.run Process.step {} events = some process) :
    ((∀ reader ∈ process.readers, reader.stage = .gone) → process.Settled events) ∧
      ∀ index (reader : Reader), process.readers[index]? = some reader → reader.stage = .live →
        ∀ rest final,
          Machine.run Process.step process (.acts index .close :: rest) = some final →
          (∀ last, final.readers[index]? = some last → last.stage = .gone) →
          (process.contributions index (.acts index .close :: rest)).map ReaderMetrics.snapshot =
            [reader.snapshotMetrics] := by
  refine ⟨Process.settled reached, ?_⟩
  intro index reader found live rest final continued gone
  have books := Process.Books.of_run .readLatency reached
  exact Process.contributions_close (books.follows index reader found) found live continued gone

/-- A reader that is decorated after it has asked for its metadata, beside a plain one. -/
def twoReaders : List Event :=
  [Event.opened [97] 10, Event.opened [98] 20,
    Event.acts 0 (.transport (.addMetadataRequest 1)),
    Event.acts 0 (.transport (.recordOpenLatency 5)), Event.acts 0 .wrap,
    Event.acts 0 (.cache ⟨.addBytesRequested 3, rfl⟩),
    Event.acts 0 (.transport (.addBytesRequested 8)), Event.acts 0 (.transport (.addRequest 1)),
    Event.acts 1 (.transport (.addBytesRequested 4)), Event.acts 1 (.transport (.addRequest 1))]

/-- The plain reader is destroyed between the steps of the other. -/
def interleavedCloses : List Event :=
  [Event.acts 0 .close, Event.acts 1 .close, Event.acts 0 .close, Event.acts 0 .close]

def bothLive : Process := (Machine.run Process.step {} twoReaders).getD {}

def bothGone : Process := (Machine.run Process.step bothLive interleavedCloses).getD {}

theorem stack_is_counted_once_of_two :
    bothGone.Settled (twoReaders ++ interleavedCloses) ∧
      bothGone.registry.aggregate.requestCount = 3 ∧
      bothGone.registry.aggregate.bytesRequested = 7 ∧
      bothLive.readers[0]?.map (fun reader => [reader.snapshotMetrics]) =
        some ((bothLive.contributions 0 interleavedCloses).map ReaderMetrics.snapshot) := by
  have reached : Machine.run Process.step {} (twoReaders ++ interleavedCloses) = some bothGone :=
    rfl
  have before : Machine.run Process.step {} twoReaders = some bothLive := rfl
  have contributes := (stack_is_counted_once twoReaders bothLive before).2
  refine ⟨(stack_is_counted_once _ bothGone reached).1 (by decide), by decide, by decide, ?_⟩
  refine congrArg some (contributes 0 _ rfl rfl (interleavedCloses.drop 1) bothGone rfl ?_).symm
  intro last present
  have gone : bothGone.readers[0]?.map Reader.stage = some .gone := rfl
  rw [present] at gone
  exact Option.some.inj gone

end UsdAsset.Cache.Stack
