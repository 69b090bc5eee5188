import Mathlib.Algebra.Ring.Nat
import UsdAsset.Io.Diagnostics
import UsdAsset.Io.LatencyHistogram

/-!
# The counters of readers, and of the process

Models `MetricsSnapshot`, `ReaderMetrics` and `MetricsRegistry` of `Metrics.h` and
`Metrics.cpp`.  A reader counts into a set of its own, which is folded into the registry of
the process when it is destroyed, unless it was detached.

Counters are natural numbers: what is said here is said of runs in which none of the source
leaves its 64 bits.  Every one of them is a relaxed atomic that is only added to or raised,
so an operation is one step.
-/

namespace UsdAsset

/-- The counters that a set and a snapshot of it have in common. -/
structure Counters where
  assetSize : ℕ := 0
  bytesRequested : ℕ := 0
  bytesTransferred : ℕ := 0
  bytesFromCache : ℕ := 0
  requestCount : ℕ := 0
  metadataRequestCount : ℕ := 0
  retryCount : ℕ := 0
  redirectCount : ℕ := 0
  blockHits : ℕ := 0
  blockMisses : ℕ := 0
  partialHits : ℕ := 0
  requestsSavedByCoalescing : ℕ := 0
  requestsSavedBySingleFlight : ℕ := 0
  bytesOverFetched : ℕ := 0
  evictions : ℕ := 0
  peakResidentBytes : ℕ := 0
  persistedHits : ℕ := 0
  persistedWrites : ℕ := 0
  deriving DecidableEq, Repr

/-! ### Snapshots -/

structure MetricsSnapshot extends Counters where
  identifier : Bytes := []
  openLatency : LatencyHistogram.Summary := {}
  requestLatency : LatencyHistogram.Summary := {}
  readLatency : LatencyHistogram.Summary := {}
  deriving DecidableEq, Repr

/-- The quantiles of two summaries cannot be had from their quantiles. -/
def LatencyHistogram.Summary.merge (into other : LatencyHistogram.Summary) :
    LatencyHistogram.Summary where
  count := into.count + other.count
  sum := into.sum + other.sum
  max := Max.max into.max other.max

namespace MetricsSnapshot

/-- Takes what crossed the transport from the reader underneath. -/
def absorbTransport (snapshot inner : MetricsSnapshot) : MetricsSnapshot :=
  { snapshot with
    assetSize := max snapshot.assetSize inner.assetSize
    bytesTransferred := snapshot.bytesTransferred + inner.bytesTransferred
    requestCount := snapshot.requestCount + inner.requestCount
    metadataRequestCount := snapshot.metadataRequestCount + inner.metadataRequestCount
    retryCount := snapshot.retryCount + inner.retryCount
    redirectCount := snapshot.redirectCount + inner.redirectCount
    openLatency := inner.openLatency
    requestLatency := inner.requestLatency }

def add (snapshot other : MetricsSnapshot) : MetricsSnapshot where
  identifier := snapshot.identifier
  assetSize := snapshot.assetSize + other.assetSize
  bytesRequested := snapshot.bytesRequested + other.bytesRequested
  bytesTransferred := snapshot.bytesTransferred + other.bytesTransferred
  bytesFromCache := snapshot.bytesFromCache + other.bytesFromCache
  requestCount := snapshot.requestCount + other.requestCount
  metadataRequestCount := snapshot.metadataRequestCount + other.metadataRequestCount
  retryCount := snapshot.retryCount + other.retryCount
  redirectCount := snapshot.redirectCount + other.redirectCount
  blockHits := snapshot.blockHits + other.blockHits
  blockMisses := snapshot.blockMisses + other.blockMisses
  partialHits := snapshot.partialHits + other.partialHits
  requestsSavedByCoalescing :=
    snapshot.requestsSavedByCoalescing + other.requestsSavedByCoalescing
  requestsSavedBySingleFlight :=
    snapshot.requestsSavedBySingleFlight + other.requestsSavedBySingleFlight
  bytesOverFetched := snapshot.bytesOverFetched + other.bytesOverFetched
  evictions := snapshot.evictions + other.evictions
  peakResidentBytes := max snapshot.peakResidentBytes other.peakResidentBytes
  persistedHits := snapshot.persistedHits + other.persistedHits
  persistedWrites := snapshot.persistedWrites + other.persistedWrites
  openLatency := snapshot.openLatency.merge other.openLatency
  requestLatency := snapshot.requestLatency.merge other.requestLatency
  readLatency := snapshot.readLatency.merge other.readLatency

end MetricsSnapshot

/-! ### The set of a reader -/

structure ReaderMetrics extends Counters where
  identifier : Bytes := []
  detached : Bool := false
  openLatency : LatencyHistogram := {}
  requestLatency : LatencyHistogram := {}
  readLatency : LatencyHistogram := {}

inductive Operation where
  | setAssetSize (bytes : ℕ)
  | addBytesRequested (bytes : ℕ)
  | addBytesTransferred (bytes : ℕ)
  | addBytesFromCache (bytes : ℕ)
  | addRequest (count : ℕ)
  | addMetadataRequest (count : ℕ)
  | addRetry (count : ℕ)
  | addRedirect (count : ℕ)
  | addBlockHit (count : ℕ)
  | addBlockMiss (count : ℕ)
  | addPartialHit (count : ℕ)
  | addRequestsSavedByCoalescing (count : ℕ)
  | addRequestsSavedBySingleFlight (count : ℕ)
  | addBytesOverFetched (bytes : ℕ)
  | addEviction (count : ℕ)
  | addPersistedHit (count : ℕ)
  | addPersistedWrite (count : ℕ)
  | observeResidentBytes (bytes : ℕ)
  | recordOpenLatency (microseconds : ℕ)
  | recordRequestLatency (microseconds : ℕ)
  | recordReadLatency (microseconds : ℕ)
  deriving DecidableEq, Repr

namespace ReaderMetrics

/-- The constructor; a secret of the identifier does not get further than here. -/
def named (identifier : Bytes) : ReaderMetrics where
  identifier := elideSecrets identifier

def perform (metrics : ReaderMetrics) : Operation → ReaderMetrics
  | .setAssetSize bytes => { metrics with assetSize := bytes }
  | .addBytesRequested bytes =>
      { metrics with bytesRequested := metrics.bytesRequested + bytes }
  | .addBytesTransferred bytes =>
      { metrics with bytesTransferred := metrics.bytesTransferred + bytes }
  | .addBytesFromCache bytes =>
      { metrics with bytesFromCache := metrics.bytesFromCache + bytes }
  | .addRequest count => { metrics with requestCount := metrics.requestCount + count }
  | .addMetadataRequest count =>
      -- a metadata request is a request
      { metrics with
        metadataRequestCount := metrics.metadataRequestCount + count
        requestCount := metrics.requestCount + count }
  | .addRetry count => { metrics with retryCount := metrics.retryCount + count }
  | .addRedirect count => { metrics with redirectCount := metrics.redirectCount + count }
  | .addBlockHit count => { metrics with blockHits := metrics.blockHits + count }
  | .addBlockMiss count => { metrics with blockMisses := metrics.blockMisses + count }
  | .addPartialHit count => { metrics with partialHits := metrics.partialHits + count }
  | .addRequestsSavedByCoalescing count =>
      { metrics with
        requestsSavedByCoalescing := metrics.requestsSavedByCoalescing + count }
  | .addRequestsSavedBySingleFlight count =>
      { metrics with
        requestsSavedBySingleFlight := metrics.requestsSavedBySingleFlight + count }
  | .addBytesOverFetched bytes =>
      { metrics with bytesOverFetched := metrics.bytesOverFetched + bytes }
  | .addEviction count => { metrics with evictions := metrics.evictions + count }
  | .addPersistedHit count => { metrics with persistedHits := metrics.persistedHits + count }
  | .addPersistedWrite count =>
      { metrics with persistedWrites := metrics.persistedWrites + count }
  | .observeResidentBytes bytes =>
      { metrics with peakResidentBytes := max metrics.peakResidentBytes bytes }
  | .recordOpenLatency microseconds =>
      { metrics with openLatency := metrics.openLatency.record microseconds }
  | .recordRequestLatency microseconds =>
      { metrics with requestLatency := metrics.requestLatency.record microseconds }
  | .recordReadLatency microseconds =>
      { metrics with readLatency := metrics.readLatency.record microseconds }

/-- Takes what crossed the transport from the set of the reader underneath. -/
def absorbTransport (metrics inner : ReaderMetrics) : ReaderMetrics :=
  { metrics with
    assetSize := max metrics.assetSize inner.assetSize
    bytesTransferred := metrics.bytesTransferred + inner.bytesTransferred
    -- the metadata requests of the inner reader are among its requests already
    requestCount := metrics.requestCount + inner.requestCount
    metadataRequestCount := metrics.metadataRequestCount + inner.metadataRequestCount
    retryCount := metrics.retryCount + inner.retryCount
    redirectCount := metrics.redirectCount + inner.redirectCount
    openLatency := metrics.openLatency.fold inner.openLatency
    requestLatency := metrics.requestLatency.fold inner.requestLatency }

def detachFromRegistry (metrics : ReaderMetrics) : ReaderMetrics :=
  { metrics with detached := true }

def snapshot (metrics : ReaderMetrics) : MetricsSnapshot where
  toCounters := metrics.toCounters
  identifier := metrics.identifier
  openLatency := metrics.openLatency.snapshot
  requestLatency := metrics.requestLatency.snapshot
  readLatency := metrics.readLatency.snapshot

end ReaderMetrics

/-! ### The registry of the process -/

structure MetricsRegistry where
  aggregateSnapshot : MetricsSnapshot := {}
  openLatency : LatencyHistogram := {}
  requestLatency : LatencyHistogram := {}
  readLatency : LatencyHistogram := {}
  perAsset : List (Bytes × MetricsSnapshot) := []

namespace MetricsRegistry

def maxTrackedIdentifiers : ℕ := 4096

/-- Two readers of one asset do not make it larger. -/
def trackAsset (perAsset : List (Bytes × MetricsSnapshot)) (snapshot : MetricsSnapshot) :
    List (Bytes × MetricsSnapshot) :=
  if perAsset.any fun entry => entry.1 == snapshot.identifier then
    perAsset.map fun entry =>
      if entry.1 = snapshot.identifier then
        (entry.1, { entry.2.add snapshot with
          assetSize := max entry.2.assetSize snapshot.assetSize })
      else entry
  else if perAsset.length < maxTrackedIdentifiers then
    perAsset ++ [(snapshot.identifier, snapshot)]
  else perAsset

/-- One step, since the registry is locked throughout. -/
def fold (registry : MetricsRegistry) (reader : ReaderMetrics) : MetricsRegistry where
  aggregateSnapshot := registry.aggregateSnapshot.add reader.snapshot
  openLatency := registry.openLatency.fold reader.openLatency
  requestLatency := registry.requestLatency.fold reader.requestLatency
  readLatency := registry.readLatency.fold reader.readLatency
  perAsset := trackAsset registry.perAsset reader.snapshot

def aggregate (registry : MetricsRegistry) : MetricsSnapshot :=
  { registry.aggregateSnapshot with
    identifier := []
    openLatency := registry.openLatency.snapshot
    requestLatency := registry.requestLatency.snapshot
    readLatency := registry.readLatency.snapshot }

end MetricsRegistry

/-- The destructor: what the registry is given. -/
def ReaderMetrics.folded (metrics : ReaderMetrics) : Option ReaderMetrics :=
  if metrics.detached then none else some metrics

/-! ### Histograms add up -/

namespace LatencyHistogram

theorem ext_counters {first second : LatencyHistogram} (buckets : first.buckets = second.buckets)
    (count : first.count = second.count) (sum : first.sum = second.sum)
    (max : first.max = second.max) : first = second := by
  cases first
  cases second
  simp_all

instance : Zero LatencyHistogram := ⟨{}⟩

instance : Add LatencyHistogram := ⟨fold⟩

instance : AddCommMonoid LatencyHistogram where
  nsmul := nsmulRec
  add_assoc first second third := by
    apply ext_counters
    · funext index
      exact Nat.add_assoc _ _ _
    · exact Nat.add_assoc _ _ _
    · exact Nat.add_assoc _ _ _
    · exact Nat.max_assoc _ _ _
  zero_add histogram := by
    apply ext_counters
    · funext index
      exact Nat.zero_add _
    · exact Nat.zero_add _
    · exact Nat.zero_add _
    · exact Nat.zero_max _
  add_zero histogram := by
    apply ext_counters
    · rfl
    · rfl
    · rfl
    · exact Nat.max_zero _
  add_comm first second := by
    apply ext_counters
    · funext index
      exact Nat.add_comm _ _
    · exact Nat.add_comm _ _
    · exact Nat.add_comm _ _
    · exact Nat.max_comm _ _

theorem recorded_append (first second : List ℕ) :
    recorded (first ++ second) = recorded first + recorded second :=
  (tallies_recorded (first ++ second)).unique
    ((tallies_recorded first).fold (tallies_recorded second))

theorem sum_map_recorded {Source : Type} (samples : Source → List ℕ) (sources : List Source) :
    (sources.map fun source => recorded (samples source)).sum =
      recorded (sources.flatMap samples) := by
  induction sources with
  | nil => rfl
  | cons source sources ih =>
    rw [List.map_cons, List.sum_cons, ih, List.flatMap_cons, recorded_append]

end LatencyHistogram

end UsdAsset
