import Mathlib.Data.Finset.Card
import UsdAsset.Cache.Ownership

/-!
# The counters of a cached read

A read is served by blocks of many kinds: resident ones, persisted ones, blocks
another call fetched, blocks it fetched itself and blocks it read directly.
Whatever the mix, every block of the span is counted once, and every byte the
inner reader delivered was taken by the caller or is charged as over-fetched.

While a call runs, what it has counted is ahead of what it has served by the
bytes of the run in hand; `Tallied` keeps that difference, and every step keeps
`Tallied`.
-/

namespace UsdAsset.Cache

open Function

variable {i block taken : ℕ} {result : ReadResult} {run : FetchRun} {runs : List FetchRun}
  {transfer : Bytes} {answer : Answer} {outcome : Call × BlockCache}

def delivered (reads : List ReadResult) : ℕ := (reads.map ReadResult.bytesRead).sum

theorem delivered_append (earlier later : List ReadResult) :
    delivered (earlier ++ later) = delivered earlier + delivered later := by
  rw [delivered, List.map_append, List.sum_append, delivered, delivered]

def Answer.reads : Answer → List ReadResult
  | .read result _ => [result]
  | .silent | .loaded _ | .persisted _ => []

namespace Call

variable {call next : Call} {reads : List ReadResult}

def resolvedBlocks (call : Call) : Finset ℕ :=
  (Finset.range call.span.count).filter fun i => call.resolved i = true

/-! ### The books of a call -/

/-- What the counters of a call have to do with the blocks it resolved, where `inHand` blocks are
counted but not resolved, `unspent` bytes were delivered and not yet taken or charged, and
`toFetch` blocks are planned for the `runsLeft` requests that are still to be made. -/
structure Tallied (reads : List ReadResult) (call : Call)
    (inHand unspent runsLeft toFetch : ℕ) : Prop where
  owned : ∀ block ∈ call.outstanding, call.resolved (block - call.span.first) = false
  blocks : call.metrics.blockMisses + call.cacheServed = call.resolvedBlocks.card + inHand
  bytes : delivered reads + call.metrics.bytesFromCache =
    call.served + call.metrics.bytesOverFetched + unspent
  requests : reads.length + call.metrics.requestsSavedByCoalescing + runsLeft =
    call.metrics.blockMisses + toFetch
  blockHits : call.metrics.blockHits = 0
  partialHits : call.metrics.partialHits = 0

/-- The blocks another call owns are none that this one has or owns. -/
structure Apart (call : Call) : Prop where
  ascending : call.busy.Pairwise (· < ·)
  unresolved : ∀ i ∈ call.busy, call.resolved i = false
  unowned : ∀ i ∈ call.busy, call.span.first + i ∉ call.outstanding

/-- What a read that succeeded has counted. -/
structure Conserved (reads : List ReadResult) (call : Call) (result : ReadResult) : Prop where
  bytes : delivered reads + call.metrics.bytesFromCache =
    result.bytesRead + call.metrics.bytesOverFetched
  requests : reads.length + call.metrics.requestsSavedByCoalescing = call.metrics.blockMisses
  blocks : call.metrics.blockMisses + call.cacheServed = call.span.count
  blockHits : call.metrics.blockHits = if call.metrics.blockMisses = 0 then 1 else 0
  partialHits : call.metrics.partialHits =
    if 0 < call.metrics.blockMisses ∧ call.metrics.blockMisses < call.span.count then 1 else 0

/-- The books of a call that stands at a place. -/
def Booked (reads : List ReadResult) (call : Call) : Pc → Prop
  | .acquire i => call.Tallied reads 0 0 0 0 ∧ call.Apart ∧ ∀ j ∈ call.busy, j < i
  | .mismatch i =>
      call.Tallied reads 0 0 0 0 ∧ call.Apart ∧ (∀ j ∈ call.busy, j < i) ∧ call.resolved i = false
  | .load _ | .publishLoaded _ _ _ => call.Tallied reads 0 0 0 0 ∧ call.Apart
  | .fetch runs => call.Tallied reads 0 0 runs.length call.outstanding.length ∧ call.Apart
  | .publishFetched run _ taken runs =>
      call.Tallied reads 0 (run.length - taken) runs.length call.outstanding.length ∧ call.Apart ∧
        ∀ block ∈ call.outstanding, run.offset + taken ≤ block * call.blockSize
  | .persist block run _ taken runs =>
      call.Tallied reads 1 (run.length - taken) runs.length call.outstanding.length ∧ call.Apart ∧
        call.resolved (block - call.span.first) = false ∧ block - call.span.first ∉ call.busy ∧
        (∀ later ∈ call.outstanding, block < later) ∧ run.offset + taken ≤ block * call.blockSize
  | .await todo =>
      call.Tallied reads 0 0 0 0 ∧ todo.Pairwise (· < ·) ∧ ∀ i ∈ todo, call.resolved i = false
  | .endPass _ => call.Tallied reads 0 0 0 0
  | .direct i => call.Tallied reads 0 0 0 0 ∧ ∀ j < i, call.resolved j = true
  | .giveUp _ => True
  | .bypass => False
  | .returned result => result.status.code = .ok → call.Conserved reads result

/-- A read that is neither refused nor passed straight to the inner reader. -/
def ThroughCache (call : Call) : Prop :=
  call.Admitted ∧ call.range.length < call.reader.options.bypassThresholdBytes

theorem start_booked {reader : CachedAssetReader} {request : ReadRequest}
    (cached : (start reader request).ThroughCache) :
    (start reader request).Booked [] (start reader request).pc := by
  have place : (start reader request).pc = .acquire 0 := by
    rcases cached with ⟨⟨transfers, buffered⟩, short⟩
    simp only [range, start] at transfers buffered short
    simp only [start, transfers]
    rw [if_neg (by decide), if_neg buffered, if_neg (by decide), if_neg (by omega)]
  rw [place]
  refine ⟨⟨List.forall_mem_nil _, ?_, rfl, rfl, rfl, rfl⟩,
    ⟨.nil, List.forall_mem_nil _, List.forall_mem_nil _⟩, List.forall_mem_nil _⟩
  have nothing : (start reader request).resolvedBlocks = ∅ :=
    Finset.filter_false_of_mem fun _ _ => Bool.false_ne_true
  rw [nothing]
  rfl

/-! ### Resolving a block -/

theorem overlap_fst (call : Call) (i : ℕ) (bytes : Bytes) :
    (call.overlap i bytes).1 = (call.window i).length := by
  simp only [overlap, copyOverlap, window]
  split
  · rename_i outside
    exact (Nat.sub_eq_zero_of_le outside).symm
  · rfl

theorem window_length_le (call : Call) (i : ℕ) :
    (call.window i).length ≤ (call.extent (call.span.first + i)).length := by
  simp only [window]
  omega

theorem span_congr (reader : next.reader = call.reader) (request : next.request = call.request) :
    next.span = call.span := by
  simp only [span, range, blockSize, reader, request]

theorem card_resolvedBlocks (span : next.span = call.span)
    (resolved : next.resolved = update call.resolved i true)
    (counted : i < call.span.count) (unresolved : call.resolved i = false) :
    next.resolvedBlocks.card = call.resolvedBlocks.card + 1 := by
  have more : next.resolvedBlocks = insert i call.resolvedBlocks := by
    ext j
    simp only [resolvedBlocks, Finset.mem_filter, Finset.mem_range, Finset.mem_insert, span,
      resolved, update_apply]
    split
    · rename_i same
      simp [same, counted]
    · rename_i other
      simp [other]
  have fresh : i ∉ call.resolvedBlocks := by
    simp [resolvedBlocks, unresolved]
  rw [more, Finset.card_insert_of_notMem fresh]

/-- A block that came out of the store or from the persistent tier was copied. -/
structure Serves (call next : Call) (i : ℕ) : Prop where
  reader : next.reader = call.reader
  request : next.request = call.request
  resolved : next.resolved = Function.update call.resolved i true
  served : next.served = call.served + (call.window i).length
  cacheServed : next.cacheServed = call.cacheServed + 1
  bytesFromCache :
    next.metrics.bytesFromCache = call.metrics.bytesFromCache + (call.window i).length
  bytesOverFetched : next.metrics.bytesOverFetched = call.metrics.bytesOverFetched
  blockMisses : next.metrics.blockMisses = call.metrics.blockMisses
  requestsSaved :
    next.metrics.requestsSavedByCoalescing = call.metrics.requestsSavedByCoalescing
  blockHits : next.metrics.blockHits = call.metrics.blockHits
  partialHits : next.metrics.partialHits = call.metrics.partialHits

theorem Tallied.serves (tallied : call.Tallied reads 0 0 0 0) (serves : Serves call next i)
    (counted : i < call.span.count) (unresolved : call.resolved i = false)
    (owned : ∀ block ∈ next.outstanding, block ∈ call.outstanding ∧
      block - call.span.first ≠ i) :
    next.Tallied reads 0 0 0 0 := by
  have span := span_congr serves.reader serves.request
  have card := card_resolvedBlocks span serves.resolved counted unresolved
  have blocks := tallied.blocks
  have bytes := tallied.bytes
  refine ⟨?_, ?_, ?_, ?_, ?_, ?_⟩
  · intro block blockMem
    rw [serves.resolved, span, update_of_ne (owned block blockMem).2]
    exact tallied.owned block (owned block blockMem).1
  · rw [serves.blockMisses, serves.cacheServed, card]
    omega
  · rw [serves.bytesFromCache, serves.served, serves.bytesOverFetched]
    omega
  · rw [serves.requestsSaved, serves.blockMisses]
    exact tallied.requests
  · rw [serves.blockHits]
    exact tallied.blockHits
  · rw [serves.partialHits]
    exact tallied.partialHits

theorem Apart.resolves (apart : call.Apart) (span : next.span = call.span)
    (resolved : next.resolved = update call.resolved i true)
    (busy : next.busy = call.busy) (elsewhere : i ∉ call.busy)
    (owned : ∀ block ∈ next.outstanding, block ∈ call.outstanding) : next.Apart := by
  refine ⟨busy ▸ apart.ascending, ?_, ?_⟩
  · rw [busy, resolved]
    intro j jMem
    rw [update_of_ne (ne_of_mem_of_not_mem jMem elsewhere)]
    exact apart.unresolved j jMem
  · rw [busy, span]
    intro j jMem owns
    exact apart.unowned j jMem (owned _ owns)

theorem Valid.ne_of_below (valid : call.Valid)
    (below : ∀ block ∈ call.outstanding, block < call.span.first + i) :
    ∀ block ∈ call.outstanding, block ∈ call.outstanding ∧ block - call.span.first ≠ i := by
  intro block blockMem
  have := below block blockMem
  have := (valid.inside block blockMem).1
  exact ⟨blockMem, by omega⟩

theorem not_mem_of_forall_lt {items : List ℕ} (below : ∀ j ∈ items, j < i) : i ∉ items :=
  fun mem => Nat.lt_irrefl i (below i mem)

/-! ### The acquisitions of a pass -/

section Steps

variable {store : BlockCache}

theorem Tallied.at_place {inHand unspent runsLeft toFetch : ℕ}
    (tallied : call.Tallied reads inHand unspent runsLeft toFetch) (place : Pc) :
    Tallied reads { call with pc := place } inHand unspent runsLeft toFetch :=
  { tallied with }

theorem Apart.at_place (apart : call.Apart) (place : Pc) : Apart { call with pc := place } :=
  { apart with }

section

variable (valid : call.Valid) (tallied : call.Tallied reads 0 0 0 0) (apart : call.Apart)

include valid tallied apart

theorem booked_planned : call.planned.Booked reads call.planned.pc := by
  simp only [planned]
  split
  · split
    · exact tallied.at_place _
    · exact ⟨tallied.at_place _, apart.ascending, apart.unresolved⟩
  · have partitions : Partitions call.blockSize call.reader.metadata.size
        (planRuns call.blockSize call.reader.metadata.size call.reader.options.coalesceGapBlocks
          call.reader.options.maxRequestBytes call.outstanding) call.outstanding :=
      planRuns_partitions valid.ascending
    have fewer := partitions.length_le
    have requests := tallied.requests
    refine ⟨{ tallied with requests := ?_ }, { apart with }⟩
    change reads.length + (call.metrics.requestsSavedByCoalescing + (call.owned.count - _)) + _ =
      call.metrics.blockMisses + call.outstanding.length
    have count : call.outstanding.length = call.owned.count := call.owned.length_outstanding
    omega

theorem booked_acquireDone : call.acquireDone.Booked reads call.acquireDone.pc := by
  simp only [acquireDone]
  split
  · exact ⟨tallied.at_place _, apart.at_place _⟩
  · exact booked_planned valid tallied apart

theorem booked_hit (counted : i < call.span.count) (unresolved : call.resolved i = false)
    (below : ∀ j ∈ call.busy, j < i)
    (owned : ∀ block ∈ call.outstanding, block < call.span.first + i) (block : Bytes) :
    (call.acquired i (.hit block)).Booked reads (call.acquired i (.hit block)).pc := by
  simp only [acquired]
  split
  · have serves : Serves call { call.serveFromCache i block with pc := .acquire (i + 1) } i :=
      ⟨rfl, rfl, rfl, congrArg _ (call.overlap_fst i block), rfl,
        congrArg _ (call.overlap_fst i block), rfl, rfl, rfl, rfl, rfl⟩
    refine ⟨tallied.serves serves counted unresolved (valid.ne_of_below owned), ?_, ?_⟩
    · exact apart.resolves rfl rfl rfl (not_mem_of_forall_lt below) fun _ owns => owns
    · exact fun j jMem => Nat.lt_succ_of_lt (below j jMem)
  · exact ⟨tallied.at_place _, apart.at_place _, below, unresolved⟩

end

theorem booked_owned (tallied : call.Tallied reads 0 0 0 0) (apart : call.Apart)
    (unresolved : call.resolved i = false) (below : ∀ j ∈ call.busy, j < i) :
    (call.acquired i .owned).Booked reads (call.acquired i .owned).pc := by
  have more : (call.acquired i .owned).outstanding = call.outstanding ++ [call.span.first + i] :=
    call.owned.outstanding_add _
  refine ⟨{ tallied with owned := ?_ }, ⟨apart.ascending, apart.unresolved, ?_⟩,
    fun j jMem => Nat.lt_succ_of_lt (below j jMem)⟩
  · rw [more]
    intro block blockMem
    rcases List.mem_append.mp blockMem with blockMem | blockMem
    · exact tallied.owned block blockMem
    · rw [List.mem_singleton.mp blockMem]
      change call.resolved (call.span.first + i - call.span.first) = false
      rw [Nat.add_sub_cancel_left]
      exact unresolved
  · rw [more]
    intro j jMem owns
    rcases List.mem_append.mp owns with owns | owns
    · exact apart.unowned j jMem owns
    · have same : call.span.first + j = call.span.first + i := List.mem_singleton.mp owns
      have := below j jMem
      omega

theorem booked_busy (tallied : call.Tallied reads 0 0 0 0) (apart : call.Apart)
    (unresolved : call.resolved i = false) (below : ∀ j ∈ call.busy, j < i)
    (owned : ∀ block ∈ call.outstanding, block < call.span.first + i) :
    (call.acquired i .busy).Booked reads (call.acquired i .busy).pc := by
  refine ⟨{ tallied with }, ⟨?_, ?_, ?_⟩, ?_⟩
  · refine List.pairwise_append.mpr ⟨apart.ascending, List.pairwise_singleton _ _, ?_⟩
    intro j jMem last lastMem
    rw [List.mem_singleton.mp lastMem]
    exact below j jMem
  · intro j jMem
    rcases List.mem_append.mp jMem with jMem | jMem
    · exact apart.unresolved j jMem
    · rw [List.mem_singleton.mp jMem]
      exact unresolved
  · intro j jMem owns
    rcases List.mem_append.mp jMem with jMem | jMem
    · exact apart.unowned j jMem owns
    · rw [List.mem_singleton.mp jMem] at owns
      exact Nat.lt_irrefl _ (owned _ owns)
  · intro j jMem
    rcases List.mem_append.mp jMem with jMem | jMem
    · exact Nat.lt_succ_of_lt (below j jMem)
    · rw [List.mem_singleton.mp jMem]
      exact Nat.lt_succ_self i

theorem booked_acquireStep (valid : call.Valid) (place : call.pc = .acquire i)
    (booked : call.Booked reads (.acquire i)) (store : BlockCache) :
    (call.acquireStep store i).1.Booked reads (call.acquireStep store i).1.pc := by
  rcases booked with ⟨tallied, apart, below⟩
  have owned : ∀ block ∈ call.outstanding, block < call.span.first + i :=
    valid.placed_at place
  simp only [acquireStep]
  split
  · rename_i counted
    split
    · exact ⟨tallied.at_place _, apart.at_place _,
        fun j jMem => Nat.lt_succ_of_lt (below j jMem)⟩
    · rename_i unresolved
      rw [Bool.not_eq_true] at unresolved
      rcases store.acquire_cases (call.key (call.span.first + i)) with
        ⟨block, hit, _⟩ | ⟨busy, _⟩ | ⟨owns, _⟩
      · rw [hit]
        exact booked_hit valid tallied apart counted unresolved below owned block
      · rw [busy]
        exact booked_busy tallied apart unresolved below owned
      · rw [owns]
        exact booked_owned tallied apart unresolved below
  · exact booked_acquireDone valid tallied apart

/-! ### Reading directly -/

/-- The window of a block was read into the caller's memory. -/
structure ReadsDirectly (call next : Call) (i : ℕ) : Prop where
  reader : next.reader = call.reader
  request : next.request = call.request
  owned : next.owned = call.owned
  busy : next.busy = call.busy
  resolved : next.resolved = Function.update call.resolved i true
  served : next.served = call.served + (call.window i).length
  cacheServed : next.cacheServed = call.cacheServed
  metrics : next.metrics = { call.metrics with blockMisses := call.metrics.blockMisses + 1 }

theorem settleDirect_reads {written : Bytes} (resume : Pc)
    (ok : (call.readDirect i result written).2.isOk = true) :
    ReadsDirectly call (call.settleDirect i result written resume) i ∧
      (call.settleDirect i result written resume).pc = resume ∧
      result.bytesRead = (call.window i).length := by
  refine ⟨?_, ?_, ?_⟩
  · simp only [settleDirect, if_pos ok]
    exact ⟨rfl, rfl, rfl, rfl, rfl, rfl, rfl, rfl⟩
  · simp only [settleDirect, if_pos ok]
  · simp only [readDirect] at ok
    split at ok
    · rename_i failed
      rw [ok] at failed
      cases failed
    · split at ok
      · cases ok
      · rename_i same
        exact not_not.mp same

/-- A direct read counts one block, one request and the bytes of its window. -/
theorem Tallied.directly (tallied : call.Tallied reads 0 0 0 0) (counted : i < call.span.count)
    (unresolved : call.resolved i = false) (nothing : call.outstanding = [])
    (direct : ReadsDirectly call next i) (whole : result.bytesRead = (call.window i).length) :
    next.Tallied (reads ++ [result]) 0 0 0 0 := by
  have card := card_resolvedBlocks (span_congr direct.reader direct.request) direct.resolved
    counted unresolved
  have blocks := tallied.blocks
  have bytes := tallied.bytes
  have requests := tallied.requests
  refine ⟨?_, ?_, ?_, ?_, ?_, ?_⟩
  · intro block blockMem
    rw [outstanding, direct.owned] at blockMem
    rw [outstanding] at nothing
    rw [nothing] at blockMem
    cases blockMem
  · rw [direct.metrics, direct.cacheServed, card]
    dsimp only
    omega
  · rw [delivered_append, direct.metrics, direct.served]
    have single : delivered [result] = result.bytesRead := Nat.add_zero _
    dsimp only
    omega
  · rw [List.length_append, direct.metrics]
    dsimp only [List.length_singleton]
    omega
  · rw [direct.metrics]
    exact tallied.blockHits
  · rw [direct.metrics]
    exact tallied.partialHits

theorem settleDirect_gives_up {written : Bytes} (resume : Pc)
    (failed : ¬(call.readDirect i result written).2.isOk = true) :
    ∃ status, (call.settleDirect i result written resume).pc = .giveUp ⟨0, status⟩ := by
  simp only [settleDirect, if_neg failed]
  exact ⟨_, rfl⟩

theorem booked_settleDirect (tallied : call.Tallied reads 0 0 0 0) (counted : i < call.span.count)
    (unresolved : call.resolved i = false) (nothing : call.outstanding = []) (result : ReadResult)
    (written : Bytes) {resume : Pc} (resumes : ∀ next : Call, ReadsDirectly call next i →
      next.Tallied (reads ++ [result]) 0 0 0 0 → next.Booked (reads ++ [result]) resume) :
    (call.settleDirect i result written resume).Booked (reads ++ [result])
      (call.settleDirect i result written resume).pc := by
  by_cases ok : (call.readDirect i result written).2.isOk = true
  · rcases settleDirect_reads resume ok with ⟨direct, place, whole⟩
    rw [place]
    exact resumes _ direct (tallied.directly counted unresolved nothing direct whole)
  · rcases settleDirect_gives_up resume ok with ⟨status, place⟩
    rw [place]
    trivial

theorem booked_mismatch (tallied : call.Tallied reads 0 0 0 0) (apart : call.Apart)
    (counted : i < call.span.count) (unresolved : call.resolved i = false)
    (below : ∀ j ∈ call.busy, j < i) (nothing : call.outstanding = []) (result : ReadResult)
    (written : Bytes) :
    (call.settleDirect i result written (.acquire (i + 1))).Booked (reads ++ [result])
      (call.settleDirect i result written (.acquire (i + 1))).pc := by
  apply booked_settleDirect tallied counted unresolved nothing
  intro next direct nextTallied
  refine ⟨nextTallied, ?_, ?_⟩
  · apply apart.resolves (span_congr direct.reader direct.request) direct.resolved direct.busy
      (not_mem_of_forall_lt below)
    rw [outstanding, direct.owned]
    exact fun _ owns => owns
  · rw [direct.busy]
    exact fun j jMem => Nat.lt_succ_of_lt (below j jMem)

theorem booked_direct (tallied : call.Tallied reads 0 0 0 0) (counted : i < call.span.count)
    (unresolved : call.resolved i = false) (earlier : ∀ j < i, call.resolved j = true)
    (nothing : call.outstanding = []) (result : ReadResult) (written : Bytes) :
    (call.settleDirect i result written (.direct (i + 1))).Booked (reads ++ [result])
      (call.settleDirect i result written (.direct (i + 1))).pc := by
  apply booked_settleDirect tallied counted unresolved nothing
  intro next direct nextTallied
  refine ⟨nextTallied, ?_⟩
  rw [direct.resolved]
  refine resolved_upTo (update_self _ _ _) ?_
  intro j lower
  rw [update_of_ne (Nat.ne_of_lt lower)]
  exact earlier j lower

/-! ### Loading -/

theorem Apart.not_busy (apart : call.Apart) (onward : call.span.first ≤ block)
    (owns : block ∈ call.outstanding) : block - call.span.first ∉ call.busy := by
  intro busy
  apply apart.unowned _ busy
  rw [Nat.add_sub_cancel' onward]
  exact owns

section

variable (valid : call.Valid)

include valid

theorem Valid.sub_first_ne {other : ℕ} (owns : block ∈ call.outstanding)
    (ownsOther : other ∈ call.outstanding) (distinct : other ≠ block) :
    other - call.span.first ≠ block - call.span.first := by
  have := (valid.inside block owns).1
  have := (valid.inside other ownsOther).1
  omega

theorem Valid.lt_count (admitted : call.Admitted)
    (owns : block ∈ call.outstanding) : block - call.span.first < call.span.count := by
  rw [admitted.lt_count_iff, Nat.add_sub_cancel' (valid.inside block owns).1]
  exact (valid.inside block owns).2

theorem booked_publishedLoaded (admitted : call.Admitted) {payload : Bytes}
    {todo : List ℕ} (place : call.pc = .publishLoaded block payload todo)
    (booked : call.Booked reads (.publishLoaded block payload todo)) (evicted : ℕ) :
    (call.publishedLoaded block payload todo evicted).Booked reads (.load todo) := by
  rcases booked with ⟨tallied, apart⟩
  have owns : block ∈ call.outstanding := by
    exact List.Sublist.subset (valid.placed_at place) List.mem_cons_self
  have owned : (call.publishedLoaded block payload todo evicted).outstanding =
      call.outstanding.erase block :=
    call.owned.outstanding_settle block
  have serves : Serves call (call.publishedLoaded block payload todo evicted)
      (block - call.span.first) :=
    ⟨rfl, rfl, rfl, congrArg _ (call.overlap_fst _ payload), rfl,
      congrArg _ (call.overlap_fst _ payload), rfl, rfl, rfl, rfl, rfl⟩
  have kept : ∀ other ∈ (call.publishedLoaded block payload todo evicted).outstanding,
      other ∈ call.outstanding ∧ other - call.span.first ≠ block - call.span.first := by
    intro other otherMem
    rw [owned, valid.nodup.mem_erase_iff] at otherMem
    exact ⟨otherMem.2, valid.sub_first_ne owns otherMem.2 otherMem.1⟩
  refine ⟨tallied.serves serves (valid.lt_count admitted owns) (tallied.owned block owns) kept, ?_⟩
  exact apart.resolves rfl rfl rfl (apart.not_busy (valid.inside block owns).1 owns)
    fun other otherMem => (kept other otherMem).1

/-! ### Fetching -/

theorem booked_fetched (place : call.pc = .fetch (run :: runs))
    (booked : call.Booked reads (.fetch (run :: runs))) (result : ReadResult) (written : Bytes) :
    (call.fetched run runs result written).Booked (reads ++ [result])
      (call.fetched run runs result written).pc := by
  rcases booked with ⟨tallied, apart⟩
  have placed := valid.placed_at place
  simp only [fetched]
  split
  · trivial
  · split
    · trivial
    · rename_i whole
      have bytes := tallied.bytes
      have requests := tallied.requests
      have single : delivered [result] = result.bytesRead := Nat.add_zero _
      refine ⟨{ tallied with bytes := ?_, requests := ?_ }, apart.at_place _, ?_⟩
      · rw [delivered_append]
        dsimp only
        omega
      · rw [List.length_append]
        rw [List.length_cons] at requests
        change _ = call.metrics.blockMisses + call.outstanding.length
        dsimp only [List.length_singleton]
        omega
      · -- The run starts at the first of the blocks that are owned.
        change ∀ block ∈ call.outstanding, run.offset + 0 ≤ block * call.blockSize
        simp only [Placed] at placed
        generalize call.outstanding = owned at placed
        cases placed with
        | @run first last group rest _ firstMem _ grouped behind _ =>
          intro block blockMem
          have onward : first ≤ block := by
            rcases List.mem_append.mp blockMem with blockMem | blockMem
            · exact (grouped block blockMem).1
            · have := behind block blockMem
              have := (grouped first firstMem).2
              omega
          change (extentOf first call.blockSize _).offset + 0 ≤ _
          rw [extentOf_offset, Nat.add_zero]
          exact Nat.mul_le_mul_right _ onward

theorem booked_publishStep
    (booked : call.Booked reads (.publishFetched run transfer taken runs)) (store : BlockCache) :
    (call.publishStep store run transfer taken runs).1.Booked reads
      (call.publishStep store run transfer taken runs).1.pc := by
  rcases booked with ⟨tallied, apart, behind⟩
  have blocks := tallied.blocks
  have bytes := tallied.bytes
  have requests := tallied.requests
  simp only [publishStep]
  split
  · rename_i inRun
    have unsettledSome : call.owned.allSettled = false := by
      simp only [Call.inRun, Bool.and_eq_true, Bool.not_eq_true'] at inRun
      exact inRun.1
    have head : call.outstanding = call.owned.next :: call.owned.markPublished.outstanding :=
      OwnedBlocks.outstanding_cons unsettledSome
    have owns : call.owned.next ∈ call.outstanding := by
      rw [head]
      exact List.mem_cons_self
    have ascending := valid.ascending
    rw [head, List.pairwise_cons] at ascending
    have kept : ∀ block ∈ call.owned.markPublished.outstanding, block ∈ call.outstanding := by
      rw [head]
      exact fun block => List.mem_cons_of_mem _
    refine ⟨⟨?_, ?_, bytes, ?_, tallied.blockHits, tallied.partialHits⟩,
      ⟨apart.ascending, apart.unresolved, ?_⟩, tallied.owned _ owns,
      apart.not_busy (valid.inside _ owns).1 owns, ascending.1, behind _ owns⟩
    · exact fun block blockMem => tallied.owned block (kept block blockMem)
    · change call.metrics.blockMisses + 1 + call.cacheServed = call.resolvedBlocks.card + 1
      omega
    · rw [head, List.length_cons] at requests
      change reads.length + call.metrics.requestsSavedByCoalescing + runs.length =
        call.metrics.blockMisses + 1 + call.owned.markPublished.outstanding.length
      omega
    · exact fun j jMem owns => apart.unowned j jMem (kept _ owns)
  · -- What nobody took of the run is charged.
    refine ⟨{ tallied with bytes := ?_ }, { apart with }⟩
    change delivered reads + call.metrics.bytesFromCache =
      call.served + (call.metrics.bytesOverFetched + overFetchedBytes run taken) + 0
    have charged : overFetchedBytes run taken = run.length - taken := by
      simp only [overFetchedBytes]
      split <;> omega
    omega

theorem booked_persisted (admitted : call.Admitted)
    (place : call.pc = .persist block run transfer taken runs)
    (booked : call.Booked reads (.persist block run transfer taken runs)) (stored : Bool) :
    (call.persisted block run transfer taken runs stored).Booked reads
      (call.persisted block run transfer taken runs stored).pc := by
  rcases booked with ⟨tallied, apart, unresolved, notBusy, behind, started⟩
  have placed := valid.placed_at place
  rcases placed with ⟨first, last, group, rest, fetching, lower, upper, onward⟩
  have counted : block - call.span.first < call.span.count := by
    rw [admitted.lt_count_iff, Nat.add_sub_cancel' onward]
    exact Nat.le_trans upper fetching.inside
  -- The window of the block lies in its extent, and the extent in the run.
  have inWindow := call.window_length_le (block - call.span.first)
  rw [Nat.add_sub_cancel' onward] at inWindow
  have inRun := extentOf_inside_closeRun lower upper (admitted.block_inside fetching.inside)
  rw [← fetching.run_eq, extentOf_offset] at inRun
  have extentLength : (call.extent block).length =
      (extentOf block call.blockSize call.reader.metadata.size).length := rfl
  have short := extentOf_length_le_blockSize block call.blockSize call.reader.metadata.size
  have taken_eq := call.overlap_fst (block - call.span.first)
    (call.blockBytes run transfer block)
  have blocks := tallied.blocks
  have bytes := tallied.bytes
  refine ⟨⟨?_, ?_, ?_, tallied.requests, tallied.blockHits, tallied.partialHits⟩,
    apart.resolves rfl rfl rfl notBusy fun _ owns => owns, ?_⟩
  · intro later laterMem
    have := behind later laterMem
    change update call.resolved (block - call.span.first) true
      (later - call.span.first) = false
    rw [update_of_ne (by omega)]
    exact tallied.owned later laterMem
  · have card : (call.persisted block run transfer taken runs stored).resolvedBlocks.card =
        call.resolvedBlocks.card + 1 :=
      card_resolvedBlocks rfl rfl counted unresolved
    rw [card]
    exact blocks
  · change delivered reads + call.metrics.bytesFromCache =
      call.served + (call.overlap _ _).1 + call.metrics.bytesOverFetched +
        (run.length - (taken + (call.overlap _ _).1))
    omega
  · change ∀ later ∈ call.outstanding,
      run.offset + (taken + (call.overlap _ _).1) ≤ later * call.blockSize
    intro later laterMem
    have next : (block + 1) * call.blockSize ≤ later * call.blockSize :=
      Nat.mul_le_mul_right _ (behind later laterMem)
    rw [Nat.add_mul, Nat.one_mul] at next
    omega

end

theorem persistStep_reads
    (stepped : call.persistStep block run transfer taken runs answer = some next) :
    answer.reads = [] := by
  cases answer with
  | read result written => cases stepped
  | _ => rfl

/-! ### Waiting -/

theorem booked_awaited (valid : call.Valid) {todo : List ℕ} (place : call.pc = .await (i :: todo))
    (booked : call.Booked reads (.await (i :: todo))) (block : Option Bytes) :
    (call.awaited i todo block).Booked reads (call.awaited i todo block).pc := by
  rcases booked with ⟨tallied, ascending, unresolved⟩
  have placed := valid.placed_at place
  rcases List.pairwise_cons.mp ascending with ⟨later, rest⟩
  have waiting : ∀ j ∈ todo, call.resolved j = false :=
    fun j jMem => unresolved j (List.mem_cons_of_mem _ jMem)
  simp only [awaited]
  split
  · exact ⟨tallied.at_place _, rest, waiting⟩
  · rename_i bytes
    split
    · refine ⟨tallied.serves ?_ (placed.2 i List.mem_cons_self)
        (unresolved i List.mem_cons_self) ?_, rest, ?_⟩
      · exact ⟨rfl, rfl, rfl, congrArg _ (call.overlap_fst i bytes), rfl,
          congrArg _ (call.overlap_fst i bytes), rfl, rfl, rfl, rfl, rfl⟩
      · intro owned ownedMem
        change owned ∈ call.outstanding at ownedMem
        rw [placed.1] at ownedMem
        cases ownedMem
      · intro j jMem
        change update call.resolved i true j = false
        rw [update_of_ne (Nat.ne_of_gt (later j jMem))]
        exact waiting j jMem
    · exact ⟨tallied.at_place _, rest, waiting⟩

theorem booked_passDone (tallied : call.Tallied reads 0 0 0 0) (last : Bool) :
    (call.passDone last).Booked reads (call.passDone last).pc := by
  simp only [passDone]
  split
  · exact ⟨tallied.at_place _, by simp⟩
  · exact ⟨{ tallied with owned := List.forall_mem_nil _ },
      ⟨.nil, List.forall_mem_nil _, List.forall_mem_nil _⟩, List.forall_mem_nil _⟩

/-! ### The end of a read -/

/-- Finishing counts the read, and nothing else. -/
structure Finishes (call next : Call) : Prop where
  span : next.span = call.span
  cacheServed : next.cacheServed = call.cacheServed
  blockMisses : next.metrics.blockMisses = call.metrics.blockMisses
  bytesFromCache : next.metrics.bytesFromCache = call.metrics.bytesFromCache
  bytesOverFetched : next.metrics.bytesOverFetched = call.metrics.bytesOverFetched
  requestsSaved :
    next.metrics.requestsSavedByCoalescing = call.metrics.requestsSavedByCoalescing
  blockHits : next.metrics.blockHits =
    call.metrics.blockHits + if call.cacheServed = call.span.count then 1 else 0
  partialHits : next.metrics.partialHits = call.metrics.partialHits +
    if call.cacheServed ≠ call.span.count ∧ 0 < call.cacheServed then 1 else 0

theorem finished_finishes (call : Call) : Finishes call call.finished := by
  refine ⟨rfl, rfl, ?_, ?_, ?_, ?_, ?_, ?_⟩
  all_goals
    simp only [finished]
    split
    · rename_i hit
      simp [hit]
    · rename_i missed
      split
      · rename_i some
        simp [missed, some]
      · rename_i none
        simp [missed, none]

theorem Tallied.finished (tallied : call.Tallied reads 0 0 0 0)
    (resolved : ∀ j < call.span.count, call.resolved j = true)
    (place : call.finished.pc = .returned result) (ok : result.status.code = .ok) :
    call.finished.Conserved reads result := by
  have all : call.resolvedBlocks.card = call.span.count := by
    have every : call.resolvedBlocks = Finset.range call.span.count := by
      apply Finset.filter_true_of_mem
      intro i counted
      exact resolved i (Finset.mem_range.mp counted)
    rw [every, Finset.card_range]
  have served : call.served = result.bytesRead := by
    simp only [Call.finished, Pc.returned.injEq] at place
    subst place
    split at ok
    · cases ok
    · rename_i complete
      rw [if_neg complete]
      exact not_not.mp complete
  have blocks := tallied.blocks
  have bytes := tallied.bytes
  have requests := tallied.requests
  have positive : 0 < call.span.count := Nat.succ_pos _
  have finishes := call.finished_finishes
  refine ⟨?_, ?_, ?_, ?_, ?_⟩
  · rw [finishes.bytesFromCache, finishes.bytesOverFetched]
    omega
  · rw [finishes.requestsSaved, finishes.blockMisses]
    omega
  · rw [finishes.blockMisses, finishes.cacheServed, finishes.span]
    omega
  · rw [finishes.blockHits, finishes.blockMisses, tallied.blockHits, Nat.zero_add]
    congr 1
    apply propext
    omega
  · rw [finishes.partialHits, finishes.blockMisses, finishes.span, tallied.partialHits,
      Nat.zero_add]
    congr 1
    apply propext
    omega

theorem booked_directStep (valid : call.Valid) (place : call.pc = .direct i)
    (booked : call.Booked reads (.direct i)) (stepped : call.directStep i answer = some next) :
    next.Booked (reads ++ answer.reads) next.pc := by
  rcases booked with ⟨tallied, earlier⟩
  have nothing : call.outstanding = [] :=
    valid.placed_at place
  simp only [directStep] at stepped
  split at stepped
  · rename_i counted
    split at stepped
    · rename_i resolved
      split at stepped
      · rename_i silent
        cases stepped
        subst silent
        rw [Answer.reads, List.append_nil]
        exact ⟨tallied.at_place _, resolved_upTo resolved earlier⟩
      · cases stepped
    · rename_i unresolved
      rw [Bool.not_eq_true] at unresolved
      split at stepped
      · cases stepped
        exact booked_direct tallied counted unresolved earlier nothing _ _
      · cases stepped
  · rename_i past
    split at stepped
    · rename_i silent
      cases stepped
      subst silent
      rw [Answer.reads, List.append_nil]
      intro ok
      refine tallied.finished ?_ rfl ok
      intro j counted
      exact earlier j (by omega)
    · cases stepped

/-! ### Any step -/

theorem booked_handedBack (hands : call.handsBack = true) (booked : call.Booked reads call.pc) :
    call.handedBack.Booked reads call.handedBack.pc := by
  have kept : ∀ block ∈ call.handedBack.outstanding, block ∈ call.outstanding := by
    rw [outstanding_handedBack]
    exact fun block => List.mem_of_mem_erase
  have released : call.Tallied reads 0 0 0 0 → call.handedBack.Tallied reads 0 0 0 0 := by
    intro tallied
    exact { tallied with owned := fun block blockMem => tallied.owned block (kept block blockMem) }
  change call.handedBack.Booked reads call.pc
  cases place : call.pc with
  | mismatch i =>
    rw [place] at booked
    rcases booked with ⟨tallied, apart, below, unresolved⟩
    exact ⟨released tallied, ⟨apart.ascending, apart.unresolved,
      fun j jMem owns => apart.unowned j jMem (kept _ owns)⟩, below, unresolved⟩
  | giveUp result => trivial
  | endPass last =>
    rw [place] at booked
    exact released booked
  | _ => simp [handsBack, place] at hands

theorem booked_advance (valid : call.Valid) (admitted : call.Admitted)
    (kept : call.handsBack = false) (booked : call.Booked reads call.pc)
    (stepped : call.advance store answer = some outcome) :
    outcome.1.Booked (reads ++ answer.reads) outcome.1.pc := by
  have placed := valid.placed
  simp only [advance] at stepped
  split at stepped
  · rename_i i place
    cases stepped
    rw [place] at booked
    rw [Answer.reads, List.append_nil]
    exact booked_acquireStep valid place booked store
  · rename_i i result written place
    cases stepped
    rw [place] at booked placed
    rcases booked with ⟨tallied, apart, below, unresolved⟩
    have nothing : call.outstanding = [] := by
      apply allSettled_iff_outstanding.mp
      simpa only [handsBack, place, Bool.not_eq_false'] using kept
    exact booked_mismatch tallied apart placed.1 unresolved below nothing result written
  · rename_i place
    cases stepped
    rw [place] at booked
    rw [Answer.reads, List.append_nil]
    exact booked_planned valid booked.1 booked.2
  · rename_i block todo payload place
    cases stepped
    rw [place] at booked
    rw [Answer.reads, List.append_nil]
    cases payload <;> exact ⟨booked.1.at_place _, booked.2.at_place _⟩
  · rename_i block payload todo place
    cases stepped
    rw [place] at booked
    rw [Answer.reads, List.append_nil]
    exact booked_publishedLoaded valid admitted place booked _
  · rename_i place
    cases stepped
    rw [place] at booked placed
    rcases booked with ⟨tallied, apart⟩
    rw [Partitions.blocks_eq_nil placed] at tallied
    rw [Answer.reads, List.append_nil]
    exact ⟨tallied.at_place _, apart.ascending, apart.unresolved⟩
  · rename_i run runs result written place
    cases stepped
    rw [place] at booked
    exact booked_fetched valid place booked result written
  · rename_i run transfer taken runs place
    cases stepped
    rw [place] at booked
    rw [Answer.reads, List.append_nil]
    exact booked_publishStep valid booked store
  · rename_i block run transfer taken runs place
    rcases Option.map_eq_some_iff.mp stepped with ⟨next, persisted, rfl⟩
    rw [place] at booked
    rcases persistStep_eq persisted with ⟨stored, rfl⟩
    rw [persistStep_reads persisted, List.append_nil]
    exact booked_persisted valid admitted place booked stored
  · rename_i result place
    cases stepped
    rw [place] at placed
    exact fun ok => absurd ok placed
  · rename_i place
    cases stepped
    rw [place] at booked
    rw [Answer.reads, List.append_nil]
    exact booked.1.at_place _
  · rename_i i todo place
    rcases Option.map_eq_some_iff.mp stepped with ⟨checked, awaited, rfl⟩
    rw [place] at booked
    rw [Answer.reads, List.append_nil]
    exact booked_awaited valid place booked _
  · rename_i last place
    cases stepped
    rw [place] at booked
    rw [Answer.reads, List.append_nil]
    exact booked_passDone booked last
  · rename_i i place
    rcases Option.map_eq_some_iff.mp stepped with ⟨next, direct, rfl⟩
    rw [place] at booked
    exact booked_directStep valid place booked direct
  · rename_i result written place
    rw [place] at booked
    exact booked.elim
  · cases stepped

theorem booked_step (valid : call.Valid) (booked : call.Booked reads call.pc)
    (stepped : call.step store answer = some outcome) :
    outcome.1.Booked (reads ++ answer.reads) outcome.1.pc := by
  have admitted := valid.admitted (not_returned_of_step stepped)
  cases hands : call.handsBack with
  | true =>
    simp only [step, hands, if_true] at stepped
    split at stepped
    · rename_i silent
      cases stepped
      subst silent
      rw [Answer.reads, List.append_nil]
      exact booked_handedBack hands booked
    · cases stepped
  | false =>
    simp only [step, hands] at stepped
    exact booked_advance valid admitted hands booked stepped

end Steps

end Call

/-! ### Whole runs -/

namespace System

variable {system next : System} {past : List Event}

def innerReads (callId : ℕ) (events : List Event) : List ReadResult :=
  events.flatMap fun event =>
    match event with
    | .step other answer => if other = callId then answer.reads else []
    | _ => []

theorem innerReads_append (callId : ℕ) (past : List Event) (event : Event) :
    innerReads callId (past ++ [event]) = innerReads callId past ++ innerReads callId [event] :=
  List.flatMap_append

/-- The books of every call agree with the inner reads it made. -/
structure Booked (past : List Event) (system : System) : Prop where
  coherent : system.Coherent
  booked : ∀ {callId : ℕ} {state : CallState}, system.calls[callId]? = some state →
    state.call.ThroughCache → state.call.Booked (innerReads callId past) state.call.pc
  unborn : ∀ callId, system.calls.length ≤ callId → innerReads callId past = []

theorem Booked.stepped (books : system.Booked past) {callId : ℕ}
    {state : CallState} (found : system.calls[callId]? = some state)
    (took : state.call.step system.store answer = some outcome) :
    (system.stepped callId state outcome).Booked (past ++ [.step callId answer]) := by
  have valid := books.coherent.valid found
  have stepped := valid.step_stepped (books.coherent.ownsPending found) took
  refine ⟨books.coherent.stepped found took, ?_, ?_⟩
  · intro otherId other otherAt cached
    rw [innerReads_append]
    rcases Machine.getElem?_set_cases otherAt with ⟨rfl, rfl⟩ | ⟨elsewhere, oldAt⟩
    · have sameCached : state.call.ThroughCache := by
        simp only [Call.ThroughCache, Call.Admitted, Call.range, stepped.reader,
          stepped.request] at cached
        exact cached
      have own : innerReads otherId [.step otherId answer] = answer.reads := by
        simp [innerReads]
      rw [own]
      exact Call.booked_step valid (books.booked found sameCached) took
    · have none : innerReads otherId [.step callId answer] = [] := by
        simp [innerReads, Ne.symm elsewhere]
      rw [none, List.append_nil]
      exact books.booked oldAt cached
  · intro otherId beyond
    change (system.calls.set callId _).length ≤ otherId at beyond
    rw [List.length_set] at beyond
    have inside := (List.getElem?_eq_some_iff.mp found).1
    have none : innerReads otherId [.step callId answer] = [] := by
      have elsewhere : callId ≠ otherId := by omega
      simp [innerReads, elsewhere]
    rw [innerReads_append, none, List.append_nil]
    exact books.unborn otherId beyond

theorem Booked.quiet {event : Event} (books : system.Booked past)
    (coherent : next.Coherent) (calls : next.calls = system.calls)
    (readsNothing : ∀ callId, innerReads callId [event] = []) : next.Booked (past ++ [event]) := by
  refine ⟨coherent, ?_, ?_⟩
  · intro callId state found cached
    rw [innerReads_append, readsNothing, List.append_nil]
    exact books.booked (calls ▸ found) cached
  · intro callId beyond
    rw [innerReads_append, readsNothing, List.append_nil]
    exact books.unborn callId (calls ▸ beyond)

theorem Booked.step {event : Event} (books : system.Booked past)
    (stepped : system.step event = some next) : next.Booked (past ++ [event]) := by
  have coherent := books.coherent.step stepped
  rcases step_cases stepped with
    ⟨metadata, options, persistentEnabled, rfl, rfl⟩ | ⟨readerId, state, rfl, found, _, rfl⟩ |
      ⟨readerId, state, request, rfl, found, _, rfl⟩ |
        ⟨callId, state, answer, outcome, rfl, found, took, rfl⟩
  · exact books.quiet coherent rfl fun _ => rfl
  · exact books.quiet coherent rfl fun _ => rfl
  · refine ⟨coherent, ?_, ?_⟩
    · intro callId called calledAt cached
      rw [innerReads_append]
      have none : innerReads callId [.read readerId request] = [] := rfl
      rw [none, List.append_nil]
      rcases Machine.getElem?_append_singleton calledAt with old | ⟨rfl, rfl⟩
      · exact books.booked old cached
      · rw [books.unborn _ (Nat.le_refl _)]
        exact Call.start_booked cached
    · intro callId beyond
      have none : innerReads callId [.read readerId request] = [] := rfl
      rw [innerReads_append, none, List.append_nil]
      apply books.unborn
      change (system.calls ++ [_]).length ≤ callId at beyond
      rw [List.length_append] at beyond
      omega
  · exact books.stepped found took

/-- Whatever served a read that succeeded, and however other calls ran beside it: the bytes the
inner reader delivered are those that did not come from the cache and those that are charged as
over-fetched, the inner reads are the missed blocks less those that were merged away, and every
block of the span was missed or served from the cache. -/
theorem cachedRead_conserved (options : CacheOptions) (events : List Event) (final : System)
    (reached : Machine.run System.step (create options) events = some final) (callId : ℕ)
    (state : CallState) (found : final.calls[callId]? = some state)
    (cached : state.call.ThroughCache) (result : ReadResult)
    (returned : state.call.pc = .returned result) (ok : result.status.code = .ok) :
    state.call.Conserved (innerReads callId events) result := by
  have initially : (create options).Booked [] :=
    ⟨coherent_create options, nofun, fun _ _ => rfl⟩
  have books : final.Booked ([] ++ events) := by
    refine Machine.invariant_of_history ?_ initially reached
    intro past before event after books stepped
    exact books.step stepped
  have booked := books.booked found cached
  rw [returned] at booked
  exact booked ok

/-- One call fetches the last block of three; the next finds it and fetches the other two at once,
but takes less than they hold. -/
def mergedEvents : List Event :=
  [Event.wrap (sizedMetadata 9000) smallBlocks false, Event.read 0 ⟨8192, fun _ => 0, false, 10⟩] ++
    List.replicate 2 (Event.step 0 .silent) ++ [Event.step 0 (.read ⟨808, .success⟩ [])] ++
    List.replicate 11 (Event.step 0 .silent) ++ [Event.read 0 ⟨100, fun _ => 0, false, 8500⟩] ++
    List.replicate 4 (Event.step 1 .silent) ++ [Event.step 1 (.read ⟨8192, .success⟩ [])] ++
    List.replicate 17 (Event.step 1 .silent)

theorem mergedEvents_reach :
    ∃ final ∈ Machine.run System.step (create smallBlocks) mergedEvents,
      ∃ state ∈ final.calls[1]?, state.call.pc = .returned ⟨8500, .success⟩ ∧
        (state.call.range.outcome = .transfer ∧
          ¬(state.call.request.size > 0 ∧ state.call.request.dstIsNull = true)) ∧
        state.call.range.length < state.call.reader.options.bypassThresholdBytes := by
  decide +kernel

theorem cachedRead_conserved_merged :
    ∃ final state, Machine.run System.step (create smallBlocks) mergedEvents = some final ∧
      final.calls[1]? = some state ∧
      delivered (innerReads 1 mergedEvents) = 8192 ∧
      8192 + state.call.metrics.bytesFromCache = 8500 + state.call.metrics.bytesOverFetched := by
  rcases mergedEvents_reach with ⟨final, reached, state, found, returned, admitted, short⟩
  have conserved := cachedRead_conserved smallBlocks mergedEvents final reached 1 state found
    ⟨admitted, short⟩ _ returned rfl
  have moved : delivered (innerReads 1 mergedEvents) = 8192 := by decide +kernel
  have bytes := conserved.bytes
  rw [moved] at bytes
  exact ⟨final, state, reached, found, moved, bytes⟩

end System

end UsdAsset.Cache
