import Mathlib.Data.List.Basic
import Mathlib.Tactic.Tauto
import UsdAsset.Cache.ReadCached

/-!
# What one step of a call does

A call that stands somewhere owns what fits that place: the blocks behind the
acquisition loop, the blocks the remaining runs partition, or nothing where it
waits.  One step keeps this, and changes the entries of the store in one of four
ways together with what the call owns.
-/

namespace UsdAsset.Cache

open BlockCache

variable {i block taken : ℕ} {run : FetchRun} {runs : List FetchRun} {after : BlockCache}
  {transfer : Bytes} {answer : Answer} {outcome : Call × BlockCache}

namespace Call

variable {call next : Call} {store : BlockCache}

/-! ### The blocks of the span -/

/-- The call found something to transfer and a buffer to put it in. -/
def Admitted (call : Call) : Prop :=
  call.range.outcome = .transfer ∧ ¬(call.request.size > 0 ∧ call.request.dstIsNull = true)

theorem Admitted.length_pos (admitted : call.Admitted) : 0 < call.range.length :=
  (resolveReadRange_transfer admitted.1).1

theorem range_offset (call : Call) : call.range.offset = call.request.offset :=
  resolveReadRange_offset _ _ _

theorem Admitted.range_inside (admitted : call.Admitted) :
    call.range.offset + call.range.length ≤ call.reader.metadata.size := by
  have resolved := resolveReadRange_transfer admitted.1
  have length : call.range.length =
      min call.request.size (call.reader.metadata.size - call.request.offset) := resolved.2.1
  have := resolved.2.2.2
  rw [call.range_offset, length]
  omega

theorem Admitted.span_ordered (admitted : call.Admitted) : call.span.first ≤ call.span.last := by
  have := admitted.length_pos
  exact Nat.div_le_div_right (by omega)

theorem Admitted.lt_count_iff (admitted : call.Admitted) :
    i < call.span.count ↔ call.span.first + i ≤ call.span.last := by
  have := admitted.span_ordered
  simp only [BlockSpan.count]
  omega

theorem Admitted.block_inside (admitted : call.Admitted) (covers : block ≤ call.span.last) :
    block * call.blockSize < call.reader.metadata.size :=
  coveringBlocks_inside admitted.length_pos admitted.range_inside covers

/-! ### Where a call stands -/

/-- The rest of a run's blocks comes first in what is owned, and the later runs cover the rest. -/
structure Fetching (call : Call) (run : FetchRun) (runs : List FetchRun)
    (first last : ℕ) (group rest : List ℕ) : Prop where
  run_eq : run = closeRun call.blockSize call.reader.metadata.size first last
  ordered : first ≤ last
  inside : last ≤ call.span.last
  outstanding_eq : call.outstanding = group ++ rest
  grouped : ∀ block ∈ group, first ≤ block ∧ block ≤ last
  behind : ∀ block ∈ rest, last < block
  later : Partitions call.blockSize call.reader.metadata.size runs rest

/-- What a call at a place owns. -/
def Placed (call : Call) : Pc → Prop
  | .acquire i => ∀ block ∈ call.outstanding, block < call.span.first + i
  | .mismatch i =>
      i < call.span.count ∧ ∀ block ∈ call.outstanding, block < call.span.first + i
  | .load todo => List.Sublist todo call.outstanding
  | .publishLoaded block _ todo => List.Sublist (block :: todo) call.outstanding
  | .fetch runs => Partitions call.blockSize call.reader.metadata.size runs call.outstanding
  | .publishFetched run _ _ runs =>
      ∃ first last group rest, call.Fetching run runs first last group rest
  | .persist block run _ _ runs =>
      ∃ first last group rest, call.Fetching run runs first last group rest ∧
        first ≤ block ∧ block ≤ last ∧ call.span.first ≤ block
  | .giveUp result => result.status.code ≠ .ok
  | .await todo => call.outstanding = [] ∧ ∀ i ∈ todo, i < call.span.count
  | .endPass _ | .direct _ | .bypass | .returned _ => call.outstanding = []

structure Valid (call : Call) : Prop where
  ascending : call.outstanding.Pairwise (· < ·)
  inside : ∀ block ∈ call.outstanding, call.span.first ≤ block ∧ block ≤ call.span.last
  busy : ∀ i ∈ call.busy, i < call.span.count
  admitted : (∀ result, call.pc ≠ .returned result) → call.Admitted
  recorded : ∀ block ∈ call.ledger.acquired,
    block ∈ call.outstanding ∨ block ∈ call.ledger.published ∨ block ∈ call.ledger.abandoned
  placed : call.Placed call.pc

theorem Valid.nodup (valid : call.Valid) : call.outstanding.Nodup :=
  valid.ascending.imp Nat.ne_of_lt

theorem Valid.placed_at (valid : call.Valid) {pc : Pc} (place : call.pc = pc) : call.Placed pc :=
  place ▸ valid.placed

theorem start_valid (reader : CachedAssetReader) (request : ReadRequest) :
    (start reader request).Valid where
  ascending := List.Pairwise.nil
  inside := nofun
  busy := nofun
  admitted := by
    intro running
    simp only [start] at running
    simp only [Admitted, range, start]
    split at running
    · exact absurd rfl (running _)
    · rename_i fits
      split at running
      · exact absurd rfl (running _)
      · rename_i buffered
        split at running
        · exact absurd rfl (running _)
        · rename_i nonempty
          exact ⟨outcome_eq_transfer fits nonempty, buffered⟩
  recorded := nofun
  placed := by
    simp only [start]
    split
    · rfl
    · split
      · rfl
      · split
        · rfl
        · split
          · rfl
          · exact nofun

/-! ### What a step changes -/

/-- The effect of a step on the entries of the store and on what the call owns. -/
inductive Effect (call next : Call) (before after : ShardKey → Option Entry) : Prop where
  | kept (entries : after = before) (owned : next.outstanding = call.outstanding)
  | acquired (block : ℕ) (free : before (call.key block) = none)
      (entries : after = Function.update before (call.key block) (some .pending))
      (owned : next.outstanding = call.outstanding ++ [block])
  | published (block : ℕ) (bytes : Bytes) (owns : block ∈ call.outstanding)
      (publishes : call.publication = some (block, bytes))
      (entries : Forgets (Function.update before (call.key block) (some (.resident bytes))) after)
      (owned : next.outstanding = call.outstanding.erase block)
  | abandoned (block : ℕ) (owns : block ∈ call.outstanding)
      (entries : after = Function.update before (call.key block) none)
      (owned : next.outstanding = call.outstanding.erase block)

/-- What every step of a valid call guarantees. -/
structure Stepped (call : Call) (store : BlockCache) (outcome : Call × BlockCache) : Prop where
  reader : outcome.1.reader = call.reader
  request : outcome.1.request = call.request
  valid : outcome.1.Valid
  effect : Effect call outcome.1 store.lookup outcome.2.lookup
  table : BlockCache.SameTable store outcome.2

/-- A move keeps everything that ownership depends on but the place. -/
structure Moves (call next : Call) : Prop where
  reader : next.reader = call.reader
  request : next.request = call.request
  owned : next.owned = call.owned
  busy : next.busy = call.busy
  ledger : next.ledger = call.ledger

theorem Moves.span (moves : Moves call next) : next.span = call.span := by
  simp only [Call.span, Call.range, Call.blockSize, moves.reader, moves.request]

theorem Moves.outstanding (moves : Moves call next) : next.outstanding = call.outstanding := by
  rw [Call.outstanding, Call.outstanding, moves.owned]

theorem Moves.admitted (moves : Moves call next) (admitted : call.Admitted) : next.Admitted := by
  simp only [Admitted, Call.range, moves.reader, moves.request]
  exact admitted

theorem Moves.fetching (moves : Moves call next) {first last : ℕ} {group rest : List ℕ}
    (fetching : call.Fetching run runs first last group rest) :
    next.Fetching run runs first last group rest where
  run_eq := by
    rw [blockSize, moves.reader]
    exact fetching.run_eq
  ordered := fetching.ordered
  inside := moves.span ▸ fetching.inside
  outstanding_eq := moves.outstanding.trans fetching.outstanding_eq
  grouped := fetching.grouped
  behind := fetching.behind
  later := by
    rw [blockSize, moves.reader]
    exact fetching.later

section

variable (valid : call.Valid) (admitted : call.Admitted) (moves : Moves call next)
    (placed : next.Placed next.pc)

include valid admitted moves placed

theorem Valid.moved : next.Valid where
  ascending := moves.outstanding ▸ valid.ascending
  inside := by
    rw [moves.outstanding, moves.span]
    exact valid.inside
  busy := by
    rw [moves.busy, moves.span]
    exact valid.busy
  admitted := fun _ => moves.admitted admitted
  recorded := by
    rw [moves.ledger, moves.outstanding]
    exact valid.recorded
  placed := placed

theorem Valid.stepped_of_moves
    (entries : after.lookup = store.lookup) (table : SameTable store after) :
    Stepped call store (next, after) where
  reader := moves.reader
  request := moves.request
  valid := valid.moved admitted moves placed
  effect := .kept entries moves.outstanding
  table := table

theorem Valid.moves_stepped : Stepped call store (next, store) :=
  valid.stepped_of_moves admitted moves placed rfl (.refl store)

end

/-! ### The steps -/

theorem allSettled_iff_outstanding : call.owned.allSettled = true ↔ call.outstanding = [] :=
  call.owned.allSettled_iff

theorem planned_moves (call : Call) : Moves call call.planned := by
  simp only [planned]
  split
  · split <;> exact ⟨rfl, rfl, rfl, rfl, rfl⟩
  · exact ⟨rfl, rfl, rfl, rfl, rfl⟩

theorem Valid.planned_placed (valid : call.Valid) : call.planned.Placed call.planned.pc := by
  simp only [planned]
  split
  · rename_i settled
    have nothing := allSettled_iff_outstanding.mp settled
    split
    · exact nothing
    · exact ⟨nothing, valid.busy⟩
  · exact planRuns_partitions valid.ascending

theorem Valid.planned_stepped (valid : call.Valid) (admitted : call.Admitted)
    (store : BlockCache) : Stepped call store (call.planned, store) :=
  valid.moves_stepped admitted call.planned_moves valid.planned_placed

theorem Valid.acquireDone_stepped (valid : call.Valid) (admitted : call.Admitted)
    (store : BlockCache) : Stepped call store (call.acquireDone, store) := by
  simp only [acquireDone]
  split
  · exact valid.moves_stepped admitted ⟨rfl, rfl, rfl, rfl, rfl⟩ (List.Sublist.refl _)
  · exact valid.planned_stepped admitted store

theorem lt_succ_of_forall_lt {blocks : List ℕ} {bound : ℕ} (below : ∀ block ∈ blocks, block < bound) :
    ∀ block ∈ blocks, block < bound + 1 :=
  fun block blockMem => Nat.lt_succ_of_lt (below block blockMem)

section

variable (valid : call.Valid) (admitted : call.Admitted)

include valid admitted

section

variable (counted : i < call.span.count)
    (below : ∀ block ∈ call.outstanding, block < call.span.first + i)

include counted below

theorem Valid.owned_stepped (free : store.lookup (call.key (call.span.first + i)) = none)
    (entries : after.lookup = Function.update store.lookup (call.key (call.span.first + i))
      (some .pending)) (table : SameTable store after) :
    Stepped call store (call.acquired i .owned, after) := by
  have more : (call.acquired i .owned).outstanding =
      call.outstanding ++ [call.span.first + i] :=
    call.owned.outstanding_add _
  have inside := admitted.lt_count_iff.mp counted
  refine ⟨rfl, rfl, ⟨?_, ?_, valid.busy, fun _ => admitted, ?_, ?_⟩,
    .acquired _ free entries more, table⟩
  · rw [more, List.pairwise_append]
    refine ⟨valid.ascending, List.pairwise_singleton _ _, ?_⟩
    intro block blockMem later laterMem
    rw [List.mem_singleton.mp laterMem]
    exact below block blockMem
  · rw [more]
    intro block blockMem
    rcases List.mem_append.mp blockMem with blockMem | blockMem
    · exact valid.inside block blockMem
    · rw [List.mem_singleton.mp blockMem]
      exact ⟨Nat.le_add_right _ _, inside⟩
  · rw [more]
    intro block blockMem
    rcases List.mem_append.mp blockMem with blockMem | blockMem
    · rcases valid.recorded block blockMem with owned | settled
      · exact Or.inl (List.mem_append_left _ owned)
      · exact Or.inr settled
    · exact Or.inl (List.mem_append_right _ blockMem)
  · change ∀ block ∈ (call.acquired i .owned).outstanding, block < call.span.first + (i + 1)
    rw [more]
    intro block blockMem
    rcases List.mem_append.mp blockMem with blockMem | blockMem
    · exact lt_succ_of_forall_lt below block blockMem
    · rw [List.mem_singleton.mp blockMem]
      exact Nat.lt_succ_self _

theorem Valid.busy_stepped (entries : after.lookup = store.lookup) (table : SameTable store after) :
    Stepped call store (call.acquired i .busy, after) := by
  refine ⟨rfl, rfl, ⟨valid.ascending, valid.inside, ?_, fun _ => admitted, valid.recorded,
    lt_succ_of_forall_lt below⟩, .kept entries rfl, table⟩
  intro j jMem
  rcases List.mem_append.mp jMem with jMem | jMem
  · exact valid.busy j jMem
  · rw [List.mem_singleton.mp jMem]
    exact counted

theorem Valid.hit_stepped (block : Bytes)
    (entries : after.lookup = store.lookup) (table : SameTable store after) :
    Stepped call store (call.acquired i (.hit block), after) := by
  simp only [acquired]
  split
  · refine valid.stepped_of_moves admitted ?_ ?_ entries table
    · exact ⟨rfl, rfl, rfl, rfl, rfl⟩
    · exact lt_succ_of_forall_lt below
  · refine valid.stepped_of_moves admitted ?_ ?_ entries table
    · exact ⟨rfl, rfl, rfl, rfl, rfl⟩
    · exact ⟨counted, below⟩

end

theorem Valid.acquireStep_stepped (place : call.pc = .acquire i) (store : BlockCache) :
    Stepped call store (call.acquireStep store i) := by
  have below : ∀ block ∈ call.outstanding, block < call.span.first + i :=
    valid.placed_at place
  simp only [acquireStep]
  split
  · rename_i counted
    split
    · exact valid.moves_stepped admitted ⟨rfl, rfl, rfl, rfl, rfl⟩ (lt_succ_of_forall_lt below)
    · have table := store.sameTable_acquire (call.key (call.span.first + i))
      rcases store.acquire_cases (call.key (call.span.first + i)) with
        ⟨block, hit, _, entries⟩ | ⟨busy, _, entries⟩ | ⟨owned, free, entries⟩
      · rw [hit]
        exact valid.hit_stepped admitted counted below block entries table
      · rw [busy]
        exact valid.busy_stepped admitted counted below entries table
      · rw [owned]
        exact valid.owned_stepped admitted counted below free entries table
  · exact valid.acquireDone_stepped admitted store

end

/-- The call gives one block out of its hands, and its ledger says so. -/
structure Releases (call next : Call) (block : ℕ) : Prop where
  reader : next.reader = call.reader
  request : next.request = call.request
  busy : next.busy = call.busy
  owned : next.outstanding = call.outstanding.erase block
  acquired : next.ledger.acquired = call.ledger.acquired
  settled : ∀ other, other = block ∨ other ∈ call.ledger.published ∨
    other ∈ call.ledger.abandoned → other ∈ next.ledger.published ∨ other ∈ next.ledger.abandoned

theorem Valid.released (valid : call.Valid) (admitted : call.Admitted)
    (releases : Releases call next block) (placed : next.Placed next.pc) : next.Valid := by
  have span : next.span = call.span := by
    simp only [Call.span, Call.range, Call.blockSize, releases.reader, releases.request]
  refine ⟨?_, ?_, ?_, ?_, ?_, placed⟩
  · rw [releases.owned]
    exact valid.ascending.sublist List.erase_sublist
  · rw [releases.owned, span]
    intro other otherMem
    exact valid.inside other (List.mem_of_mem_erase otherMem)
  · rw [releases.busy, span]
    exact valid.busy
  · intro _
    simp only [Admitted, Call.range, releases.reader, releases.request]
    exact admitted
  · rw [releases.owned, releases.acquired]
    intro other otherMem
    by_cases same : other = block
    · exact Or.inr (releases.settled other (Or.inl same))
    · rcases valid.recorded other otherMem with owned | settled
      · exact Or.inl ((List.mem_erase_of_ne same).mpr owned)
      · exact Or.inr (releases.settled other (Or.inr settled))

def OwnsPending (call : Call) (store : BlockCache) : Prop :=
  ∀ block ∈ call.outstanding, store.lookup (call.key block) = some .pending

section

variable (valid : call.Valid) (admitted : call.Admitted)

include valid admitted

theorem Valid.published_stepped
    (pending : call.OwnsPending store) {bytes : Bytes} (owns : block ∈ call.outstanding)
    (publishes : call.publication = some (block, bytes)) (releases : Releases call next block)
    (placed : next.Placed next.pc) :
    Stepped call store (next, (store.publish (call.key block) bytes).2) where
  reader := releases.reader
  request := releases.request
  valid := valid.released admitted releases placed
  effect := .published block bytes owns publishes
    (lookup_publish bytes (pending block owns)) releases.owned
  table := store.sameTable_publish _ _

theorem Valid.publishedLoaded_stepped
    (pending : call.OwnsPending store) {payload : Bytes} {todo : List ℕ}
    (place : call.pc = .publishLoaded block payload todo) (evicted : ℕ) :
    Stepped call store (call.publishedLoaded block payload todo evicted,
      (store.publish (call.key block) payload).2) := by
  have placed : List.Sublist (block :: todo) call.outstanding :=
    valid.placed_at place
  have owned : (call.publishedLoaded block payload todo evicted).outstanding =
      call.outstanding.erase block :=
    call.owned.outstanding_settle block
  refine valid.published_stepped admitted pending (placed.subset List.mem_cons_self)
    (by simp only [publication, place]) ⟨rfl, rfl, rfl, owned, rfl, ?_⟩ ?_
  · intro other cases
    change other ∈ call.ledger.published ++ [block] ∨ other ∈ call.ledger.abandoned
    rw [List.mem_append, List.mem_singleton]
    tauto
  · change List.Sublist todo (call.publishedLoaded block payload todo evicted).outstanding
    rw [owned]
    simpa using placed.erase block

/-! ### Fetching -/

theorem Valid.fetched_stepped
    (place : call.pc = .fetch (run :: runs)) (result : ReadResult) (written : Bytes)
    (store : BlockCache) :
    Stepped call store (call.fetched run runs result written, store) := by
  have placed : Partitions call.blockSize call.reader.metadata.size (run :: runs)
      call.outstanding :=
    valid.placed_at place
  simp only [fetched]
  split
  · rename_i failed
    refine valid.moves_stepped admitted ?_ ?_
    · exact ⟨rfl, rfl, rfl, rfl, rfl⟩
    · intro ok
      rw [(Status.isOk_iff _).mpr ok] at failed
      cases failed
  · split
    · exact valid.moves_stepped admitted ⟨rfl, rfl, rfl, rfl, rfl⟩ nofun
    · refine valid.moves_stepped admitted ?_ ?_
      · exact ⟨rfl, rfl, rfl, rfl, rfl⟩
      · generalize blocks : call.outstanding = owned at placed
        cases placed with
        | @run first last group rest _ firstMem lastMem grouped behind later =>
          refine ⟨first, last, group, rest, rfl, (grouped first firstMem).2, ?_, blocks,
            grouped, behind, later⟩
          have lastOwned : last ∈ call.outstanding := by
            rw [blocks]
            exact List.mem_append_left _ lastMem
          exact (valid.inside last lastOwned).2

end

/-- The next owned block is in the run exactly where the run's group is not used up. -/
theorem Fetching.cases {first last : ℕ} {group rest : List ℕ}
    (fetching : call.Fetching run runs first last group rest) :
    (call.inRun run = true ∧ ∃ more, group = call.owned.next :: more ∧
      call.outstanding = call.owned.next :: (more ++ rest)) ∨
    (call.inRun run = false ∧ group = []) := by
  have runLast : run.last = last := by
    rw [fetching.run_eq]
    exact closeRun_last fetching.ordered
  have owns := fetching.outstanding_eq
  cases settled : call.owned.allSettled with
  | true =>
    right
    rw [allSettled_iff_outstanding.mp settled] at owns
    exact ⟨by simp [inRun, settled], (List.append_eq_nil_iff.mp owns.symm).1⟩
  | false =>
    have head := OwnedBlocks.outstanding_cons settled
    change call.outstanding = _ at head
    cases group with
    | nil =>
      right
      have nextMem : call.owned.next ∈ rest := by
        have : call.owned.next ∈ call.outstanding := by
          rw [head]
          exact List.mem_cons_self
        rwa [owns] at this
      have := fetching.behind _ nextMem
      refine ⟨?_, rfl⟩
      simp only [inRun, settled, runLast, Bool.not_false, Bool.true_and, decide_eq_false_iff_not]
      omega
    | cons block more =>
      left
      have same : block = call.owned.next := by
        rw [owns] at head
        exact (List.cons.inj head).1
      subst same
      have := (fetching.grouped _ List.mem_cons_self).2
      refine ⟨?_, more, rfl, owns⟩
      simp only [inRun, settled, runLast, Bool.not_false, Bool.true_and, decide_eq_true_eq]
      exact this

theorem Valid.publishStep_stepped (valid : call.Valid) (admitted : call.Admitted)
    (pending : call.OwnsPending store) (place : call.pc = .publishFetched run transfer taken runs) :
    Stepped call store (call.publishStep store run transfer taken runs) := by
  have placed : ∃ first last group rest, call.Fetching run runs first last group rest :=
    valid.placed_at place
  rcases placed with ⟨first, last, group, rest, fetching⟩
  rcases fetching.cases with ⟨inRun, more, rfl, owns⟩ | ⟨past, rfl⟩
  · simp only [publishStep, inRun, if_true]
    have tail : call.owned.markPublished.outstanding = more ++ rest := by
      have settled : call.owned.allSettled = false := by
        simp only [Call.inRun, Bool.and_eq_true, Bool.not_eq_true'] at inRun
        exact inRun.1
      have head := OwnedBlocks.outstanding_cons settled
      change call.outstanding = _ at head
      rw [owns] at head
      exact (List.cons.inj head).2.symm
    have nextMem : call.owned.next ∈ call.outstanding := by
      rw [owns]
      exact List.mem_cons_self
    have range := fetching.grouped _ List.mem_cons_self
    refine valid.published_stepped admitted pending nextMem
      (by simp only [publication, place, inRun, if_true]) ⟨rfl, rfl, rfl, ?_, rfl, ?_⟩ ?_
    · change call.owned.markPublished.outstanding = _
      rw [owns, List.erase_cons_head, tail]
    · intro other cases
      change other ∈ call.ledger.published ++ [call.owned.next] ∨ other ∈ call.ledger.abandoned
      rw [List.mem_append, List.mem_singleton]
      tauto
    · refine ⟨first, last, more, rest, ⟨fetching.run_eq, fetching.ordered, fetching.inside, tail,
        ?_, fetching.behind, fetching.later⟩, range.1, range.2, (valid.inside _ nextMem).1⟩
      intro block blockMem
      exact fetching.grouped block (List.mem_cons_of_mem _ blockMem)
  · simp only [publishStep, past]
    refine valid.moves_stepped admitted ?_ ?_
    · exact ⟨rfl, rfl, rfl, rfl, rfl⟩
    · change Partitions call.blockSize call.reader.metadata.size runs call.outstanding
      rw [fetching.outstanding_eq]
      exact fetching.later

theorem persistStep_eq
    (stepped : call.persistStep block run transfer taken runs answer = some next) :
    ∃ stored, next = call.persisted block run transfer taken runs stored := by
  cases answer with
  | silent =>
    simp only [persistStep] at stepped
    split at stepped
    · cases stepped
    · exact ⟨false, (Option.some.inj stepped).symm⟩
  | persisted stored =>
    simp only [persistStep] at stepped
    split at stepped
    · exact ⟨stored, (Option.some.inj stepped).symm⟩
    · cases stepped
  | read | loaded => cases stepped

theorem Valid.persistStep_stepped (valid : call.Valid) (admitted : call.Admitted)
    (place : call.pc = .persist block run transfer taken runs)
    (stepped : call.persistStep block run transfer taken runs answer = some next)
    (store : BlockCache) : Stepped call store (next, store) := by
  have placed := valid.placed_at place
  rcases placed with ⟨first, last, group, rest, fetching, _⟩
  rcases persistStep_eq stepped with ⟨stored, rfl⟩
  have moves : Moves call (call.persisted block run transfer taken runs stored) :=
    ⟨rfl, rfl, rfl, rfl, rfl⟩
  exact valid.moves_stepped admitted moves ⟨first, last, group, rest, moves.fetching fetching⟩

/-! ### Waiting, handing back and reading directly -/

theorem Valid.awaited_stepped (valid : call.Valid) (admitted : call.Admitted) {todo : List ℕ}
    (place : call.pc = .await (i :: todo)) {outcome : Option Bytes × BlockCache}
    (awaited : store.await (call.key (call.span.first + i)) = some outcome) :
    Stepped call store (call.awaited i todo outcome.1, outcome.2) := by
  have placed := valid.placed_at place
  have later : call.outstanding = [] ∧ ∀ j ∈ todo, j < call.span.count :=
    ⟨placed.1, fun j jMem => placed.2 j (List.mem_cons_of_mem _ jMem)⟩
  have kept : outcome.2.lookup = store.lookup ∧ SameTable store outcome.2 := by
    rcases await_some awaited with ⟨rfl, _⟩ | ⟨block, rfl, _⟩
    · exact ⟨rfl, .refl store⟩
    · exact ⟨store.lookup_touch _, sameTable_withShard _ _ _⟩
  have moved : Moves call (call.awaited i todo outcome.1) ∧
      (call.awaited i todo outcome.1).pc = .await todo := by
    simp only [Call.awaited]
    split
    · exact ⟨⟨rfl, rfl, rfl, rfl, rfl⟩, rfl⟩
    · split <;> exact ⟨⟨rfl, rfl, rfl, rfl, rfl⟩, rfl⟩
  refine valid.stepped_of_moves admitted moved.1 ?_ kept.1 kept.2
  rw [moved.2]
  simp only [Placed, moved.1.outstanding, moved.1.span]
  exact later

theorem outstanding_handedBack (call : Call) :
    call.handedBack.outstanding = call.outstanding.erase call.owned.next := by
  have rest : (call.owned.settle call.owned.next).outstanding =
      call.outstanding.erase call.owned.next :=
    call.owned.outstanding_settle _
  simp only [outstanding, handedBack] at rest ⊢
  split
  · rename_i settled
    rw [← rest, (OwnedBlocks.allSettled_iff _).mp settled, OwnedBlocks.outstanding_empty]
  · exact rest

section

variable (valid : call.Valid) (admitted : call.Admitted)

include valid admitted

theorem Valid.handedBack_stepped
    (pending : call.OwnsPending store) (hands : call.handsBack = true) :
    Stepped call store (call.handedBack, store.abandon (call.key call.owned.next)) := by
  have unsettledSome : call.owned.allSettled = false := by
    simp only [handsBack] at hands
    split at hands <;> simp_all
  have owns : call.owned.next ∈ call.outstanding := by
    rw [outstanding, OwnedBlocks.outstanding_cons unsettledSome]
    exact List.mem_cons_self
  have owned := call.outstanding_handedBack
  have releases : Releases call call.handedBack call.owned.next := by
    refine ⟨rfl, rfl, rfl, owned, rfl, ?_⟩
    intro other cases
    change other ∈ call.ledger.published ∨ other ∈ call.ledger.abandoned ++ [call.owned.next]
    rw [List.mem_append, List.mem_singleton]
    tauto
  refine ⟨rfl, rfl, valid.released admitted releases ?_,
    .abandoned _ owns (lookup_abandon (pending _ owns)) owned,
    sameTable_withShard _ _ _⟩
  -- Handing back happens in place, at the three places that hand back.
  change call.handedBack.Placed call.pc
  have placed := valid.placed
  cases place : call.pc with
  | mismatch i =>
    rw [place] at placed
    refine ⟨placed.1, ?_⟩
    rw [owned]
    intro block blockMem
    exact placed.2 block (List.mem_of_mem_erase blockMem)
  | giveUp result =>
    rw [place] at placed
    exact placed
  | endPass last =>
    rw [place] at placed
    simp only [Placed] at placed ⊢
    rw [owned, placed]
    rfl
  | _ => simp [handsBack, place] at hands

/-- A direct read goes on where the call owns nothing that matters, or it gives up. -/
theorem Valid.settleDirect_stepped (nothing : call.outstanding = []) {resume : Pc}
    (resumes : (∃ j, resume = .acquire j) ∨ ∃ j, resume = .direct j) (result : ReadResult)
    (written : Bytes) (store : BlockCache) :
    Stepped call store (call.settleDirect i result written resume, store) := by
  have moves : Moves call (call.settleDirect i result written resume) := by
    simp only [settleDirect]
    split <;> exact ⟨rfl, rfl, rfl, rfl, rfl⟩
  refine valid.moves_stepped admitted moves ?_
  have still := moves.outstanding.trans nothing
  simp only [settleDirect] at still ⊢
  split
  · rename_i ok
    rw [if_pos ok] at still
    rcases resumes with ⟨j, rfl⟩ | ⟨j, rfl⟩
    · simp only [Placed, still]
      exact nofun
    · exact still
  · rename_i failed
    intro ok
    exact failed ((Status.isOk_iff _).mpr ok)

theorem Valid.passDone_stepped
    (nothing : call.outstanding = []) (last : Bool) (store : BlockCache) :
    Stepped call store (call.passDone last, store) := by
  simp only [passDone]
  split
  · exact valid.moves_stepped admitted ⟨rfl, rfl, rfl, rfl, rfl⟩ nothing
  · exact ⟨rfl, rfl, ⟨List.Pairwise.nil, nofun, nofun, fun _ => admitted, nofun, nofun⟩,
      .kept rfl nothing.symm, .refl store⟩

theorem Valid.directStep_stepped
    (place : call.pc = .direct i) (stepped : call.directStep i answer = some next)
    (store : BlockCache) :
    Stepped call store (next, store) := by
  have nothing : call.outstanding = [] :=
    valid.placed_at place
  simp only [directStep] at stepped
  split at stepped
  · split at stepped
    · split at stepped
      · cases stepped
        exact valid.moves_stepped admitted ⟨rfl, rfl, rfl, rfl, rfl⟩ nothing
      · cases stepped
    · split at stepped
      · cases stepped
        exact valid.settleDirect_stepped admitted nothing (Or.inr ⟨_, rfl⟩) _ _ store
      · cases stepped
  · split at stepped
    · cases stepped
      exact valid.moves_stepped admitted ⟨rfl, rfl, rfl, rfl, rfl⟩ nothing
    · cases stepped

end

theorem resolved_upTo {resolved : ℕ → Bool} (here : resolved i = true)
    (earlier : ∀ j < i, resolved j = true) : ∀ j < i + 1, resolved j = true := by
  intro j within
  rcases Nat.lt_succ_iff_lt_or_eq.mp within with lower | rfl
  · exact earlier j lower
  · exact here

/-! ### Any step -/

theorem not_returned_of_step (stepped : call.step store answer = some outcome) :
    ∀ result, call.pc ≠ .returned result := by
  intro result place
  simp [step, handsBack, advance, place] at stepped

theorem Valid.advance_stepped (valid : call.Valid) (admitted : call.Admitted)
    (pending : call.OwnsPending store) (kept : call.handsBack = false)
    (stepped : call.advance store answer = some outcome) :
    Stepped call store outcome := by
  have placed := valid.placed
  -- Where blocks are handed back first, nothing is left of them by now.
  have handed : ∀ {claim : Prop}, (call.handsBack = !call.owned.allSettled) →
      (call.outstanding = [] → claim) → claim := by
    intro claim hands conclude
    apply conclude
    apply allSettled_iff_outstanding.mp
    rw [hands] at kept
    simpa using kept
  simp only [advance] at stepped
  split at stepped
  · rename_i i place
    cases stepped
    exact valid.acquireStep_stepped admitted place store
  · rename_i i result written place
    cases stepped
    apply handed (by simp only [handsBack, place])
    intro nothing
    exact valid.settleDirect_stepped admitted nothing (Or.inl ⟨_, rfl⟩) result written store
  · cases stepped
    exact valid.planned_stepped admitted store
  · rename_i block todo payload place
    cases stepped
    rw [place] at placed
    refine valid.moves_stepped admitted ?_ ?_
    · cases payload <;> exact ⟨rfl, rfl, rfl, rfl, rfl⟩
    · cases payload with
      | none => exact List.sublist_of_cons_sublist placed
      | some payload => exact placed
  · rename_i block payload todo place
    cases stepped
    exact valid.publishedLoaded_stepped admitted pending place _
  · rename_i place
    cases stepped
    rw [place] at placed
    exact valid.moves_stepped admitted ⟨rfl, rfl, rfl, rfl, rfl⟩
      ⟨Partitions.blocks_eq_nil placed, valid.busy⟩
  · rename_i run runs result written place
    cases stepped
    exact valid.fetched_stepped admitted place result written store
  · rename_i run transfer taken runs place
    cases stepped
    exact valid.publishStep_stepped admitted pending place
  · rename_i block run transfer taken runs place
    rcases Option.map_eq_some_iff.mp stepped with ⟨next, persisted, rfl⟩
    exact valid.persistStep_stepped admitted place persisted store
  · rename_i result place
    cases stepped
    apply handed (by simp only [handsBack, place])
    intro nothing
    exact valid.moves_stepped admitted ⟨rfl, rfl, rfl, rfl, rfl⟩ nothing
  · rename_i place
    cases stepped
    rw [place] at placed
    exact valid.moves_stepped admitted ⟨rfl, rfl, rfl, rfl, rfl⟩ placed.1
  · rename_i i todo place
    rcases Option.map_eq_some_iff.mp stepped with ⟨checked, awaited, rfl⟩
    exact valid.awaited_stepped admitted place awaited
  · rename_i last place
    cases stepped
    rw [place] at placed
    exact valid.passDone_stepped admitted placed last store
  · rename_i i place
    rcases Option.map_eq_some_iff.mp stepped with ⟨next, direct, rfl⟩
    exact valid.directStep_stepped admitted place direct store
  · rename_i result written place
    cases stepped
    rw [place] at placed
    exact valid.moves_stepped admitted ⟨rfl, rfl, rfl, rfl, rfl⟩ placed
  · cases stepped

/-- Every step of a valid call keeps it valid and has one of the four effects. -/
theorem Valid.step_stepped (valid : call.Valid) (pending : call.OwnsPending store)
    (stepped : call.step store answer = some outcome) : Stepped call store outcome := by
  have admitted := valid.admitted (not_returned_of_step stepped)
  cases hands : call.handsBack with
  | true =>
    simp only [step, hands, if_true] at stepped
    split at stepped
    · cases stepped
      exact valid.handedBack_stepped admitted pending hands
    · cases stepped
  | false =>
    simp only [step, hands] at stepped
    exact valid.advance_stepped admitted pending hands stepped

/-! ### A call that cannot step -/

def IsReturned (call : Call) : Prop := ∃ result, call.pc = .returned result

/-- The call waits for a block that is pending. -/
def Blocked (call : Call) (store : BlockCache) (key : ShardKey) : Prop :=
  ∃ i todo, call.pc = .await (i :: todo) ∧ key = call.key (call.span.first + i) ∧
    store.lookup key = some .pending

theorem Valid.outstanding_of_blocked (valid : call.Valid) {key : ShardKey}
    (blocked : call.Blocked store key) : call.outstanding = [] := by
  rcases blocked with ⟨i, todo, place, _⟩
  have placed := valid.placed_at place
  exact placed.1

theorem Valid.outstanding_of_returned (valid : call.Valid) (returned : call.IsReturned) :
    call.outstanding = [] := by
  rcases returned with ⟨result, place⟩
  exact valid.placed_at place

theorem exists_step (running : ¬call.IsReturned) (free : ∀ key, ¬call.Blocked store key) :
    ∃ answer, (call.step store answer).isSome := by
  cases hands : call.handsBack with
  | true => exact ⟨.silent, by simp [step, hands]⟩
  | false =>
    simp only [step, hands]
    cases place : call.pc with
    | acquire | publishLoaded | publishFetched | giveUp | endPass =>
      exact ⟨.silent, by simp [advance, place]⟩
    | mismatch | bypass => exact ⟨.read ⟨0, .success⟩ [], by simp [advance, place]⟩
    | load todo =>
      cases todo with
      | nil => exact ⟨.silent, by simp [advance, place]⟩
      | cons block todo => exact ⟨.loaded none, by simp [advance, place]⟩
    | fetch runs =>
      cases runs with
      | nil => exact ⟨.silent, by simp [advance, place]⟩
      | cons run runs => exact ⟨.read ⟨0, .success⟩ [], by simp [advance, place]⟩
    | persist block run transfer taken runs =>
      cases enabled : call.reader.persistentEnabled with
      | true => exact ⟨.persisted false, by simp [advance, place, persistStep, enabled]⟩
      | false => exact ⟨.silent, by simp [advance, place, persistStep, enabled]⟩
    | await todo =>
      cases todo with
      | nil => exact ⟨.silent, by simp [advance, place]⟩
      | cons i todo =>
        refine ⟨.silent, ?_⟩
        cases awaited : store.await (call.key (call.span.first + i)) with
        | none => exact absurd ⟨i, todo, place, rfl, pending_of_await awaited⟩ (free _)
        | some outcome => simp [advance, place, awaited]
    | direct i =>
      by_cases silent : i < call.span.count ∧ call.resolved i = false
      · exact ⟨.read ⟨0, .success⟩ [], by simp [advance, place, directStep, silent]⟩
      · refine ⟨.silent, ?_⟩
        by_cases counted : i < call.span.count
        · have resolved : call.resolved i = true := by simpa [counted] using silent
          simp [advance, place, directStep, counted, resolved]
        · simp [advance, place, directStep, counted]
    | returned result => exact absurd ⟨result, place⟩ running

end Call

end UsdAsset.Cache
