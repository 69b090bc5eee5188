import Mathlib.Algebra.Order.BigOperators.Group.Finset
import UsdAsset.Cache.BlockCache
import UsdAsset.Lib.Recency

/-!
# What a stripe counts

The byte count of a stripe is a 64-bit value that is added to and subtracted
from.  As long as the resident blocks fit into 64 bits together, it is the sum of
their lengths, and no subtraction wraps.  Eviction drops the stripe's list from
its end.
-/

namespace UsdAsset.Cache

theorem addU64_eq {value more : ℕ} (fits : value + more < 2 ^ 64) :
    addU64 value more = value + more :=
  Nat.mod_eq_of_lt fits

theorem subU64_eq {value less : ℕ} (enough : less ≤ value) (fits : value < 2 ^ 64) :
    subU64 value less = value - less := by
  simp only [subU64]
  omega

theorem foldl_subU64 {Item : Type} (bytes : Item → ℕ) (items : List Item) {value : ℕ}
    (enough : (items.map bytes).sum ≤ value) (fits : value < 2 ^ 64) :
    items.foldl (fun left item => subU64 left (bytes item)) value =
      value - (items.map bytes).sum := by
  induction items generalizing value with
  | nil => rfl
  | cons item rest ih =>
    rw [List.map_cons, List.sum_cons] at enough ⊢
    rw [List.foldl_cons, subU64_eq (by omega) fits, ih (by omega) (by omega)]
    omega

namespace Shard

variable {shard : Shard} {key : ShardKey}

def bytesOf (shard : Shard) (key : ShardKey) : ℕ := Entry.bytes (shard.entries key)

def bytes (shard : Shard) : ℕ := (shard.lru.map shard.bytesOf).sum

theorem bytesOf_eq {block : Bytes} (resident : shard.entries key = some (.resident block)) :
    shard.bytesOf key = block.length := by
  rw [bytesOf, resident, Entry.bytes]

theorem bytes_empty : empty.bytes = 0 := rfl

theorem not_mem_lru_of_ne (other : ∀ block, shard.entries key ≠ some (.resident block)) :
    key ∉ shard.lru := by
  rw [shard.mem_lru]
  rintro ⟨block, resident⟩
  exact other block resident

theorem sum_bytesOf_congr {left right : Shard} {keys : List ShardKey}
    (agree : ∀ key ∈ keys, left.entries key = right.entries key) :
    (keys.map left.bytesOf).sum = (keys.map right.bytesOf).sum := by
  congr 1
  apply List.map_congr_left
  intro key keyMem
  rw [bytesOf, bytesOf, agree key keyMem]

theorem bytes_touch (shard : Shard) (key : ShardKey) : (shard.touch key).bytes = shard.bytes := by
  have sameEntries : (shard.touch key).bytesOf = shard.bytesOf := by
    funext other
    rw [bytesOf, bytesOf, entries_touch]
  rw [bytes, bytes, sameEntries]
  simp only [touch]
  split
  · rename_i listed
    exact ((List.perm_cons_erase listed).map _).sum_eq.symm
  · rfl

theorem bytes_reserve (shard : Shard) (key : ShardKey) :
    (shard.reserve key).bytes = shard.bytes := by
  by_cases absent : shard.entries key = none
  · have unlisted : key ∉ shard.lru := not_mem_lru_of_ne (by simp [absent])
    have lru : (shard.reserve key).lru = shard.lru := by simp only [reserve, dif_pos absent]
    rw [bytes, lru]
    apply sum_bytesOf_congr
    intro other listed
    rw [entries_reserve absent, Function.update_of_ne (ne_of_mem_of_not_mem listed unlisted)]
  · simp only [reserve, dif_neg absent]

theorem bytes_release (shard : Shard) (key : ShardKey) :
    (shard.release key).bytes = shard.bytes := by
  by_cases pending : shard.entries key = some .pending
  · have unlisted : key ∉ shard.lru := not_mem_lru_of_ne (by simp [pending])
    have lru : (shard.release key).lru = shard.lru := by simp only [release, dif_pos pending]
    rw [bytes, lru]
    apply sum_bytesOf_congr
    intro other listed
    rw [entries_release pending, Function.update_of_ne (ne_of_mem_of_not_mem listed unlisted)]
  · simp only [release, dif_neg pending]

theorem lru_install {block : Bytes} (pending : shard.entries key = some .pending) :
    (shard.install key block).lru = key :: shard.lru := by
  simp only [install, dif_pos pending]

theorem bytes_install (block : Bytes) (pending : shard.entries key = some .pending) :
    (shard.install key block).bytes = shard.bytes + block.length := by
  have unlisted : key ∉ shard.lru := not_mem_lru_of_ne (by simp [pending])
  have installed : (shard.install key block).bytesOf key = block.length := by
    apply bytesOf_eq
    rw [entries_install block pending, Function.update_self]
  rw [bytes, lru_install pending, List.map_cons, List.sum_cons, installed, Nat.add_comm, bytes]
  congr 1
  apply sum_bytesOf_congr
  intro other listed
  rw [entries_install block pending,
    Function.update_of_ne (ne_of_mem_of_not_mem listed unlisted)]

theorem bytes_dropVictim (nonempty : shard.lru ≠ []) :
    (shard.dropVictim nonempty).bytes + shard.bytesOf (shard.lru.getLast nonempty) =
      shard.bytes := by
  have split := List.dropLast_append_getLast nonempty
  have distinct : shard.lru.getLast nonempty ∉ shard.lru.dropLast := by
    have nodup := shard.lru_nodup
    rw [← split, List.nodup_append] at nodup
    intro again
    exact nodup.2.2 _ again _ (List.mem_singleton_self _) rfl
  have rest : (shard.dropVictim nonempty).bytes = (shard.lru.dropLast.map shard.bytesOf).sum := by
    apply sum_bytesOf_congr
    intro other listed
    exact Function.update_of_ne (ne_of_mem_of_not_mem listed distinct) _ _
  calc (shard.dropVictim nonempty).bytes + shard.bytesOf (shard.lru.getLast nonempty)
    _ = ((shard.lru.dropLast ++ [shard.lru.getLast nonempty]).map shard.bytesOf).sum := by
        rw [rest, List.map_append, List.sum_append, List.map_singleton, List.sum_singleton]
    _ = shard.bytes := by rw [split, bytes]

theorem bytes_dropIdentity (shard : Shard) (identityId : ℕ) :
    (shard.dropIdentity identityId).bytes +
      ((shard.lru.filter (ofIdentity identityId)).map shard.bytesOf).sum = shard.bytes := by
  have rest : (shard.dropIdentity identityId).bytes =
      ((shard.lru.filter fun key => !ofIdentity identityId key).map shard.bytesOf).sum := by
    apply sum_bytesOf_congr
    intro other listed
    have kept := (List.mem_filter.mp listed).2
    simp only [Bool.not_eq_true'] at kept
    simp [dropIdentity, kept]
  rw [rest, bytes, Nat.add_comm, ← List.sum_append, ← List.map_append]
  exact ((List.filter_append_perm _ _).map _).sum_eq

end Shard

/-! ### Eviction -/

/-- What holds of a stripe and is kept by dropping its last key holds after an eviction. -/
theorem evictLocked_induction (holds : Eviction → Prop) (budget rounds : ℕ) (state : Eviction)
    (dropped : ∀ (state : Eviction) (nonempty : state.shard.lru ≠ []),
      1 < state.shard.lru.length → holds state →
      holds ⟨state.shard.dropVictim nonempty,
        subU64 state.total (state.shard.bytesOf (state.shard.lru.getLast nonempty)),
        state.evicted + 1⟩) (initially : holds state) :
    holds (evictLocked budget rounds state) := by
  induction rounds generalizing state with
  | zero => exact initially
  | succ rounds ih =>
    simp only [evictLocked]
    split
    · rename_i exceeds
      split
      · rename_i nonempty
        exact ih _ (dropped state nonempty exceeds.2 initially)
      · exact initially
    · exact initially

/-- A stripe whose count is right, and a store whose total is its bytes and some others. -/
structure Eviction.Counts (others : ℕ) (state : Eviction) : Prop where
  residentBytes : state.shard.residentBytes = state.shard.bytes
  total : state.total = others + state.shard.bytes
  fits : state.total < 2 ^ 64

theorem Eviction.Counts.evictLocked {others : ℕ} {state : Eviction} (counts : state.Counts others)
    (budget rounds : ℕ) : (evictLocked budget rounds state).Counts others := by
  apply evictLocked_induction (Eviction.Counts others) budget rounds state _ counts
  intro state nonempty _ counts
  have dropped := Shard.bytes_dropVictim nonempty
  have residentBytes := counts.residentBytes
  have total := counts.total
  have fits := counts.fits
  refine ⟨?_, ?_, ?_⟩
  · change subU64 state.shard.residentBytes
      (state.shard.bytesOf (state.shard.lru.getLast nonempty)) =
        (state.shard.dropVictim nonempty).bytes
    rw [subU64_eq (by omega) (by omega)]
    omega
  · change subU64 state.total _ = others + (state.shard.dropVictim nonempty).bytes
    rw [subU64_eq (by omega) fits]
    omega
  · change subU64 state.total _ < _
    rw [subU64_eq (by omega) fits]
    omega

theorem evictLocked_lru_prefix (budget rounds : ℕ) (state : Eviction) :
    (evictLocked budget rounds state).shard.lru <+: state.shard.lru := by
  refine evictLocked_induction (fun now => now.shard.lru <+: state.shard.lru)
    budget rounds state ?_ (List.prefix_refl _)
  intro now nonempty _ kept
  exact (List.dropLast_prefix _).trans kept

theorem evictLocked_lru_ne_nil (budget rounds : ℕ) {state : Eviction}
    (nonempty : state.shard.lru ≠ []) : (evictLocked budget rounds state).shard.lru ≠ [] := by
  refine evictLocked_induction (fun now => now.shard.lru ≠ []) budget rounds state ?_
    nonempty
  intro now _ several _ gone
  have := congrArg List.length gone
  simp only [Shard.dropVictim, List.length_dropLast, List.length_nil] at this
  omega

/-- With a round for every key, eviction stops inside the budget or at one block. -/
theorem evictLocked_within {budget rounds : ℕ} {state : Eviction}
    (enough : state.shard.lru.length ≤ rounds) :
    (evictLocked budget rounds state).shard.residentBytes ≤ budget ∨
      (evictLocked budget rounds state).shard.lru.length ≤ 1 := by
  induction rounds generalizing state with
  | zero => exact Or.inr (Nat.le_trans enough (Nat.zero_le 1))
  | succ rounds ih =>
    simp only [evictLocked]
    split
    · split
      · apply ih
        simp only [Shard.dropVictim, List.length_dropLast]
        omega
      · rename_i nothing
        simp only [ne_eq, not_not] at nothing
        simp [nothing]
    · rename_i within
      omega

end UsdAsset.Cache
