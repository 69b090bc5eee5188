import UsdAsset.Cache.Identities
import UsdAsset.Cache.Stripe

/-!
# What the fields of the store have to do with each other

Every operation of `BlockCache.cpp` keeps the representation: entries sit in the
stripe of their hash, the counts are the lengths of what is resident, and every
stripe lists its blocks in the order of their last use.  A block is published
only if it could be allocated: blocks that are in memory at the same time have
fewer than `2 ^ 64` bytes together.
-/

namespace UsdAsset.Cache

open Function
open Recency (Ordered)

variable {index : ℕ} {shard : Shard} {key : ShardKey} {block : Bytes}
  {outcome : Option Bytes × BlockCache}

namespace BlockCache

variable {store : BlockCache} {uses : List ShardKey}

def heldBytes (store : BlockCache) : ℕ :=
  ∑ index ∈ Finset.range store.shardCount, (store.shards index).bytes

def replace (store : BlockCache) (index : ℕ) (shard : Shard) (residentTotal : ℕ) : BlockCache :=
  { store with shards := Function.update store.shards index shard, residentTotal }

/-- One stripe's part of the destruction of a private binding. -/
def purge (store : BlockCache) (identityId index : ℕ) : BlockCache :=
  store.replace index ((store.shards index).dropIdentity identityId)
    (((store.shards index).lru.filter (Shard.ofIdentity identityId)).foldl
      (fun total key => subU64 total ((store.shards index).bytesOf key)) store.residentTotal)

theorem forall_replace (holds : ℕ → Shard → Prop) (here : holds index shard)
    (others : ∀ other, other ≠ index → holds other (store.shards other)) (residentTotal : ℕ) :
    ∀ other, holds other ((store.replace index shard residentTotal).shards other) :=
  (forall_update_iff store.shards holds).mpr ⟨here, others⟩

theorem heldBytes_replace (inRange : index < store.shardCount) (shard : Shard) (residentTotal : ℕ) :
    (store.replace index shard residentTotal).heldBytes + (store.shards index).bytes =
      store.heldBytes + shard.bytes := by
  have listed : index ∈ Finset.range store.shardCount := Finset.mem_range.mpr inRange
  have before := Finset.add_sum_erase _ (fun other => (store.shards other).bytes) listed
  have after := Finset.add_sum_erase _
    (fun other => (update store.shards index shard other).bytes) listed
  have rest : ∑ other ∈ (Finset.range store.shardCount).erase index,
      (update store.shards index shard other).bytes =
      ∑ other ∈ (Finset.range store.shardCount).erase index, (store.shards other).bytes := by
    apply Finset.sum_congr rfl
    intro other otherMem
    rw [update_of_ne (Finset.ne_of_mem_erase otherMem)]
  simp only [update_self] at after
  simp only [heldBytes, replace]
  omega

/-! ### The representation -/

/-- What the fields of the store have to do with each other. -/
structure Represents (store : BlockCache) (uses : List ShardKey) : Prop where
  inStripe : ∀ {index key}, (store.shards index).entries key ≠ none → index = store.shardIndex key
  counts : ∀ index, (store.shards index).residentBytes = (store.shards index).bytes
  total : store.residentTotal = store.heldBytes
  fits : store.heldBytes < 2 ^ 64
  recent : ∀ index, Ordered uses (store.shards index).lru

theorem represents_create (options : CacheOptions) : (create options).Represents [] where
  inStripe := fun present => absurd rfl present
  counts := fun _ => rfl
  total := by
    simp only [heldBytes, create, Shard.bytes_empty, Finset.sum_const_zero]
  fits := by
    simp only [heldBytes, create, Shard.bytes_empty, Finset.sum_const_zero]
    decide
  recent := fun _ => Recency.ordered_nil _

theorem Represents.bytes_le (represents : store.Represents uses)
    (inRange : index < store.shardCount) : (store.shards index).bytes ≤ store.residentTotal := by
  rw [represents.total, heldBytes]
  exact Finset.single_le_sum_of_canonicallyOrdered (f := fun other => (store.shards other).bytes)
    (Finset.mem_range.mpr inRange)

theorem Represents.replace (represents : store.Represents uses) {residentTotal : ℕ}
    {later : List ShardKey} (inRange : index < store.shardCount)
    (inStripe : ∀ {key}, shard.entries key ≠ none → index = store.shardIndex key)
    (counts : shard.residentBytes = shard.bytes)
    (total : residentTotal + (store.shards index).bytes = store.residentTotal + shard.bytes)
    (fits : residentTotal < 2 ^ 64) (recent : Ordered later shard.lru)
    (others : ∀ other, other ≠ index → Ordered later (store.shards other).lru) :
    (store.replace index shard residentTotal).Represents later := by
  have held := heldBytes_replace inRange shard residentTotal
  have before := represents.total
  have sum : residentTotal = (store.replace index shard residentTotal).heldBytes := by omega
  refine ⟨?_, ?_, sum, sum ▸ fits, ?_⟩
  · intro other key
    exact forall_replace (fun other shard => shard.entries key ≠ none → other = store.shardIndex key)
      inStripe (fun _ _ => represents.inStripe) residentTotal other
  · exact forall_replace (fun _ shard => shard.residentBytes = shard.bytes) counts
      (fun other _ => represents.counts other) residentTotal
  · exact forall_replace (fun _ shard => Ordered later shard.lru) recent others residentTotal

theorem Represents.use_elsewhere (represents : store.Represents uses) (key : ShardKey) :
    ∀ other, other ≠ store.shardIndex key → Ordered (key :: uses) (store.shards other).lru := by
  intro other elsewhere
  apply (represents.recent other).use_elsewhere
  intro listed
  rcases ((store.shards other).mem_lru key).mp listed with ⟨block, resident⟩
  exact elsewhere (represents.inStripe (by simp [resident]))

/-! ### The operations -/

theorem stripe_lt (key : ShardKey) {shardCount : ℕ} (positive : 0 < shardCount) :
    key.stripe shardCount < shardCount := by
  have masked : key.stripe shardCount ≤ shardCount - 1 := by
    rw [ShardKey.stripe, UInt64.toNat_and, UInt64.toNat_ofNat']
    exact Nat.le_trans Nat.and_le_right (Nat.mod_le _ _)
  omega

theorem Represents.withShard (represents : store.Represents uses)
    (positive : 0 < store.shardCount) {later : List ShardKey}
    (entries : ∀ {other}, shard.entries other ≠ none →
      other = key ∨ (store.shardFor key).entries other ≠ none)
    (residentBytes : shard.residentBytes = (store.shardFor key).residentBytes)
    (bytes : shard.bytes = (store.shardFor key).bytes) (recent : Ordered later shard.lru)
    (others : ∀ other, other ≠ store.shardIndex key → Ordered later (store.shards other).lru) :
    (store.withShard key shard).Represents later := by
  refine represents.replace (stripe_lt key positive) ?_ ?_ (congrArg _ bytes.symm)
    (represents.total ▸ represents.fits) recent others
  · intro other present
    rcases entries present with rfl | before
    · rfl
    · exact represents.inStripe before
  · rw [residentBytes, bytes]
    exact represents.counts _

theorem Represents.touch (represents : store.Represents uses) (positive : 0 < store.shardCount)
    (resident : store.lookup key = some (.resident block)) :
    (store.withShard key ((store.shardFor key).touch key)).Represents (key :: uses) := by
  have listed : key ∈ (store.shardFor key).lru :=
    ((store.shardFor key).mem_lru key).mpr ⟨block, resident⟩
  refine represents.withShard positive ?_ ?_ (Shard.bytes_touch _ _) ?_
    (represents.use_elsewhere key)
  · intro other present
    rw [Shard.entries_touch] at present
    exact Or.inr present
  · simp only [Shard.touch, dif_pos listed]
  · simp only [Shard.touch, dif_pos listed]
    exact (represents.recent _).use key

def usesAcquired (uses : List ShardKey) (key : ShardKey) : Acquisition → List ShardKey
  | .hit _ => key :: uses
  | .owned | .busy => uses

theorem Represents.acquire (represents : store.Represents uses) (positive : 0 < store.shardCount)
    (key : ShardKey) :
    (store.acquire key).2.Represents (usesAcquired uses key (store.acquire key).1) := by
  cases found : store.lookup key with
  | none =>
    have absent : (store.shardFor key).entries key = none := found
    simp only [BlockCache.acquire, found]
    refine represents.withShard positive ?_ ?_ (Shard.bytes_reserve _ _) ?_
      fun other _ => represents.recent other
    · intro other present
      rw [Shard.entries_reserve absent, update_apply] at present
      split at present
      · exact Or.inl (by assumption)
      · exact Or.inr present
    · simp only [Shard.reserve, dif_pos absent]
    · simp only [Shard.reserve, dif_pos absent]
      exact represents.recent _
  | some entry =>
    cases entry with
    | pending =>
      simp only [BlockCache.acquire, found]
      exact represents
    | resident block =>
      have touched := represents.touch positive found
      simp only [BlockCache.acquire, found]
      exact touched

def usesAwaited (uses : List ShardKey) (key : ShardKey) : Option Bytes → List ShardKey
  | some _ => key :: uses
  | none => uses

theorem Represents.await (represents : store.Represents uses) (positive : 0 < store.shardCount)
    {key : ShardKey} {outcome : Option Bytes × BlockCache}
    (awaited : store.await key = some outcome) :
    outcome.2.Represents (usesAwaited uses key outcome.1) := by
  rcases await_some awaited with ⟨rfl, _⟩ | ⟨block, rfl, resident⟩
  · exact represents
  · exact represents.touch positive resident

theorem Represents.abandon (represents : store.Represents uses) (positive : 0 < store.shardCount)
    (key : ShardKey) : (store.abandon key).Represents uses := by
  by_cases pending : (store.shardFor key).entries key = some .pending
  · refine represents.withShard positive ?_ ?_ (Shard.bytes_release _ _) ?_
      fun other _ => represents.recent other
    · intro other present
      rw [Shard.entries_release pending, update_apply] at present
      split at present
      · exact absurd rfl present
      · exact Or.inr present
    · simp only [Shard.release, dif_pos pending]
    · simp only [Shard.release, dif_pos pending]
      exact represents.recent _
  · have unchanged : (store.shardFor key).release key = store.shardFor key := by
      simp only [Shard.release, dif_neg pending]
    rw [BlockCache.abandon, unchanged]
    exact represents.withShard positive Or.inr rfl rfl (represents.recent _)
      fun other _ => represents.recent other

/-! ### Publication -/

/-- A block can be allocated beside all that are resident. -/
def Allocates (store : BlockCache) (block : Bytes) : Prop :=
  store.heldBytes + block.length < 2 ^ 64

instance (store : BlockCache) (block : Bytes) : Decidable (store.Allocates block) :=
  inferInstanceAs (Decidable (_ < _))

theorem Represents.install_counts (represents : store.Represents uses)
    (positive : 0 < store.shardCount) (pending : store.lookup key = some .pending)
    (allocates : store.Allocates block) :
    (store.install key block).Counts (store.residentTotal - (store.shardFor key).bytes) := by
  have inRange : store.shardIndex key < store.shardCount := stripe_lt key positive
  have within : (store.shardFor key).bytes ≤ store.residentTotal := represents.bytes_le inRange
  have counts : (store.shardFor key).residentBytes = (store.shardFor key).bytes :=
    represents.counts _
  have total := represents.total
  have pendingHere : (store.shardFor key).entries key = some .pending := pending
  have bytes := Shard.bytes_install block pendingHere
  simp only [Allocates] at allocates
  apply Eviction.Counts.evictLocked
  refine ⟨?_, ?_, ?_⟩
  · simp only [Shard.install, dif_pos pendingHere] at bytes ⊢
    rw [bytes, counts, addU64_eq (by omega)]
  · change addU64 _ _ = _ + ((store.shardFor key).install key block).bytes
    rw [bytes, addU64_eq (by omega)]
    omega
  · change addU64 _ _ < _
    rw [addU64_eq (by omega)]
    omega

theorem not_mem_lru (pending : store.lookup key = some .pending) :
    key ∉ (store.shardFor key).lru := by
  exact Shard.not_mem_lru_of_ne (by simp [show (store.shardFor key).entries key = _ from pending])

/-- Eviction drops the stripe's list from its end, and never the key just published. -/
theorem lru_install_isPrefix (block : Bytes) (pending : store.lookup key = some .pending) :
    (store.install key block).shard.lru <+: key :: (store.shardFor key).lru := by
  have pendingHere : (store.shardFor key).entries key = some .pending := pending
  rw [← Shard.lru_install pendingHere]
  exact evictLocked_lru_prefix _ _ _

theorem mem_lru_install (block : Bytes) (pending : store.lookup key = some .pending) :
    key ∈ (store.install key block).shard.lru := by
  have pendingHere : (store.shardFor key).entries key = some .pending := pending
  have nonempty : (store.install key block).shard.lru ≠ [] := by
    apply evictLocked_lru_ne_nil
    rw [Shard.lru_install pendingHere]
    exact List.cons_ne_nil _ _
  rcases lru_install_isPrefix block pending with ⟨rest, split⟩
  cases listed : (store.install key block).shard.lru with
  | nil => exact absurd listed nonempty
  | cons first more =>
    rw [listed, List.cons_append] at split
    rw [(List.cons.inj split).1]
    exact List.mem_cons_self

theorem Represents.publish (represents : store.Represents uses) (positive : 0 < store.shardCount)
    {key : ShardKey} {block : Bytes} (pending : store.lookup key = some .pending)
    (allocates : store.Allocates block) :
    (store.publish key block).2.Represents (key :: uses) := by
  have inRange : store.shardIndex key < store.shardCount := stripe_lt key positive
  have within : (store.shardFor key).bytes ≤ store.residentTotal := represents.bytes_le inRange
  have counts := represents.install_counts positive pending allocates
  have unlisted := not_mem_lru pending
  have used := (represents.recent (store.shardIndex key)).use key
  simp only [BlockCache.publish, pending]
  refine represents.replace inRange ?_ counts.residentBytes ?_ counts.fits ?_
    (represents.use_elsewhere key)
  · intro other present
    rcases install_forgets block pending other with same | ⟨gone, _⟩
    · rw [same, update_apply] at present
      split at present
      · rename_i sameKey
        rw [sameKey]
      · exact represents.inStripe present
    · exact absurd gone present
  · have total := counts.total
    change _ + (store.shardFor key).bytes = _
    omega
  · change Ordered _ (key :: (store.shardFor key).lru.erase key) at used
    rw [List.erase_of_not_mem unlisted] at used
    exact used.sublist (lru_install_isPrefix block pending).sublist

theorem publish_of_not_pending (block : Bytes) (settled : store.lookup key ≠ some .pending) :
    store.publish key block = (0, store) := by
  simp only [BlockCache.publish]

theorem lookup_publish_eq (pending : store.lookup key = some .pending) (other : ShardKey) :
    (store.publish key block).2.lookup other =
      if store.shardIndex other = store.shardIndex key then
        (store.install key block).shard.entries other
      else store.lookup other := by
  simp only [BlockCache.publish, pending]
  rw [lookup_residentTotal, lookup_withShard]

theorem lookup_publish_self (block : Bytes) (pending : store.lookup key = some .pending) :
    (store.publish key block).2.lookup key = some (.resident block) := by
  rcases lookup_publish block pending key with same | ⟨gone, _⟩
  · rw [same, update_self]
  · rcases ((store.install key block).shard.mem_lru key).mp (mem_lru_install block pending) with
      ⟨_, resident⟩
    rw [lookup_publish_eq pending, if_pos rfl, resident] at gone
    cases gone

/-! ### Destruction -/

theorem Represents.purge (represents : store.Represents uses) {index : ℕ}
    (inRange : index < store.shardCount) (identityId : ℕ) :
    (store.purge identityId index).Represents uses := by
  have within := represents.bytes_le inRange
  have counts := represents.counts index
  have fits : store.residentTotal < 2 ^ 64 := represents.total ▸ represents.fits
  have dropped := (store.shards index).bytes_dropIdentity identityId
  have total : (store.purge identityId index).residentTotal = store.residentTotal - _ :=
    foldl_subU64 (store.shards index).bytesOf _ (by omega) fits
  have residentBytes : ((store.shards index).dropIdentity identityId).residentBytes =
      (store.shards index).residentBytes - _ :=
    foldl_subU64 (store.shards index).bytesOf _ (by omega) (by omega)
  refine represents.replace inRange ?_ ?_ ?_ ?_ ?_ fun other _ => represents.recent other
  · intro key present
    apply represents.inStripe
    intro absent
    apply present
    simp [Shard.dropIdentity, absent]
  · rw [residentBytes]
    omega
  · change (store.purge identityId index).residentTotal + _ = _
    rw [total]
    omega
  · change (store.purge identityId index).residentTotal < _
    rw [total]
    omega
  · exact (represents.recent index).sublist List.filter_sublist

/-! ### What no operation changes -/

/-- The store was made for the same options. -/
structure SameShape (before after : BlockCache) : Prop where
  options : after.options = before.options
  shardCount : after.shardCount = before.shardCount
  shardBudget : after.shardBudget = before.shardBudget

theorem SameShape.refl (store : BlockCache) : SameShape store store := ⟨rfl, rfl, rfl⟩

theorem sameShape_withShard (store : BlockCache) (key : ShardKey) (shard : Shard) :
    SameShape store (store.withShard key shard) :=
  ⟨rfl, rfl, rfl⟩

theorem sameShape_acquire (store : BlockCache) (key : ShardKey) :
    SameShape store (store.acquire key).2 := by
  simp only [BlockCache.acquire]
  split
  · exact sameShape_withShard _ _ _
  · exact .refl store
  · exact sameShape_withShard _ _ _

theorem sameShape_await (awaited : store.await key = some outcome) : SameShape store outcome.2 := by
  rcases await_some awaited with ⟨rfl, _⟩ | ⟨_, rfl, _⟩
  · exact .refl store
  · exact sameShape_withShard _ _ _

theorem sameTable_await (awaited : store.await key = some outcome) : SameTable store outcome.2 := by
  rcases await_some awaited with ⟨rfl, _⟩ | ⟨_, rfl, _⟩
  · exact .refl store
  · exact sameTable_withShard _ _ _

theorem sameShape_publish (store : BlockCache) (key : ShardKey) (block : Bytes) :
    SameShape store (store.publish key block).2 := by
  simp only [BlockCache.publish]
  split
  · have replaced := sameShape_withShard store key (store.install key block).shard
    exact ⟨replaced.options, replaced.shardCount, replaced.shardBudget⟩
  · exact .refl store

theorem sameShape_bind (store : BlockCache) (identifier : Bytes) (validator : Validator)
    (blockSize : ℕ) : SameShape store (store.bind identifier validator blockSize).2 := by
  simp only [BlockCache.bind]
  split
  · exact ⟨rfl, rfl, rfl⟩
  · split <;> exact ⟨rfl, rfl, rfl⟩

theorem Represents.bind (represents : store.Represents uses) (identifier : Bytes)
    (validator : Validator) (blockSize : ℕ) :
    (store.bind identifier validator blockSize).2.Represents uses := by
  simp only [BlockCache.bind]
  split
  · exact { represents with }
  · split <;> exact { represents with }

/-! ### Which keys an operation can bring about -/

/-- Nothing but the key has an entry that it did not have before. -/
def OnlyAt (key : ShardKey) (before after : BlockCache) : Prop :=
  ∀ other, other ≠ key → before.lookup other = none → after.lookup other = none

theorem onlyAt_of_eq {after : BlockCache} (same : after.lookup = store.lookup) :
    OnlyAt key store after := by
  intro other _ absent
  rw [same]
  exact absent

theorem onlyAt_of_update {after : BlockCache} {entry : Option Entry}
    (updated : after.lookup = update store.lookup key entry) :
    OnlyAt key store after := by
  intro other elsewhere absent
  rw [updated, update_of_ne elsewhere]
  exact absent

theorem onlyAt_acquire (store : BlockCache) (key : ShardKey) :
    OnlyAt key store (store.acquire key).2 := by
  rcases store.acquire_cases key with ⟨_, _, _, same⟩ | ⟨_, _, same⟩ | ⟨_, _, updated⟩
  · exact onlyAt_of_eq same
  · exact onlyAt_of_eq same
  · exact onlyAt_of_update updated

theorem onlyAt_await (awaited : store.await key = some outcome) : OnlyAt key store outcome.2 := by
  rcases await_some awaited with ⟨rfl, _⟩ | ⟨_, rfl, _⟩
  · exact onlyAt_of_eq rfl
  · exact onlyAt_of_eq (store.lookup_touch key)

theorem onlyAt_publish (store : BlockCache) (key : ShardKey) (block : Bytes) :
    OnlyAt key store (store.publish key block).2 := by
  by_cases pending : store.lookup key = some .pending
  · intro other elsewhere absent
    rcases lookup_publish block pending other with same | ⟨gone, _⟩
    · rw [same, update_of_ne elsewhere]
      exact absent
    · exact gone
  · rw [publish_of_not_pending block pending]
    exact onlyAt_of_eq rfl

theorem lookup_abandon_cases (store : BlockCache) (key : ShardKey) :
    (store.abandon key).lookup = update store.lookup key none ∨
      (store.abandon key).lookup = store.lookup := by
  by_cases pending : store.lookup key = some .pending
  · exact Or.inl (lookup_abandon pending)
  · right
    funext other
    apply lookup_withShard_of_entries
    have pendingHere : ¬(store.shardFor key).entries key = some .pending := pending
    simp only [Shard.release, dif_neg pendingHere]

theorem onlyAt_abandon (store : BlockCache) (key : ShardKey) :
    OnlyAt key store (store.abandon key) := by
  rcases store.lookup_abandon_cases key with updated | same
  · exact onlyAt_of_update updated
  · exact onlyAt_of_eq same

theorem lookup_purge (store : BlockCache) (identityId index : ℕ) (key : ShardKey) :
    (store.purge identityId index).lookup key =
      if store.shardIndex key = index ∧ key.identityId = identityId then none
      else store.lookup key := by
  have sameIndex : (store.purge identityId index).shardIndex key = store.shardIndex key := rfl
  have replaced : (store.purge identityId index).shards =
      update store.shards index ((store.shards index).dropIdentity identityId) := rfl
  rw [lookup, shardFor, sameIndex, replaced, update_apply]
  split
  · rename_i here
    rw [lookup, shardFor, here]
    simp only [Shard.dropIdentity, Shard.ofIdentity, beq_iff_eq, true_and]
  · rename_i elsewhere
    rw [if_neg fun both => elsewhere both.1]
    rfl

/-! ### What a publication drops -/

theorem shardFor_publish (pending : store.lookup key = some .pending) :
    (store.publish key block).2.shardFor key = (store.install key block).shard := by
  simp only [BlockCache.publish, pending]
  change update store.shards (store.shardIndex key) _ (store.shardIndex key) = _
  rw [update_self]

/-- The block stays, and the keys that go stand at the end of the stripe's list. -/
structure Evicts (store after : BlockCache) (key : ShardKey) (block : Bytes)
    (victims : List ShardKey) : Prop where
  kept : after.lookup key = some (.resident block)
  dropped : (after.shardFor key).lru ++ victims = key :: (store.shardFor key).lru
  others : ∀ other, other ≠ key →
    after.lookup other = if other ∈ victims then none else store.lookup other

theorem entries_install_of_ne (pending : store.lookup key = some .pending)
    {victims : List ShardKey}
    (dropped : (store.install key block).shard.lru ++ victims = key :: (store.shardFor key).lru)
    {other : ShardKey} (elsewhere : other ≠ key) :
    (store.install key block).shard.entries other =
      if other ∈ victims then none else (store.shardFor key).entries other := by
  have unlisted := not_mem_lru pending
  have nodup : ((store.install key block).shard.lru ++ victims).Nodup := by
    rw [dropped]
    exact List.nodup_cons.mpr ⟨unlisted, (store.shardFor key).lru_nodup⟩
  have listed : other ∈ (store.shardFor key).lru ↔
      other ∈ (store.install key block).shard.lru ∨ other ∈ victims := by
    rw [← List.mem_append, dropped, List.mem_cons, or_iff_right elsewhere]
  have forgets := install_forgets block pending other
  rw [update_of_ne elsewhere] at forgets
  split
  · rename_i isVictim
    rcases forgets with same | ⟨gone, _⟩
    · -- A victim that kept its entry would be listed among the survivors.
      have survives : other ∈ (store.install key block).shard.lru := by
        rw [Shard.mem_lru, same, ← Shard.mem_lru]
        exact listed.mpr (Or.inr isVictim)
      exact absurd rfl ((List.nodup_append.mp nodup).2.2 other survives other isVictim)
    · exact gone
  · rename_i survives
    rcases forgets with same | ⟨gone, block, resident⟩
    · exact same
    · have before : other ∈ (store.shardFor key).lru :=
        ((store.shardFor key).mem_lru other).mpr ⟨block, resident⟩
      have after := (Shard.mem_lru _ other).mp (Or.resolve_right (listed.mp before) survives)
      simp [gone] at after

theorem evicts_publish (represents : store.Represents uses) (block : Bytes)
    (pending : store.lookup key = some .pending) :
    ∃ victims, store.Evicts (store.publish key block).2 key block victims := by
  rcases lru_install_isPrefix block pending with ⟨victims, dropped⟩
  refine ⟨victims, lookup_publish_self block pending, ?_, ?_⟩
  · rw [shardFor_publish pending]
    exact dropped
  intro other elsewhere
  rw [lookup_publish_eq pending]
  split
  · rename_i sameStripe
    rw [entries_install_of_ne pending dropped elsewhere, lookup, shardFor, shardFor, sameStripe]
  · rename_i otherStripe
    rw [if_neg]
    intro isVictim
    have listed : other ∈ key :: (store.shardFor key).lru :=
      dropped ▸ List.mem_append_right _ isVictim
    rcases (Shard.mem_lru _ other).mp (List.mem_of_ne_of_mem elsewhere listed) with
      ⟨block, resident⟩
    have present : (store.shardFor key).entries other ≠ none := by simp [resident]
    exact otherStripe (represents.inStripe present).symm

/-! ### The budget -/

/-- No stripe holds more than its part of the budget. -/
def WithinBudget (store : BlockCache) : Prop :=
  ∀ index, (store.shards index).bytes ≤ store.shardBudget

section

variable (within : store.WithinBudget)

include within

theorem WithinBudget.replace (index : ℕ)
    (bytes : shard.bytes ≤ store.shardBudget) (residentTotal : ℕ) :
    (store.replace index shard residentTotal).WithinBudget :=
  forall_replace (fun _ shard => shard.bytes ≤ store.shardBudget) bytes
    (fun other _ => within other) residentTotal

theorem WithinBudget.withShard (bytes : shard.bytes = (store.shardFor key).bytes) :
    (store.withShard key shard).WithinBudget :=
  within.replace (store.shardIndex key) (bytes ▸ within (store.shardIndex key)) _

theorem WithinBudget.acquire (key : ShardKey) : (store.acquire key).2.WithinBudget := by
  simp only [BlockCache.acquire]
  split
  · exact within.withShard (Shard.bytes_reserve _ _)
  · exact within
  · exact within.withShard (Shard.bytes_touch _ _)

theorem WithinBudget.await {outcome : Option Bytes × BlockCache}
    (awaited : store.await key = some outcome) : outcome.2.WithinBudget := by
  rcases await_some awaited with ⟨rfl, _⟩ | ⟨_, rfl, _⟩
  · exact within
  · exact within.withShard (Shard.bytes_touch _ _)

theorem WithinBudget.abandon (key : ShardKey) : (store.abandon key).WithinBudget :=
  within.withShard (Shard.bytes_release _ _)

theorem WithinBudget.purge (identityId index : ℕ) : (store.purge identityId index).WithinBudget := by
  have dropped := (store.shards index).bytes_dropIdentity identityId
  have before := within index
  exact within.replace index (by omega) _

theorem WithinBudget.bind (identifier : Bytes) (validator : Validator) (blockSize : ℕ) :
    (store.bind identifier validator blockSize).2.WithinBudget := by
  simp only [BlockCache.bind]
  split
  · exact within
  · split <;> exact within

end

theorem bytes_install_single (pending : store.lookup key = some .pending)
    (single : (store.install key block).shard.lru.length ≤ 1) :
    (store.install key block).shard.bytes = block.length := by
  have resident : (store.install key block).shard.entries key = some (.resident block) := by
    have published := lookup_publish_self block pending
    rw [lookup_publish_eq pending, if_pos rfl] at published
    exact published
  have listed := mem_lru_install block pending
  cases lru : (store.install key block).shard.lru with
  | nil =>
    rw [lru] at listed
    cases listed
  | cons first rest =>
    rw [lru] at single listed
    cases List.length_eq_zero_iff.mp (Nat.le_zero.mp (Nat.le_of_succ_le_succ single))
    rw [← List.mem_singleton.mp listed] at lru
    rw [Shard.bytes, lru, List.map_singleton, List.sum_singleton, Shard.bytesOf_eq resident]

theorem WithinBudget.publish (within : store.WithinBudget) (represents : store.Represents uses)
    (positive : 0 < store.shardCount) {block : Bytes} (allocates : store.Allocates block)
    (small : block.length ≤ store.shardBudget) : (store.publish key block).2.WithinBudget := by
  by_cases pending : store.lookup key = some .pending
  · have counts := represents.install_counts positive pending allocates
    have bytes : (store.install key block).shard.bytes ≤ store.shardBudget := by
      have stops : (store.install key block).shard.residentBytes ≤ store.shardBudget ∨
          (store.install key block).shard.lru.length ≤ 1 :=
        evictLocked_within (Nat.le_refl _)
      rcases stops with fits | single
      · exact counts.residentBytes ▸ fits
      · rw [bytes_install_single pending single]
        exact small
    simp only [BlockCache.publish, pending]
    exact within.replace _ bytes _
  · rw [publish_of_not_pending block pending]
    exact within

end BlockCache

end UsdAsset.Cache
