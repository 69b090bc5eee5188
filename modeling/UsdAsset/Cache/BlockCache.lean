import Mathlib.Data.List.Basic
import Mathlib.Logic.Function.Basic
import UsdAsset.Cache.Options

/-!
# The block store

Models `BlockCache.h` and `BlockCache.cpp`: stripes of entries with a list of the
resident ones in order of use, eviction under a budget, and the table of shared
identities.  Every operation below is one critical section of the source, so it
is one step of whoever calls it.

An entry is pending or holds a block, and a stripe lists exactly the keys of the
entries that hold one; the source's `inLru` and `lruIt` are membership in that
list.  Byte counts are 64-bit values and wrap.  The identity counter is a natural
number: no process makes `2 ^ 64` bindings.
-/

namespace UsdAsset.Cache

open Function

structure ShardKey where
  identityId : ℕ
  blockIndex : ℕ
  deriving DecidableEq, Repr

variable {key : ShardKey}

def mix (value : UInt64) : UInt64 :=
  let value := value + 0x9E3779B97F4A7C15
  let value := (value ^^^ (value >>> 30)) * 0xBF58476D1CE4E5B9
  let value := (value ^^^ (value >>> 27)) * 0x94D049BB133111EB
  value ^^^ (value >>> 31)

def ShardKey.hash (key : ShardKey) : UInt64 :=
  mix (UInt64.ofNat key.identityId ^^^ mix (UInt64.ofNat key.blockIndex))

/-- The stripe of a key among a power of two of them; no proof looks into it. -/
@[irreducible]
def ShardKey.stripe (key : ShardKey) (shardCount : ℕ) : ℕ :=
  (key.hash &&& UInt64.ofNat (shardCount - 1)).toNat

inductive Entry where
  | pending
  | resident (block : Bytes)
  deriving DecidableEq, Repr

def Entry.bytes : Option Entry → ℕ
  | some (.resident block) => block.length
  | _ => 0

def addU64 (value more : ℕ) : ℕ := (value + more) % 2 ^ 64

def subU64 (value less : ℕ) : ℕ := (value + 2 ^ 64 - less % 2 ^ 64) % 2 ^ 64

/-- One stripe; the front of `lru` is the most recently used key. -/
structure Shard where
  entries : ShardKey → Option Entry
  lru : List ShardKey
  residentBytes : ℕ
  evictions : ℕ
  peakResidentBytes : ℕ
  lru_nodup : lru.Nodup
  mem_lru : ∀ key, key ∈ lru ↔ ∃ block, entries key = some (.resident block)

variable {shard : Shard}

namespace Shard

def empty : Shard where
  entries _ := none
  lru := []
  residentBytes := 0
  evictions := 0
  peakResidentBytes := 0
  lru_nodup := List.nodup_nil
  mem_lru := by simp

/-- `TouchLocked`: moves a resident key to the front. -/
def touch (shard : Shard) (key : ShardKey) : Shard :=
  if resident : key ∈ shard.lru then
    { shard with
      lru := key :: shard.lru.erase key
      lru_nodup := List.nodup_cons.mpr
        ⟨fun again => (shard.lru_nodup.mem_erase_iff.mp again).1 rfl, shard.lru_nodup.erase key⟩
      mem_lru := by
        intro other
        rw [← shard.mem_lru, List.mem_cons, shard.lru_nodup.mem_erase_iff]
        by_cases same : other = key
        · simp [same, resident]
        · simp [same] }
  else shard

def reserve (shard : Shard) (key : ShardKey) : Shard :=
  if absent : shard.entries key = none then
    { shard with
      entries := Function.update shard.entries key (some .pending)
      mem_lru := by
        intro other
        rw [shard.mem_lru]
        by_cases same : other = key
        · simp [same, absent]
        · simp [Function.update_of_ne same] }
  else shard

def release (shard : Shard) (key : ShardKey) : Shard :=
  if pending : shard.entries key = some .pending then
    { shard with
      entries := Function.update shard.entries key none
      mem_lru := by
        intro other
        rw [shard.mem_lru]
        by_cases same : other = key
        · simp [same, pending]
        · simp [Function.update_of_ne same] }
  else shard

def install (shard : Shard) (key : ShardKey) (block : Bytes) : Shard :=
  if pending : shard.entries key = some .pending then
    { shard with
      entries := Function.update shard.entries key (some (.resident block))
      lru := key :: shard.lru
      residentBytes := addU64 shard.residentBytes block.length
      peakResidentBytes :=
        max shard.peakResidentBytes (addU64 shard.residentBytes block.length)
      lru_nodup := by
        refine List.nodup_cons.mpr ⟨?_, shard.lru_nodup⟩
        rw [shard.mem_lru]
        simp [pending]
      mem_lru := by
        intro other
        rw [List.mem_cons, shard.mem_lru]
        by_cases same : other = key
        · simp [same]
        · simp [same] }
  else shard

def dropVictim (shard : Shard) (nonempty : shard.lru ≠ []) : Shard where
  entries := Function.update shard.entries (shard.lru.getLast nonempty) none
  lru := shard.lru.dropLast
  residentBytes :=
    subU64 shard.residentBytes (Entry.bytes (shard.entries (shard.lru.getLast nonempty)))
  evictions := shard.evictions + 1
  peakResidentBytes := shard.peakResidentBytes
  lru_nodup := shard.lru_nodup.sublist (List.dropLast_sublist _)
  mem_lru := by
    intro key
    have split := List.dropLast_append_getLast nonempty
    have nodup := shard.lru_nodup
    have mem := shard.mem_lru key
    rw [← split] at nodup mem
    rw [List.nodup_append] at nodup
    by_cases same : key = shard.lru.getLast nonempty
    · subst same
      simp only [Function.update_self, reduceCtorEq, exists_false, iff_false]
      intro again
      exact nodup.2.2 _ again _ (List.mem_singleton_self _) rfl
    · rw [Function.update_of_ne same, ← mem]
      simp [same]

def ofIdentity (identityId : ℕ) (key : ShardKey) : Bool := key.identityId == identityId

def dropIdentity (shard : Shard) (identityId : ℕ) : Shard where
  entries key := if ofIdentity identityId key then none else shard.entries key
  lru := shard.lru.filter fun key => !ofIdentity identityId key
  residentBytes := (shard.lru.filter (ofIdentity identityId)).foldl
    (fun bytes key => subU64 bytes (Entry.bytes (shard.entries key))) shard.residentBytes
  evictions := shard.evictions
  peakResidentBytes := shard.peakResidentBytes
  lru_nodup := shard.lru_nodup.filter _
  mem_lru := by
    intro key
    rw [List.mem_filter, shard.mem_lru]
    cases ofIdentity identityId key <;> simp

end Shard

/-! ### Eviction -/

/-- A stripe under eviction, with the store's total and the blocks dropped so far. -/
structure Eviction where
  shard : Shard
  total : ℕ
  evicted : ℕ

/-- `EvictLocked`; the list bounds the loop, and the last resident block is never dropped. -/
def evictLocked (budget : ℕ) : ℕ → Eviction → Eviction
  | 0, state => state
  | rounds + 1, state =>
      if state.shard.residentBytes > budget ∧ state.shard.lru.length > 1 then
        if nonempty : state.shard.lru ≠ [] then
          evictLocked budget rounds
            { shard := state.shard.dropVictim nonempty
              total := subU64 state.total
                (Entry.bytes (state.shard.entries (state.shard.lru.getLast nonempty)))
              evicted := state.evicted + 1 }
        else state
      else state

/-! ### The store -/

def chooseShardCount (budgetBytes blockSize : ℕ) : ℕ :=
  doubleWithin (if blockSize > 0 then budgetBytes / (blockSize * 8) else 1) 6 1

structure BlockCache where
  options : CacheOptions
  shardCount : ℕ
  shardBudget : ℕ
  shards : ℕ → Shard
  residentTotal : ℕ
  identities : List (AssetIdentity × ℕ)
  nextIdentityId : ℕ
  liveBindings : ℕ

structure Binding where
  identity : AssetIdentity
  identityId : ℕ
  isPrivate : Bool
  deriving DecidableEq, Repr

/-- What an acquisition told its caller. -/
inductive Acquisition where
  | hit (block : Bytes)
  | owned
  | busy
  deriving DecidableEq, Repr

namespace BlockCache

def create (requested : CacheOptions) : BlockCache :=
  let options := requested.normalized
  let count := chooseShardCount options.budgetBytes options.blockSize
  { options
    shardCount := count
    shardBudget := max (options.budgetBytes / count) options.blockSize
    shards := fun _ => Shard.empty
    residentTotal := 0
    identities := []
    nextIdentityId := 1
    liveBindings := 0 }

def shardIndex (store : BlockCache) (key : ShardKey) : ℕ := key.stripe store.shardCount

def shardFor (store : BlockCache) (key : ShardKey) : Shard := store.shards (store.shardIndex key)

def lookup (store : BlockCache) (key : ShardKey) : Option Entry := (store.shardFor key).entries key

def withShard (store : BlockCache) (key : ShardKey) (shard : Shard) : BlockCache :=
  { store with shards := Function.update store.shards (store.shardIndex key) shard }

def bind (store : BlockCache) (resolvedIdentifier : Bytes) (validator : Validator)
    (blockSize : ℕ) : Binding × BlockCache :=
  let identity : AssetIdentity := ⟨resolvedIdentifier, validator.value, blockSize⟩
  let counted := { store with liveBindings := store.liveBindings + 1 }
  if !isShareable validator then
    (⟨identity, store.nextIdentityId, true⟩,
      { counted with nextIdentityId := store.nextIdentityId + 1 })
  else
    match store.identities.lookup identity with
    | some identityId => (⟨identity, identityId, false⟩, counted)
    | none =>
        (⟨identity, store.nextIdentityId, false⟩,
          { counted with
            nextIdentityId := store.nextIdentityId + 1
            identities := (identity, store.nextIdentityId) :: store.identities })

/-- Destroys a binding; the entries of a private one go with it. -/
def close (store : BlockCache) (binding : Binding) : BlockCache :=
  if binding.isPrivate then
    { store with
      shards := fun index => (store.shards index).dropIdentity binding.identityId
      residentTotal := (List.range store.shardCount).foldl
        (fun total index =>
          ((store.shards index).lru.filter (Shard.ofIdentity binding.identityId)).foldl
            (fun total key => subU64 total (Entry.bytes ((store.shards index).entries key))) total)
        store.residentTotal
      liveBindings := store.liveBindings - 1 }
  else { store with liveBindings := store.liveBindings - 1 }

def acquire (store : BlockCache) (key : ShardKey) : Acquisition × BlockCache :=
  match store.lookup key with
  | none => (.owned, store.withShard key ((store.shardFor key).reserve key))
  | some .pending => (.busy, store)
  | some (.resident block) => (.hit block, store.withShard key ((store.shardFor key).touch key))

/-- The check of `Await`; nothing where the caller has to wait. -/
def await (store : BlockCache) (key : ShardKey) : Option (Option Bytes × BlockCache) :=
  match store.lookup key with
  | none => some (none, store)
  | some .pending => none
  | some (.resident block) =>
      some (some block, store.withShard key ((store.shardFor key).touch key))

/-- The key's stripe with the block installed, evicted down to its budget. -/
def install (store : BlockCache) (key : ShardKey) (block : Bytes) : Eviction :=
  let shard := (store.shardFor key).install key block
  evictLocked store.shardBudget shard.lru.length
    ⟨shard, addU64 store.residentTotal block.length, 0⟩

/-- Publishes a block its caller owns; returns how many blocks were evicted for it. -/
def publish (store : BlockCache) (key : ShardKey) (block : Bytes) : ℕ × BlockCache :=
  match store.lookup key with
  | some .pending =>
      let eviction := store.install key block
      (eviction.evicted,
        { store.withShard key eviction.shard with residentTotal := eviction.total })
  | _ => (0, store)

def abandon (store : BlockCache) (key : ShardKey) : BlockCache :=
  store.withShard key ((store.shardFor key).release key)

theorem bind_identity (store : BlockCache) (resolvedIdentifier : Bytes) (validator : Validator)
    (blockSize : ℕ) :
    (store.bind resolvedIdentifier validator blockSize).1.identity =
      ⟨resolvedIdentifier, validator.value, blockSize⟩ := by
  simp only [bind]
  split
  · rfl
  · split <;> rfl

theorem bind_isPrivate (store : BlockCache) (resolvedIdentifier : Bytes) (validator : Validator)
    (blockSize : ℕ) :
    (store.bind resolvedIdentifier validator blockSize).1.isPrivate = !isShareable validator := by
  simp only [bind]
  split
  · rename_i unshareable
    exact unshareable.symm
  · rename_i shareable
    split <;> simpa using shareable

end BlockCache

/-! ### What an operation does to the entries -/

namespace Shard

@[simp]
theorem entries_touch (shard : Shard) (key : ShardKey) :
    (shard.touch key).entries = shard.entries := by
  simp only [touch]
  split <;> rfl

theorem entries_reserve (absent : shard.entries key = none) :
    (shard.reserve key).entries = update shard.entries key (some .pending) := by
  simp only [reserve, dif_pos absent]

theorem entries_release (pending : shard.entries key = some .pending) :
    (shard.release key).entries = update shard.entries key none := by
  simp only [release, dif_pos pending]

theorem entries_install (block : Bytes) (pending : shard.entries key = some .pending) :
    (shard.install key block).entries =
      update shard.entries key (some (.resident block)) := by
  simp only [install, dif_pos pending]

end Shard

/-- Only blocks are dropped on the way from the first entries to the second. -/
def Forgets (before after : ShardKey → Option Entry) : Prop :=
  ∀ key, after key = before key ∨
    (after key = none ∧ ∃ block, before key = some (.resident block))

theorem Forgets.refl (entries : ShardKey → Option Entry) : Forgets entries entries :=
  fun _ => Or.inl rfl

theorem Forgets.trans {first second third : ShardKey → Option Entry}
    (earlier : Forgets first second) (later : Forgets second third) : Forgets first third := by
  intro key
  rcases later key with same | ⟨gone, block, resident⟩
  · rw [same]
    exact earlier key
  · rcases earlier key with same | ⟨already, _⟩
    · exact Or.inr ⟨gone, block, same ▸ resident⟩
    · rw [resident] at already
      cases already

theorem Shard.forgets_dropVictim (shard : Shard) (nonempty : shard.lru ≠ []) :
    Forgets shard.entries (shard.dropVictim nonempty).entries := by
  intro key
  by_cases same : key = shard.lru.getLast nonempty
  · right
    refine ⟨by simp [dropVictim, same], ?_⟩
    rw [← shard.mem_lru, same]
    exact List.getLast_mem nonempty
  · exact Or.inl (update_of_ne same _ _)

theorem evictLocked_forgets (budget rounds : ℕ) (state : Eviction) :
    Forgets state.shard.entries (evictLocked budget rounds state).shard.entries := by
  induction rounds generalizing state with
  | zero => exact .refl _
  | succ rounds ih =>
    simp only [evictLocked]
    split
    · split
      · rename_i nonempty
        exact (state.shard.forgets_dropVictim nonempty).trans (ih _)
      · exact .refl _
    · exact .refl _

namespace BlockCache

variable {store : BlockCache}

/-- The table of identities is the same. -/
structure SameTable (before after : BlockCache) : Prop where
  identities : after.identities = before.identities
  nextIdentityId : after.nextIdentityId = before.nextIdentityId

theorem SameTable.refl (store : BlockCache) : SameTable store store := ⟨rfl, rfl⟩

theorem sameTable_withShard (store : BlockCache) (key : ShardKey) (shard : Shard) :
    SameTable store (store.withShard key shard) :=
  ⟨rfl, rfl⟩

theorem sameTable_acquire (store : BlockCache) (key : ShardKey) :
    SameTable store (store.acquire key).2 := by
  simp only [acquire]
  split
  · exact sameTable_withShard _ _ _
  · exact .refl store
  · exact sameTable_withShard _ _ _

theorem sameTable_publish (store : BlockCache) (key : ShardKey) (block : Bytes) :
    SameTable store (store.publish key block).2 := by
  simp only [publish]
  split
  · have replaced := sameTable_withShard store key (store.install key block).shard
    exact ⟨replaced.identities, replaced.nextIdentityId⟩
  · exact .refl store

theorem sameTable_close (store : BlockCache) (binding : Binding) :
    SameTable store (store.close binding) := by
  simp only [close]
  split <;> exact ⟨rfl, rfl⟩

theorem lookup_withShard (store : BlockCache) (key other : ShardKey) (shard : Shard) :
    (store.withShard key shard).lookup other =
      if store.shardIndex other = store.shardIndex key then shard.entries other
      else store.lookup other := by
  have sameIndex : (store.withShard key shard).shardIndex other = store.shardIndex other := rfl
  have replaced : (store.withShard key shard).shards =
      update store.shards (store.shardIndex key) shard := rfl
  rw [lookup, shardFor, sameIndex, replaced, update_apply]
  split <;> rfl

theorem lookup_withShard_of_entries (same : shard.entries = (store.shardFor key).entries)
    (other : ShardKey) :
    (store.withShard key shard).lookup other = store.lookup other := by
  rw [lookup_withShard]
  split
  · rename_i sameIndex
    rw [same, lookup, shardFor, shardFor, sameIndex]
  · rfl

theorem lookup_touch (store : BlockCache) (key : ShardKey) :
    (store.withShard key ((store.shardFor key).touch key)).lookup = store.lookup :=
  funext (lookup_withShard_of_entries (Shard.entries_touch _ _))

theorem lookup_withShard_update {entry : Option Entry}
    (updated : shard.entries = update (store.shardFor key).entries key entry)
    (other : ShardKey) :
    (store.withShard key shard).lookup other =
      if other = key then entry else store.lookup other := by
  rw [lookup_withShard, updated]
  by_cases same : other = key
  · simp [same]
  · rw [update_of_ne same, if_neg same]
    split
    · rename_i sameIndex
      rw [lookup, shardFor, shardFor, sameIndex]
    · rfl

theorem acquire_cases (store : BlockCache) (key : ShardKey) :
    (∃ block, (store.acquire key).1 = .hit block ∧ store.lookup key = some (.resident block) ∧
      (store.acquire key).2.lookup = store.lookup) ∨
    ((store.acquire key).1 = .busy ∧ store.lookup key = some .pending ∧
      (store.acquire key).2.lookup = store.lookup) ∨
    ((store.acquire key).1 = .owned ∧ store.lookup key = none ∧
      (store.acquire key).2.lookup = update store.lookup key (some .pending)) := by
  cases found : store.lookup key with
  | none =>
    right
    right
    simp only [acquire, found, true_and]
    funext other
    rw [lookup_withShard_update (Shard.entries_reserve found), update_apply]
  | some entry =>
    cases entry with
    | pending =>
      right
      left
      simp only [acquire, found, and_self]
    | resident block =>
      left
      refine ⟨block, by simp only [acquire, found], rfl, ?_⟩
      simp only [acquire, found]
      exact store.lookup_touch key

theorem pending_of_await (waits : store.await key = none) : store.lookup key = some .pending := by
  simp only [await] at waits
  split at waits
  · cases waits
  · assumption
  · cases waits

/-- A caller that does not wait finds nothing, or uses what is resident. -/
theorem await_some {outcome : Option Bytes × BlockCache} (awaited : store.await key = some outcome) :
    outcome = (none, store) ∧ store.lookup key = none ∨
      ∃ block, outcome = (some block, store.withShard key ((store.shardFor key).touch key)) ∧
        store.lookup key = some (.resident block) := by
  simp only [await] at awaited
  split at awaited
  · cases awaited
    exact Or.inl ⟨rfl, by assumption⟩
  · cases awaited
  · cases awaited
    exact Or.inr ⟨_, rfl, by assumption⟩

theorem install_forgets (block : Bytes) (pending : store.lookup key = some .pending) :
    Forgets (update (store.shardFor key).entries key (some (.resident block)))
      (store.install key block).shard.entries := by
  rw [← Shard.entries_install block pending]
  exact evictLocked_forgets _ _ _

theorem lookup_residentTotal (store : BlockCache) (residentTotal : ℕ) (key : ShardKey) :
    { store with residentTotal }.lookup key = store.lookup key := rfl

theorem lookup_publish (block : Bytes) (pending : store.lookup key = some .pending) :
    Forgets (update store.lookup key (some (.resident block)))
      (store.publish key block).2.lookup := by
  intro other
  have published : (store.publish key block).2.lookup other =
      (store.withShard key (store.install key block).shard).lookup other := by
    simp only [publish, pending]
    exact lookup_residentTotal _ _ other
  rw [published, lookup_withShard]
  by_cases sameIndex : store.shardIndex other = store.shardIndex key
  · have entryEq : update store.lookup key (some (.resident block)) other =
        update (store.shardFor key).entries key (some (.resident block)) other := by
      rw [update_apply, update_apply, lookup, shardFor, shardFor, sameIndex]
    rw [if_pos sameIndex, entryEq]
    exact install_forgets block pending other
  · rw [if_neg sameIndex, update_of_ne fun same => sameIndex (congrArg _ same)]
    exact Or.inl rfl

theorem lookup_abandon (pending : store.lookup key = some .pending) :
    (store.abandon key).lookup = update store.lookup key none := by
  funext other
  rw [abandon, lookup_withShard_update (Shard.entries_release pending), update_apply]

theorem lookup_close (store : BlockCache) (binding : Binding) (key : ShardKey) :
    (store.close binding).lookup key =
      if binding.isPrivate ∧ key.identityId = binding.identityId then none
      else store.lookup key := by
  cases isPrivate : binding.isPrivate with
  | false => simp [close, isPrivate, lookup, shardFor, shardIndex]
  | true =>
    simp only [close, isPrivate, lookup, shardFor, shardIndex, Shard.dropIdentity,
      Shard.ofIdentity, beq_iff_eq, true_and, if_true]

theorem lookup_bind (store : BlockCache) (identifier : Bytes) (validator : Validator)
    (blockSize : ℕ) : (store.bind identifier validator blockSize).2.lookup = store.lookup := by
  simp only [bind]
  split
  · rfl
  · split <;> rfl

theorem bind_cases (store : BlockCache) (identifier : Bytes) (validator : Validator)
    (blockSize : ℕ) :
    let bound := store.bind identifier validator blockSize
    (bound.1.isPrivate = true ∧ bound.1.identityId = store.nextIdentityId ∧
      bound.2.nextIdentityId = store.nextIdentityId + 1 ∧
      bound.2.identities = store.identities) ∨
    (bound.1.isPrivate = false ∧
      store.identities.lookup bound.1.identity = some bound.1.identityId ∧
      SameTable store bound.2) ∨
    (bound.1.isPrivate = false ∧ store.identities.lookup bound.1.identity = none ∧
      bound.1.identityId = store.nextIdentityId ∧
      bound.2.nextIdentityId = store.nextIdentityId + 1 ∧
      bound.2.identities = (bound.1.identity, store.nextIdentityId) :: store.identities) := by
  simp only [bind]
  split
  · exact Or.inl ⟨rfl, rfl, rfl, rfl⟩
  · split
    · rename_i known
      exact Or.inr (Or.inl ⟨rfl, known, rfl, rfl⟩)
    · rename_i unknown
      exact Or.inr (Or.inr ⟨rfl, unknown, rfl, rfl, rfl⟩)

theorem lookup_create (options : CacheOptions) (key : ShardKey) :
    (create options).lookup key = none := rfl

end BlockCache

end UsdAsset.Cache
