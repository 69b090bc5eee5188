import UsdAsset.Lib.Machine
import UsdAsset.Cache.BlockCache

/-!
# Who shares an identity

Every binding gets its id through the table of shared identities or, if it is
private, an id of its own.  So two bindings that use the same keys of the store
are one binding, or were made for the same identity.
-/

namespace UsdAsset.Cache

variable {bound : Binding}

namespace BlockCache

/-- Every binding of a list was made by the store. -/
structure Interned (store : BlockCache) (bindings : List Binding) : Prop where
  below : ∀ binding ∈ bindings, binding.identityId < store.nextIdentityId
  tableBelow : ∀ {identity identityId}, store.identities.lookup identity = some identityId →
    identityId < store.nextIdentityId
  injective : ∀ {left right identityId}, store.identities.lookup left = some identityId →
    store.identities.lookup right = some identityId → left = right
  shared : ∀ binding ∈ bindings, binding.isPrivate = false →
    store.identities.lookup binding.identity = some binding.identityId
  alone : ∀ {left right : ℕ} {binding other : Binding}, bindings[left]? = some binding →
    bindings[right]? = some other → binding.isPrivate = true →
    other.identityId = binding.identityId → left = right
  untabled : ∀ binding ∈ bindings, binding.isPrivate = true →
    ∀ identity, store.identities.lookup identity ≠ some binding.identityId

variable {store after : BlockCache} {bindings : List Binding}

theorem interned_create (options : CacheOptions) : Interned (create options) [] where
  below := nofun
  tableBelow := nofun
  injective := nofun
  shared := nofun
  alone := nofun
  untabled := nofun

variable (interned : Interned store bindings)

include interned

theorem Interned.congr (table : SameTable store after) : Interned after bindings where
  below := table.nextIdentityId ▸ interned.below
  tableBelow := by
    rw [table.nextIdentityId, table.identities]
    exact interned.tableBelow
  injective := by
    rw [table.identities]
    exact interned.injective
  shared := table.identities ▸ interned.shared
  alone := interned.alone
  untabled := table.identities ▸ interned.untabled

theorem Interned.isolated {left right : ℕ}
    {binding other : Binding} (leftAt : bindings[left]? = some binding)
    (rightAt : bindings[right]? = some other) (sameId : binding.identityId = other.identityId) :
    left = right ∨ (binding.isPrivate = false ∧ other.isPrivate = false ∧
      binding.identity = other.identity) := by
  cases leftPrivate : binding.isPrivate with
  | true => exact Or.inl (interned.alone leftAt rightAt leftPrivate sameId.symm)
  | false =>
    cases rightPrivate : other.isPrivate with
    | true => exact Or.inl (interned.alone rightAt leftAt rightPrivate sameId).symm
    | false =>
      refine Or.inr ⟨rfl, rfl, ?_⟩
      apply interned.injective
        (interned.shared binding (List.mem_of_getElem? leftAt) leftPrivate)
      rw [sameId]
      exact interned.shared other (List.mem_of_getElem? rightAt) rightPrivate

theorem Interned.alone_append
    (distinct : ∀ other ∈ bindings, other.isPrivate = true ∨ bound.isPrivate = true →
      other.identityId ≠ bound.identityId) {left right : ℕ} {binding other : Binding}
    (leftAt : (bindings ++ [bound])[left]? = some binding)
    (rightAt : (bindings ++ [bound])[right]? = some other) (isPrivate : binding.isPrivate = true)
    (sameId : other.identityId = binding.identityId) : left = right := by
  rcases Machine.getElem?_append_singleton leftAt with leftOld | ⟨leftEnd, rfl⟩
  · rcases Machine.getElem?_append_singleton rightAt with rightOld | ⟨_, rfl⟩
    · exact interned.alone leftOld rightOld isPrivate sameId
    · exact absurd sameId.symm
        (distinct binding (List.mem_of_getElem? leftOld) (Or.inl isPrivate))
  · rcases Machine.getElem?_append_singleton rightAt with rightOld | ⟨rightEnd, rfl⟩
    · exact absurd sameId (distinct other (List.mem_of_getElem? rightOld) (Or.inr isPrivate))
    · rw [leftEnd, rightEnd]

/-- An id that has just been given out is behind every id in use. -/
theorem Interned.below_append (newId : bound.identityId = store.nextIdentityId) :
    ∀ binding ∈ bindings ++ [bound], binding.identityId < store.nextIdentityId + 1 := by
  rw [List.forall_mem_append, List.forall_mem_singleton, newId]
  exact ⟨fun binding bindingMem => Nat.lt_succ_of_lt (interned.below binding bindingMem),
    Nat.lt_succ_self _⟩

theorem Interned.bind_private
    (isPrivate : bound.isPrivate = true) (newId : bound.identityId = store.nextIdentityId)
    (nextId : after.nextIdentityId = store.nextIdentityId + 1)
    (table : after.identities = store.identities) : Interned after (bindings ++ [bound]) where
  below := nextId ▸ interned.below_append newId
  tableBelow := by
    intro identity identityId listed
    rw [table] at listed
    rw [nextId]
    exact Nat.lt_succ_of_lt (interned.tableBelow listed)
  injective := by
    rw [table]
    exact interned.injective
  shared := by
    rw [table, List.forall_mem_append, List.forall_mem_singleton, isPrivate]
    exact ⟨interned.shared, nofun⟩
  alone := by
    apply interned.alone_append
    intro other otherMem _
    rw [newId]
    exact Nat.ne_of_lt (interned.below other otherMem)
  untabled := by
    rw [table, List.forall_mem_append, List.forall_mem_singleton, newId]
    refine ⟨interned.untabled, ?_⟩
    intro _ identity listed
    exact Nat.lt_irrefl _ (interned.tableBelow listed)

theorem Interned.bind_known (isShared : bound.isPrivate = false)
    (known : store.identities.lookup bound.identity = some bound.identityId)
    (table : SameTable store after) : Interned after (bindings ++ [bound]) := by
  refine Interned.congr ⟨?_, interned.tableBelow, interned.injective, ?_, ?_, ?_⟩ table
  · rw [List.forall_mem_append, List.forall_mem_singleton]
    exact ⟨interned.below, interned.tableBelow known⟩
  · rw [List.forall_mem_append, List.forall_mem_singleton]
    exact ⟨interned.shared, fun _ => known⟩
  · apply interned.alone_append
    intro other otherMem either sameId
    rw [isShared] at either
    exact interned.untabled other otherMem (by simpa using either) _ (sameId ▸ known)
  · rw [List.forall_mem_append, List.forall_mem_singleton, isShared]
    exact ⟨interned.untabled, nofun⟩

theorem Interned.bind_new
    (isShared : bound.isPrivate = false) (unknown : store.identities.lookup bound.identity = none)
    (newId : bound.identityId = store.nextIdentityId)
    (nextId : after.nextIdentityId = store.nextIdentityId + 1)
    (table : after.identities = (bound.identity, store.nextIdentityId) :: store.identities) :
    Interned after (bindings ++ [bound]) := by
  have listed : ∀ {identity identityId}, after.identities.lookup identity = some identityId →
      (identity = bound.identity ∧ identityId = store.nextIdentityId) ∨
        (store.identities.lookup identity = some identityId ∧
          identityId < store.nextIdentityId) := by
    intro identity identityId found
    rw [table, List.lookup_cons] at found
    split at found
    · rename_i same
      exact Or.inl ⟨eq_of_beq same, (Option.some.inj found).symm⟩
    · exact Or.inr ⟨found, interned.tableBelow found⟩
  refine ⟨nextId ▸ interned.below_append newId, ?_, ?_, ?_, ?_, ?_⟩
  · intro identity identityId found
    rw [nextId]
    rcases listed found with ⟨_, rfl⟩ | ⟨_, below⟩
    · exact Nat.lt_succ_self _
    · exact Nat.lt_succ_of_lt below
  · intro left right identityId leftFound rightFound
    rcases listed leftFound with ⟨rfl, rfl⟩ | ⟨leftOld, leftBelow⟩
    · rcases listed rightFound with ⟨rfl, _⟩ | ⟨_, rightBelow⟩
      · rfl
      · exact absurd rightBelow (Nat.lt_irrefl _)
    · rcases listed rightFound with ⟨rfl, rfl⟩ | ⟨rightOld, _⟩
      · exact absurd leftBelow (Nat.lt_irrefl _)
      · exact interned.injective leftOld rightOld
  · rw [List.forall_mem_append, List.forall_mem_singleton, table]
    constructor
    · intro binding bindingMem bindingShared
      have old := interned.shared binding bindingMem bindingShared
      rw [List.lookup_cons]
      split
      · rename_i same
        rw [eq_of_beq same, unknown] at old
        cases old
      · exact old
    · intro _
      rw [List.lookup_cons_self, newId]
  · apply interned.alone_append
    intro other otherMem _
    rw [newId]
    exact Nat.ne_of_lt (interned.below other otherMem)
  · rw [List.forall_mem_append, List.forall_mem_singleton, isShared]
    refine ⟨?_, nofun⟩
    intro binding bindingMem isPrivate identity found
    rcases listed found with ⟨_, sameId⟩ | ⟨old, _⟩
    · exact Nat.ne_of_lt (interned.below binding bindingMem) sameId
    · exact interned.untabled binding bindingMem isPrivate identity old

theorem Interned.bind (identifier : Bytes) (validator : Validator) (blockSize : ℕ) :
    Interned (store.bind identifier validator blockSize).2
      (bindings ++ [(store.bind identifier validator blockSize).1]) := by
  rcases store.bind_cases identifier validator blockSize with
    ⟨isPrivate, newId, nextId, table⟩ | ⟨isShared, known, table⟩ |
      ⟨isShared, unknown, newId, nextId, table⟩
  · exact interned.bind_private isPrivate newId nextId table
  · exact interned.bind_known isShared known table
  · exact interned.bind_new isShared unknown newId nextId table

end BlockCache

end UsdAsset.Cache
