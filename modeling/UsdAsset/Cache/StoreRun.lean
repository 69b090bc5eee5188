import UsdAsset.Cache.Representation

/-!
# The store under any sequence of operations

The operations of `BlockCache.cpp` may come in any order and from any number of
bindings; each critical section is one step, and the destructor of a private
binding is one step per stripe.

The uses of keys are on record, the latest first; no operation reads the record.
-/

namespace UsdAsset.Cache

open BlockCache
open Recency (Ordered)

variable {bindingId block : ℕ} {key : ShardKey}

/-- Where a binding is in its life; its destructor visits the stripes one by one. -/
inductive BindingPhase where
  | live
  | closing (stripe : ℕ)
  | closed
  deriving DecidableEq, Repr

structure BoundState where
  binding : Binding
  phase : BindingPhase
  deriving DecidableEq, Repr

variable {bound : BoundState}

structure StoreState where
  store : BlockCache
  bound : List BoundState
  uses : List ShardKey

inductive StoreEvent where
  | bind (resolvedIdentifier : Bytes) (validator : Validator) (blockSize : ℕ)
  | acquire (bindingId block : ℕ)
  | await (bindingId block : ℕ)
  | publish (bindingId block : ℕ) (bytes : Bytes)
  | abandon (bindingId block : ℕ)
  | destroy (bindingId : ℕ)
  | purge (bindingId : ℕ)
  | destroyed (bindingId : ℕ)

variable {event : StoreEvent}

namespace StoreState

def create (requested : CacheOptions) : StoreState where
  store := .create requested
  bound := []
  uses := []

def keyOf (state : StoreState) (bindingId block : ℕ) : Option ShardKey :=
  state.bound[bindingId]?.bind fun bound =>
    if bound.phase = .live then some ⟨bound.binding.identityId, block⟩ else none

def setPhase (state : StoreState) (bindingId : ℕ) (bound : BoundState) (phase : BindingPhase) :
    StoreState :=
  { state with bound := state.bound.set bindingId { bound with phase } }

def acquire (state : StoreState) (key : ShardKey) : StoreState :=
  { state with
    store := (state.store.acquire key).2
    uses := BlockCache.usesAcquired state.uses key (state.store.acquire key).1 }

def publish (state : StoreState) (key : ShardKey) (bytes : Bytes) : StoreState :=
  { state with
    store := (state.store.publish key bytes).2
    uses := if state.store.lookup key = some .pending then key :: state.uses else state.uses }

/-- Every critical section is one step; a wait is a step only when it ends. -/
def step (state : StoreState) : StoreEvent → Option StoreState
  | .bind resolvedIdentifier validator blockSize =>
      let bound := state.store.bind resolvedIdentifier validator blockSize
      some { state with store := bound.2, bound := state.bound ++ [⟨bound.1, .live⟩] }
  | .acquire bindingId block => (state.keyOf bindingId block).map state.acquire
  | .await bindingId block =>
      (state.keyOf bindingId block).bind fun key =>
        (state.store.await key).map fun outcome =>
          { state with
            store := outcome.2
            uses := BlockCache.usesAwaited state.uses key outcome.1 }
  | .publish bindingId block bytes =>
      (state.keyOf bindingId block).bind fun key =>
        if state.store.Allocates bytes then some (state.publish key bytes) else none
  | .abandon bindingId block =>
      (state.keyOf bindingId block).map fun key =>
        { state with store := state.store.abandon key }
  | .destroy bindingId =>
      state.bound[bindingId]?.bind fun bound =>
        if bound.phase = .live then some (state.setPhase bindingId bound (.closing 0)) else none
  | .purge bindingId =>
      state.bound[bindingId]?.bind fun bound =>
        match bound.phase with
        | .closing index =>
            if bound.binding.isPrivate ∧ index < state.store.shardCount then
              some
                { state.setPhase bindingId bound (.closing (index + 1)) with
                  store := state.store.purge bound.binding.identityId index }
            else none
        | _ => none
  | .destroyed bindingId =>
      state.bound[bindingId]?.bind fun bound =>
        match bound.phase with
        | .closing index =>
            if bound.binding.isPrivate ∧ index < state.store.shardCount then none
            else
              some
                { state.setPhase bindingId bound .closed with
                  store := { state.store with liveBindings := state.store.liveBindings - 1 } }
        | _ => none

/-- What an event found in the state and made of it. -/
inductive Stepped (state : StoreState) : StoreEvent → StoreState → Prop
  | bind {identifier : Bytes} {validator : Validator} {blockSize : ℕ} :
      Stepped state (.bind identifier validator blockSize)
        { state with
          store := (state.store.bind identifier validator blockSize).2
          bound := state.bound ++ [⟨(state.store.bind identifier validator blockSize).1, .live⟩] }
  | acquire {bindingId block : ℕ} {key : ShardKey} (live : state.keyOf bindingId block = some key) :
      Stepped state (.acquire bindingId block) (state.acquire key)
  | await {bindingId block : ℕ} {key : ShardKey} {outcome : Option Bytes × BlockCache}
      (live : state.keyOf bindingId block = some key)
      (awaited : state.store.await key = some outcome) :
      Stepped state (.await bindingId block)
        { state with
          store := outcome.2
          uses := BlockCache.usesAwaited state.uses key outcome.1 }
  | publish {bindingId block : ℕ} {key : ShardKey} {bytes : Bytes}
      (live : state.keyOf bindingId block = some key) (allocates : state.store.Allocates bytes) :
      Stepped state (.publish bindingId block bytes) (state.publish key bytes)
  | abandon {bindingId block : ℕ} {key : ShardKey} (live : state.keyOf bindingId block = some key) :
      Stepped state (.abandon bindingId block) { state with store := state.store.abandon key }
  | destroy {bindingId : ℕ} {bound : BoundState} (found : state.bound[bindingId]? = some bound)
      (live : bound.phase = .live) :
      Stepped state (.destroy bindingId) (state.setPhase bindingId bound (.closing 0))
  | purge {bindingId index : ℕ} {bound : BoundState} (found : state.bound[bindingId]? = some bound)
      (closing : bound.phase = .closing index) (isPrivate : bound.binding.isPrivate = true)
      (inRange : index < state.store.shardCount) :
      Stepped state (.purge bindingId)
        { state.setPhase bindingId bound (.closing (index + 1)) with
          store := state.store.purge bound.binding.identityId index }
  | destroyed {bindingId index : ℕ} {bound : BoundState}
      (found : state.bound[bindingId]? = some bound) (closing : bound.phase = .closing index)
      (visited : bound.binding.isPrivate = true → state.store.shardCount ≤ index) :
      Stepped state (.destroyed bindingId)
        { state.setPhase bindingId bound .closed with
          store := { state.store with liveBindings := state.store.liveBindings - 1 } }

theorem step_stepped {state next : StoreState} (stepped : state.step event = some next) :
    Stepped state event next := by
  cases event with
  | bind identifier validator blockSize =>
    cases stepped
    exact .bind
  | acquire bindingId block =>
    rcases Option.map_eq_some_iff.mp stepped with ⟨key, live, rfl⟩
    exact .acquire live
  | await bindingId block =>
    rcases Option.bind_eq_some_iff.mp stepped with ⟨key, live, awaits⟩
    rcases Option.map_eq_some_iff.mp awaits with ⟨outcome, awaited, rfl⟩
    exact .await live awaited
  | publish bindingId block bytes =>
    rcases Option.bind_eq_some_iff.mp stepped with ⟨key, live, publishes⟩
    split at publishes
    · rename_i allocates
      cases publishes
      exact .publish live allocates
    · cases publishes
  | abandon bindingId block =>
    rcases Option.map_eq_some_iff.mp stepped with ⟨key, live, rfl⟩
    exact .abandon live
  | destroy bindingId =>
    rcases Option.bind_eq_some_iff.mp stepped with ⟨bound, found, closes⟩
    split at closes
    · rename_i live
      cases closes
      exact .destroy found live
    · cases closes
  | purge bindingId =>
    rcases Option.bind_eq_some_iff.mp stepped with ⟨bound, found, purges⟩
    split at purges
    · rename_i index closing
      split at purges
      · rename_i more
        cases purges
        exact .purge found closing more.1 more.2
      · cases purges
    · cases purges
  | destroyed bindingId =>
    rcases Option.bind_eq_some_iff.mp stepped with ⟨bound, found, ends⟩
    split at ends
    · rename_i index closing
      split at ends
      · cases ends
      · rename_i done
        cases ends
        refine .destroyed found closing ?_
        intro isPrivate
        exact Nat.le_of_not_lt fun more => done ⟨isPrivate, more⟩
    · cases ends

/-! ### What holds in every reachable state -/

/-- The stripes that the destructor of a binding has left behind it. -/
def Visited (phase : BindingPhase) (index : ℕ) : Prop :=
  match phase with
  | .live => False
  | .closing next => index < next
  | .closed => True

structure Sound (requested : CacheOptions) (state : StoreState) : Prop where
  options : state.store.options = requested.normalized
  shardCount : state.store.shardCount = (BlockCache.create requested).shardCount
  shardBudget : state.store.shardBudget = (BlockCache.create requested).shardBudget
  represents : state.store.Represents state.uses
  interned : state.store.Interned (state.bound.map BoundState.binding)
  gone : ∀ {bindingId : ℕ} {bound : BoundState}, state.bound[bindingId]? = some bound →
    bound.binding.isPrivate = true → ∀ key : ShardKey,
    key.identityId = bound.binding.identityId → Visited bound.phase (state.store.shardIndex key) →
    state.store.lookup key = none

theorem sound_create (requested : CacheOptions) : (create requested).Sound requested where
  options := rfl
  shardCount := rfl
  shardBudget := rfl
  represents := represents_create requested
  interned := interned_create requested
  gone := nofun

theorem chooseShardCount_pos (budgetBytes blockSize : ℕ) :
    0 < chooseShardCount budgetBytes blockSize :=
  le_doubleWithin _ _ _

variable {requested : CacheOptions} {state next : StoreState}

theorem Sound.shardCount_pos (sound : state.Sound requested) : 0 < state.store.shardCount := by
  rw [sound.shardCount]
  exact chooseShardCount_pos _ _

theorem keyOf_eq_some (live : state.keyOf bindingId block = some key) :
    ∃ bound : BoundState, state.bound[bindingId]? = some bound ∧ bound.phase = .live ∧
      key = ⟨bound.binding.identityId, block⟩ := by
  rcases Option.bind_eq_some_iff.mp live with ⟨bound, found, keyed⟩
  split at keyed
  · rename_i isLive
    exact ⟨bound, found, isLive, (Option.some.inj keyed).symm⟩
  · cases keyed

theorem binding_at (found : state.bound[bindingId]? = some bound) :
    (state.bound.map BoundState.binding)[bindingId]? = some bound.binding := by
  rw [List.getElem?_map, found]
  rfl

section

variable (sound : state.Sound requested)

include sound

theorem Sound.of_key
    (live : state.keyOf bindingId block = some key) {after : BlockCache} {uses : List ShardKey}
    (shape : SameShape state.store after) (represents : after.Represents uses)
    (table : SameTable state.store after)
    (onlyAt : OnlyAt key state.store after) :
    Sound requested { state with store := after, uses := uses } := by
  rcases keyOf_eq_some live with ⟨user, userAt, userLive, rfl⟩
  refine ⟨shape.options.trans sound.options, shape.shardCount.trans sound.shardCount,
    shape.shardBudget.trans sound.shardBudget, represents, sound.interned.congr table, ?_⟩
  intro otherId bound found isPrivate key sameId visited
  have sameIndex : after.shardIndex key = state.store.shardIndex key := by
    rw [shardIndex, shardIndex, shape.shardCount]
  change Visited bound.phase (after.shardIndex key) at visited
  rw [sameIndex] at visited
  refine onlyAt key ?_ (sound.gone found isPrivate key sameId visited)
  -- A live binding does not use the id of a private one that is being destroyed.
  rintro rfl
  have same := sound.interned.alone (binding_at found) (binding_at userAt) isPrivate sameId
  subst same
  rw [found] at userAt
  cases userAt
  rw [userLive] at visited
  exact visited

theorem Sound.acquire {bindingId block : ℕ} {key : ShardKey}
    (live : state.keyOf bindingId block = some key) : (state.acquire key).Sound requested :=
  sound.of_key live (sameShape_acquire _ _)
    (sound.represents.acquire sound.shardCount_pos key) (sameTable_acquire _ _)
    (onlyAt_acquire _ _)

theorem Sound.publish {bindingId block : ℕ} {key : ShardKey}
    (live : state.keyOf bindingId block = some key) {bytes : Bytes}
    (allocates : state.store.Allocates bytes) : (state.publish key bytes).Sound requested := by
  refine sound.of_key live (sameShape_publish _ _ _) ?_
    (sameTable_publish _ _ _) (onlyAt_publish _ _ _)
  split
  · rename_i pending
    exact sound.represents.publish sound.shardCount_pos pending allocates
  · rename_i settled
    rw [publish_of_not_pending bytes settled]
    exact sound.represents

theorem Sound.setPhase (found : state.bound[bindingId]? = some bound) {phase : BindingPhase}
    (visited : bound.binding.isPrivate = true → ∀ key : ShardKey,
      key.identityId = bound.binding.identityId →
      Visited phase (state.store.shardIndex key) → state.store.lookup key = none) :
    (state.setPhase bindingId bound phase).Sound requested := by
  have bindings : (state.setPhase bindingId bound phase).bound.map BoundState.binding =
      state.bound.map BoundState.binding := by
    have inside := (List.getElem?_eq_some_iff.mp found).1
    apply List.ext_getElem?
    intro index
    simp only [StoreState.setPhase, List.getElem?_map, List.getElem?_set]
    split
    · rename_i same
      subst same
      rw [found]
      rfl
    · rfl
  refine ⟨sound.options, sound.shardCount, sound.shardBudget, sound.represents, ?_, ?_⟩
  · rw [bindings]
    exact sound.interned
  · intro otherId other otherAt isPrivate key sameId seen
    rcases Machine.getElem?_set_cases otherAt with ⟨_, rfl⟩ | ⟨_, old⟩
    · exact visited isPrivate key sameId seen
    · exact sound.gone old isPrivate key sameId seen

/-- The bindings and the entries of a store are all that the destructors speak of. -/
theorem Sound.of_entries {after : BlockCache}
    (shape : SameShape state.store after) (represents : after.Represents state.uses)
    (table : SameTable state.store after)
    (lookup : ∀ key, state.store.lookup key = none → after.lookup key = none) :
    Sound requested { state with store := after } := by
  refine ⟨shape.options.trans sound.options, shape.shardCount.trans sound.shardCount,
    shape.shardBudget.trans sound.shardBudget, represents, sound.interned.congr table, ?_⟩
  intro bindingId bound found isPrivate key sameId visited
  have sameIndex : after.shardIndex key = state.store.shardIndex key := by
    rw [shardIndex, shardIndex, shape.shardCount]
  change Visited bound.phase (after.shardIndex key) at visited
  rw [sameIndex] at visited
  exact lookup key (sound.gone found isPrivate key sameId visited)

theorem Sound.bind (identifier : Bytes) (validator : Validator) (blockSize : ℕ) :
    Sound requested
      { state with
        store := (state.store.bind identifier validator blockSize).2
        bound := state.bound ++
          [⟨(state.store.bind identifier validator blockSize).1, .live⟩] } := by
  have shape := state.store.sameShape_bind identifier validator blockSize
  refine ⟨shape.options.trans sound.options, shape.shardCount.trans sound.shardCount,
    shape.shardBudget.trans sound.shardBudget,
    sound.represents.bind identifier validator blockSize, ?_, ?_⟩
  · rw [List.map_append]
    exact sound.interned.bind identifier validator blockSize
  · intro bindingId bound found isPrivate key sameId visited
    change (state.store.bind identifier validator blockSize).2.lookup key = none
    rw [lookup_bind]
    rcases Machine.getElem?_append_singleton found with old | ⟨_, rfl⟩
    · apply sound.gone old isPrivate key sameId
      rw [shardIndex, ← shape.shardCount]
      exact visited
    · exact visited.elim

theorem Sound.purge {bindingId index : ℕ} {bound : BoundState}
    (found : state.bound[bindingId]? = some bound) (closing : bound.phase = .closing index)
    (isPrivate : bound.binding.isPrivate = true) (inRange : index < state.store.shardCount) :
    Sound requested
      { state.setPhase bindingId bound (.closing (index + 1)) with
        store := state.store.purge bound.binding.identityId index } := by
  have purged : Sound requested
      { state with store := state.store.purge bound.binding.identityId index } := by
    refine sound.of_entries ⟨rfl, rfl, rfl⟩ (sound.represents.purge inRange _) ⟨rfl, rfl⟩ ?_
    intro key absent
    rw [lookup_purge, absent, ite_self]
  refine purged.setPhase found ?_
  intro _ key sameId visited
  change (state.store.purge bound.binding.identityId index).lookup key = none
  rw [lookup_purge]
  split
  · rfl
  · rename_i elsewhere
    apply sound.gone found isPrivate key sameId
    rw [closing]
    have other : state.store.shardIndex key ≠ index := fun same => elsewhere ⟨same, sameId⟩
    have reached : state.store.shardIndex key < index + 1 := visited
    exact Nat.lt_of_le_of_ne (Nat.le_of_lt_succ reached) other

theorem Sound.destroyed {index : ℕ}
    (found : state.bound[bindingId]? = some bound) (closing : bound.phase = .closing index)
    (visited : bound.binding.isPrivate = true → state.store.shardCount ≤ index) :
    Sound requested
      { state.setPhase bindingId bound .closed with
        store := { state.store with liveBindings := state.store.liveBindings - 1 } } := by
  have closed : (state.setPhase bindingId bound .closed).Sound requested := by
    refine sound.setPhase found ?_
    intro isPrivate key sameId _
    apply sound.gone found isPrivate key sameId
    rw [closing]
    exact Nat.lt_of_lt_of_le (stripe_lt key sound.shardCount_pos) (visited isPrivate)
  have represents := closed.represents
  exact closed.of_entries ⟨rfl, rfl, rfl⟩ ⟨represents.inStripe, represents.counts,
    represents.total, represents.fits, represents.recent⟩ ⟨rfl, rfl⟩ fun _ absent => absent

theorem Sound.step {event : StoreEvent}
    (stepped : state.step event = some next) : next.Sound requested := by
  cases step_stepped stepped with
  | bind => exact sound.bind _ _ _
  | acquire live => exact sound.acquire live
  | await live awaited =>
    exact sound.of_key live (sameShape_await awaited)
      (sound.represents.await sound.shardCount_pos awaited) (sameTable_await awaited)
      (onlyAt_await awaited)
  | publish live allocates => exact sound.publish live allocates
  | abandon live =>
    exact sound.of_key live (sameShape_withShard _ _ _)
      (sound.represents.abandon sound.shardCount_pos _) (sameTable_withShard _ _ _)
      (onlyAt_abandon _ _)
  | destroy found _ =>
    refine sound.setPhase found ?_
    intro _ key _ visited
    exact absurd visited (Nat.not_lt_zero _)
  | purge found closing isPrivate inRange => exact sound.purge found closing isPrivate inRange
  | destroyed found closing visited => exact sound.destroyed found closing visited

end

/-! ### The budget -/

/-- A stripe's part of the budget holds a block, and the parts hold no more than the whole. -/
theorem budget_create (requested : CacheOptions) :
    requested.normalized.blockSize ≤ (BlockCache.create requested).shardBudget ∧
      (BlockCache.create requested).shardCount * (BlockCache.create requested).shardBudget ≤
        requested.normalized.budgetBytes := by
  have positive := requested.normalized_blockSize_pos
  have holdsBlock : requested.normalized.blockSize ≤ requested.normalized.budgetBytes :=
    Nat.le_max_right _ _
  simp only [BlockCache.create]
  generalize requested.normalized = options at *
  refine ⟨Nat.le_max_right _ _, ?_⟩
  simp only [chooseShardCount, if_pos positive]
  rcases doubleWithin_cases (options.budgetBytes / (options.blockSize * 8)) 6 1 with
    single | within
  · rw [single, Nat.div_one, Nat.max_eq_left holdsBlock, Nat.one_mul]
  · generalize doubleWithin (options.budgetBytes / (options.blockSize * 8)) 6 1 = count at within
    -- Eight blocks per stripe fit into the budget, so the floor of one block is not reached.
    have eight : count * (options.blockSize * 8) ≤ options.budgetBytes :=
      Nat.mul_le_of_le_div _ _ _ within
    have one : count * options.blockSize ≤ options.budgetBytes := by
      calc count * options.blockSize
        _ ≤ count * (options.blockSize * 8) :=
            Nat.mul_le_mul_left _ (Nat.le_mul_of_pos_right _ (by decide))
        _ ≤ options.budgetBytes := eight
    rw [← Nat.mul_max_mul_left]
    exact Nat.max_le.mpr ⟨Nat.mul_div_le _ _, one⟩

/-- What is published is at most a block of the given size. -/
def PublishesWithin (blockSize : ℕ) : StoreEvent → Prop
  | .publish _ _ bytes => bytes.length ≤ blockSize
  | _ => True

instance (blockSize : ℕ) : DecidablePred (PublishesWithin blockSize)
  | .publish _ _ bytes => inferInstanceAs (Decidable (bytes.length ≤ blockSize))
  | .bind _ _ _ | .acquire _ _ | .await _ _ | .abandon _ _ | .destroy _ | .purge _
  | .destroyed _ => inferInstanceAs (Decidable True)

theorem Sound.withinBudget_step (sound : state.Sound requested)
    (within : state.store.WithinBudget)
    (small : PublishesWithin requested.normalized.blockSize event)
    (stepped : state.step event = some next) : next.store.WithinBudget := by
  cases step_stepped stepped with
  | bind => exact within.bind _ _ _
  | acquire _ => exact within.acquire _
  | await _ awaited => exact within.await awaited
  | publish _ allocates =>
    apply within.publish sound.represents sound.shardCount_pos allocates
    rw [sound.shardBudget]
    exact Nat.le_trans small (budget_create requested).1
  | abandon _ => exact within.abandon _
  | destroy _ _ => exact within
  | purge _ _ _ _ => exact within.purge _ _
  | destroyed _ _ _ => exact within

theorem Sound.residentTotal_le (sound : state.Sound requested)
    (within : state.store.WithinBudget) :
    state.store.residentTotal ≤ requested.normalized.budgetBytes := by
  calc state.store.residentTotal
    _ = ∑ index ∈ Finset.range state.store.shardCount, (state.store.shards index).bytes :=
        sound.represents.total
    _ ≤ state.store.shardCount * state.store.shardBudget := by
        have bounded := Finset.sum_le_card_nsmul (Finset.range state.store.shardCount)
          (fun index => (state.store.shards index).bytes) _ fun index _ => within index
        rw [Finset.card_range] at bounded
        exact bounded
    _ ≤ requested.normalized.budgetBytes := by
        rw [sound.shardCount, sound.shardBudget]
        exact (budget_create requested).2

/-! ### Pending entries -/

/-- The events that end the wait for a key. -/
def Settles (state : StoreState) (key : ShardKey) : StoreEvent → Prop
  | .publish bindingId block _ | .abandon bindingId block =>
      state.keyOf bindingId block = some key
  | .purge bindingId => ∃ bound ∈ state.bound[bindingId]?,
      bound.binding.isPrivate = true ∧ bound.binding.identityId = key.identityId
  | _ => False

theorem pending_step (stepped : state.step event = some next)
    (pending : state.store.lookup key = some .pending) :
    next.store.lookup key = some .pending ∨ Settles state key event := by
  cases step_stepped stepped with
  | bind =>
    left
    change (state.store.bind _ _ _).2.lookup key = _
    rw [lookup_bind]
    exact pending
  | @acquire _ _ used _ =>
    left
    change (state.store.acquire used).2.lookup key = _
    rcases state.store.acquire_cases used with ⟨_, _, _, same⟩ | ⟨_, _, same⟩ | ⟨_, absent, updated⟩
    · rw [same]
      exact pending
    · rw [same]
      exact pending
    · have other : key ≠ used := by
        rintro rfl
        rw [absent] at pending
        cases pending
      rw [updated, Function.update_of_ne other]
      exact pending
  | @await _ _ used outcome _ awaited =>
    left
    change outcome.2.lookup key = _
    rcases await_some awaited with ⟨rfl, _⟩ | ⟨_, rfl, _⟩
    · exact pending
    · rw [lookup_touch]
      exact pending
  | @publish _ _ used bytes live _ =>
    by_cases same : key = used
    · right
      rw [same]
      exact live
    · left
      change (state.store.publish used bytes).2.lookup key = _
      by_cases awaited : state.store.lookup used = some .pending
      · -- Only blocks are dropped, and a pending entry has none.
        rcases lookup_publish bytes awaited key with kept | ⟨_, _, resident⟩
        · rw [kept, Function.update_of_ne same]
          exact pending
        · rw [Function.update_of_ne same, pending] at resident
          cases resident
      · rw [publish_of_not_pending bytes awaited]
        exact pending
  | @abandon _ _ used live =>
    by_cases same : key = used
    · right
      rw [same]
      exact live
    · left
      change (state.store.abandon used).lookup key = _
      rcases state.store.lookup_abandon_cases used with updated | unchanged
      · rw [updated, Function.update_of_ne same]
        exact pending
      · rw [unchanged]
        exact pending
  | destroy _ _ => exact Or.inl pending
  | @purge _ index bound found _ isPrivate _ =>
    by_cases purged :
        state.store.shardIndex key = index ∧ key.identityId = bound.binding.identityId
    · exact Or.inr ⟨bound, found, isPrivate, purged.2.symm⟩
    · left
      change (state.store.purge bound.binding.identityId index).lookup key = _
      rw [lookup_purge, if_neg purged]
      exact pending
  | destroyed _ _ _ => exact Or.inl pending

/-! ### Publication -/

theorem Sound.evicts (sound : state.Sound requested) {bytes : Bytes}
    (stepped : state.step (.publish bindingId block bytes) = some next)
    (live : state.keyOf bindingId block = some key)
    (pending : state.store.lookup key = some .pending) :
    ∃ victims, state.store.Evicts next.store key bytes victims ∧ key ∉ victims ∧
      Ordered next.uses ((next.store.shardFor key).lru ++ victims) := by
  cases step_stepped stepped with
  | @publish _ _ used _ usedLive allocates =>
    rw [live] at usedLive
    cases usedLive
    rcases evicts_publish sound.represents bytes pending with ⟨victims, evicts⟩
    have used : Ordered (key :: state.uses)
        (key :: (state.store.shardFor key).lru.erase key) :=
      (sound.represents.recent _).use key
    rw [List.erase_of_not_mem (not_mem_lru pending), ← evicts.dropped] at used
    have listed := (Shard.mem_lru _ key).mpr ⟨bytes, evicts.kept⟩
    have uses : (state.publish key bytes).uses = key :: state.uses := if_pos pending
    refine ⟨victims, evicts, ?_, uses ▸ used⟩
    intro again
    exact absurd rfl ((List.nodup_append.mp used.nodup).2.2 key listed key again)

/-! ### The store in every reachable state -/

theorem sound_of_run {events : List StoreEvent}
    (reached : Machine.run step (create requested) events = some state) :
    state.Sound requested := by
  refine Machine.invariant_of_run ?_ (sound_create requested) reached
  intro before event after sound stepped
  exact sound.step stepped

structure Bounded (requested : CacheOptions) (state : StoreState) : Prop
    extends Sound requested state where
  within : state.store.WithinBudget

theorem bounded_of_run {events : List StoreEvent}
    (small : ∀ event ∈ events, PublishesWithin requested.normalized.blockSize event)
    (reached : Machine.run step (create requested) events = some state) :
    state.Bounded requested := by
  have initially : (create requested).Bounded requested :=
    ⟨sound_create requested, fun _ => Nat.zero_le _⟩
  refine Machine.invariant_of_allowedRun ?_ initially (Machine.allowedRun_of_forall small) reached
  intro before event after bounded small stepped
  have sound := bounded.toSound
  exact ⟨sound.step stepped, sound.withinBudget_step bounded.within small stepped⟩

/-- In every state that a sequence of operations leads to, the stripes list exactly what is
resident, the counts are the bytes of what is listed, every entry is in the stripe of its hash,
and a private binding that was destroyed left nothing.  What comes next takes a pending entry
away only where its owner or the end of its binding does, and a publication drops other blocks
only, from those whose last use is the longest ago. -/
theorem store_invariant (requested : CacheOptions) {events : List StoreEvent}
    {state : StoreState} (reached : Machine.run step (create requested) events = some state) :
    state.store.options = requested.normalized ∧
    (∀ index, (state.store.shards index).lru.Nodup ∧
      (∀ key, key ∈ (state.store.shards index).lru ↔
        ∃ block, (state.store.shards index).entries key = some (.resident block)) ∧
      (state.store.shards index).residentBytes =
        ((state.store.shards index).lru.map fun key =>
          Entry.bytes ((state.store.shards index).entries key)).sum ∧
      (∀ key, (state.store.shards index).entries key ≠ none →
        index = state.store.shardIndex key ∧ index < state.store.shardCount)) ∧
    state.store.residentTotal = ∑ index ∈ Finset.range state.store.shardCount,
      (state.store.shards index).residentBytes ∧
    state.store.residentTotal < 2 ^ 64 ∧
    (∀ (bindingId : ℕ) (bound : BoundState), state.bound[bindingId]? = some bound →
      bound.binding.isPrivate = true → bound.phase = .closed →
      ∀ key : ShardKey, key.identityId = bound.binding.identityId →
        state.store.lookup key = none) ∧
    (∀ (event : StoreEvent) (next : StoreState), state.step event = some next →
      ∀ key, state.store.lookup key = some .pending →
        next.store.lookup key = some .pending ∨ Settles state key event) ∧
    (∀ (bindingId block : ℕ) (bytes : Bytes) (next : StoreState) (key : ShardKey),
      state.step (.publish bindingId block bytes) = some next →
      state.keyOf bindingId block = some key → state.store.lookup key = some .pending →
      ∃ victims, state.store.Evicts next.store key bytes victims ∧ key ∉ victims ∧
        Ordered next.uses ((next.store.shardFor key).lru ++ victims)) ∧
    ((∀ event ∈ events, PublishesWithin state.store.options.blockSize event) →
      state.store.residentTotal ≤ state.store.options.budgetBytes) := by
  have sound := sound_of_run reached
  have represents := sound.represents
  refine ⟨sound.options, ?_, ?_, represents.total ▸ represents.fits, ?_, ?_, ?_, ?_⟩
  · intro index
    refine ⟨(state.store.shards index).lru_nodup, (state.store.shards index).mem_lru,
      represents.counts index, ?_⟩
    intro key present
    have inStripe := represents.inStripe present
    exact ⟨inStripe, inStripe ▸ BlockCache.stripe_lt key sound.shardCount_pos⟩
  · rw [represents.total]
    exact Finset.sum_congr rfl fun index _ => (represents.counts index).symm
  · intro bindingId bound found isPrivate closed key sameId
    apply sound.gone found isPrivate key sameId
    rw [closed]
    trivial
  · intro event next stepped key pending
    exact pending_step stepped pending
  · intro bindingId block bytes next key stepped live pending
    exact sound.evicts stepped live pending
  · intro small
    rw [sound.options] at small ⊢
    exact sound.residentTotal_le (bounded_of_run small reached).within

/-- Two blocks that do not fit together. -/
def crowded : List StoreEvent :=
  [.bind [] ⟨[], .none, .none⟩ 4096, .acquire 0 0, .publish 0 0 (List.replicate 3000 1),
    .acquire 0 1, .acquire 0 2, .publish 0 1 (List.replicate 2000 2)]

theorem store_invariant_crowded :
    ∃ state, Machine.run step (create ⟨4096, 4096, 1, 0, 0⟩) crowded = some state ∧
      state.store.residentTotal = 2000 ∧
      state.store.residentTotal ≤ state.store.options.budgetBytes := by
  have reaches : ∃ state ∈ Machine.run step (create ⟨4096, 4096, 1, 0, 0⟩) crowded,
      state.store.residentTotal = 2000 ∧
      ∀ event ∈ crowded, PublishesWithin state.store.options.blockSize event := by
    decide +kernel
  rcases reaches with ⟨state, reached, total, small⟩
  have invariant := store_invariant ⟨4096, 4096, 1, 0, 0⟩ reached
  exact ⟨state, reached, total, invariant.2.2.2.2.2.2.2 small⟩

end StoreState

end UsdAsset.Cache
