import UsdAsset.Lib.Ownership
import UsdAsset.Cache.System

/-!
# Single flight without deadlock

Whatever the interleaving, the pending entries of the store are exactly the
blocks the calls own, and each has one owner.  A call that waits owns nothing,
so the owner of a pending block can always go on.
-/

namespace UsdAsset.Cache

open Ownership (Exclusive Move)

variable {callId readerId : ℕ} {state : CallState} {outcome : Call × BlockCache} {key : ShardKey}

theorem Forgets.pending_iff {before after : ShardKey → Option Entry}
    (forgets : Forgets before after) (key : ShardKey) :
    after key = some .pending ↔ before key = some .pending := by
  rcases forgets key with same | ⟨gone, block, resident⟩
  · rw [same]
  · rw [gone, resident]
    simp

namespace Call

variable {call next : Call}

theorem key_inj {left right : ℕ} : call.key left = call.key right ↔ left = right := by
  simp [key, CachedAssetReader.key]

def HoldsKey (call : Call) (key : ShardKey) : Prop :=
  ∃ block ∈ call.outstanding, key = call.key block

theorem holdsKey_of_outstanding (sameReader : next.reader = call.reader) {blocks : List ℕ}
    (owned : next.outstanding = blocks) (key : ShardKey) :
    next.HoldsKey key ↔ ∃ block ∈ blocks, key = call.key block := by
  simp only [HoldsKey, owned, Call.key, sameReader]

end Call

namespace System

variable {system next : System}

def Pending (system : System) (key : ShardKey) : Prop := system.store.lookup key = some .pending

def Holds (system : System) (callId : ℕ) (key : ShardKey) : Prop :=
  ∃ state, system.calls[callId]? = some state ∧ state.call.HoldsKey key

def Waits (system : System) (callId : ℕ) (key : ShardKey) : Prop :=
  ∃ state, system.calls[callId]? = some state ∧ state.call.Blocked system.store key

def bindings (system : System) : List Binding :=
  system.readers.map fun state => state.reader.binding

/-- What holds between the store, the readers and the calls in every reachable state. -/
structure Coherent (system : System) : Prop where
  interned : system.store.Interned system.bindings
  callReader : ∀ {callId : ℕ} {state : CallState}, system.calls[callId]? = some state →
    ∃ owner : ReaderState, system.readers[state.readerId]? = some owner ∧ owner.reader = state.call.reader
  valid : ∀ {callId : ℕ} {state : CallState}, system.calls[callId]? = some state → state.call.Valid
  exclusive : Exclusive system.Pending system.Holds
  resident : ∀ {key bytes}, system.store.lookup key = some (.resident bytes) →
    ∃ publication ∈ system.published, ∃ owner : ReaderState,
      system.readers[publication.readerId]? = some owner ∧
        key = owner.reader.key publication.block ∧ bytes = publication.bytes

theorem coherent_create (options : CacheOptions) : (create options).Coherent := by
  have absent : ∀ key, (create options).store.lookup key = none :=
    BlockCache.lookup_create options
  have nobody : ∀ {callId : ℕ} {state : CallState},
      (create options).calls[callId]? ≠ some state := by
    intro callId state found
    cases found
  refine ⟨BlockCache.interned_create options, ?_, ?_, ⟨?_, ?_, ?_⟩, ?_⟩
  · intro callId state found
    exact absurd found nobody
  · intro callId state found
    exact absurd found nobody
  · rintro callId key ⟨state, found, _⟩
    exact absurd found nobody
  · intro key pending
    rw [Pending, absent] at pending
    cases pending
  · rintro callId other key ⟨state, found, _⟩ _
    exact absurd found nobody
  · intro key bytes resident
    rw [absent] at resident
    cases resident

theorem Coherent.ownsPending (coherent : system.Coherent)
    (found : system.calls[callId]? = some state) : state.call.OwnsPending system.store := by
  intro block blockMem
  have held : system.Holds callId (state.call.key block) := ⟨state, found, block, blockMem, rfl⟩
  exact coherent.exclusive.pending_of_holds held

/-! ### One call steps -/

theorem holds_iff {callId : ℕ} {state : CallState} (found : system.calls[callId]? = some state)
    (key : ShardKey) : system.Holds callId key ↔ state.call.HoldsKey key := by
  constructor
  · rintro ⟨other, otherAt, held⟩
    rw [found] at otherAt
    cases otherAt
    exact held
  · intro held
    exact ⟨state, found, held⟩

theorem getElem?_stepped (found : system.calls[callId]? = some state) :
    (system.stepped callId state outcome).calls[callId]? =
      some { state with call := outcome.1 } := by
  have inside := (List.getElem?_eq_some_iff.mp found).1
  simp only [stepped]
  rw [List.getElem?_set_self inside]

theorem holds_stepped_of_ne {holder : ℕ} (other : holder ≠ callId) (key : ShardKey) :
    (system.stepped callId state outcome).Holds holder key ↔ system.Holds holder key := by
  simp only [Holds, stepped, List.getElem?_set_ne (Ne.symm other)]

theorem holds_stepped (found : system.calls[callId]? = some state) (holder : ℕ) (key : ShardKey) :
    (system.stepped callId state outcome).Holds holder key ↔
      if holder = callId then outcome.1.HoldsKey key else system.Holds holder key := by
  split
  · rename_i same
    rw [same]
    exact holds_iff (getElem?_stepped found) key
  · rename_i other
    exact holds_stepped_of_ne other key

theorem move_of_settled (found : system.calls[callId]? = some state) (valid : state.call.Valid)
    (sameReader : outcome.1.reader = state.call.reader) {block : ℕ}
    (owns : block ∈ state.call.outstanding)
    (owned : outcome.1.outstanding = state.call.outstanding.erase block)
    (pendingIff : ∀ key, outcome.2.lookup key = some .pending ↔
      key ≠ state.call.key block ∧ system.store.lookup key = some .pending) :
    Move system.Pending (system.stepped callId state outcome).Pending
      system.Holds (system.stepped callId state outcome).Holds := by
  apply Move.settle callId (state.call.key block) ((holds_iff found _).mpr ⟨block, owns, rfl⟩)
    pendingIff
  intro holder key
  rw [holds_stepped found]
  split
  · rename_i same
    subst same
    rw [holds_iff found, Call.holdsKey_of_outstanding sameReader owned]
    constructor
    · rintro ⟨other, otherMem, rfl⟩
      rw [valid.nodup.mem_erase_iff] at otherMem
      exact ⟨fun same => otherMem.1 (Call.key_inj.mp same.2), other, otherMem.2, rfl⟩
    · rintro ⟨otherKey, other, otherMem, rfl⟩
      refine ⟨other, valid.nodup.mem_erase_iff.mpr ⟨?_, otherMem⟩, rfl⟩
      rintro rfl
      exact otherKey ⟨rfl, rfl⟩
  · rename_i otherCall
    exact ⟨fun held => ⟨fun same => otherCall same.1, held⟩, And.right⟩

theorem move_of_effect (found : system.calls[callId]? = some state) (valid : state.call.Valid)
    (stepped : Call.Stepped state.call system.store outcome) :
    Move system.Pending (system.stepped callId state outcome).Pending
      system.Holds (system.stepped callId state outcome).Holds := by
  cases stepped.effect with
  | kept entries owned =>
    apply Move.idle
    · intro key
      change outcome.2.lookup key = _ ↔ _
      rw [entries, Pending]
    · intro holder key
      rw [holds_stepped found]
      split
      · rename_i same
        rw [same, holds_iff found, Call.holdsKey_of_outstanding stepped.reader owned]
        rfl
      · rfl
  | acquired block free entries owned =>
    apply Move.claim callId (state.call.key block)
    · intro pending
      rw [Pending, free] at pending
      cases pending
    · intro key
      change outcome.2.lookup key = _ ↔ _
      rw [entries, Function.update_apply]
      split
      · rename_i same
        simp [same]
      · rename_i other
        simp [other, Pending]
    · intro holder key
      rw [holds_stepped found]
      split
      · rename_i same
        rw [same, holds_iff found, Call.holdsKey_of_outstanding stepped.reader owned]
        simp [Call.HoldsKey, or_comm]
      · rename_i other
        simp [other]
  | published block bytes owns publishes entries owned =>
    apply move_of_settled found valid stepped.reader owns owned
    intro key
    rw [entries.pending_iff, Function.update_apply]
    split <;> simp_all
  | abandoned block owns entries owned =>
    apply move_of_settled found valid stepped.reader owns owned
    intro key
    rw [entries, Function.update_apply]
    split <;> simp_all

theorem resident_of_effect {call next : Call} {before after : ShardKey → Option Entry}
    (effect : Call.Effect call next before after) {bytes : Bytes}
    (resident : after key = some (.resident bytes)) :
    before key = some (.resident bytes) ∨
      ∃ block, call.publication = some (block, bytes) ∧ key = call.key block := by
  cases effect with
  | kept entries owned =>
    rw [entries] at resident
    exact Or.inl resident
  | acquired block free entries owned =>
    rw [entries, Function.update_apply] at resident
    split at resident
    · cases resident
    · exact Or.inl resident
  | published block published owns publishes entries owned =>
    rcases entries key with same | ⟨gone, _⟩
    · rw [same, Function.update_apply] at resident
      split at resident
      · rename_i sameKey
        cases resident
        exact Or.inr ⟨block, publishes, sameKey⟩
      · exact Or.inl resident
    · rw [gone] at resident
      cases resident
  | abandoned block owns entries owned =>
    rw [entries, Function.update_apply] at resident
    split at resident
    · cases resident
    · exact Or.inl resident

theorem Coherent.stepped (coherent : system.Coherent) {answer : Answer}
    (found : system.calls[callId]? = some state)
    (took : state.call.step system.store answer = some outcome) :
    (system.stepped callId state outcome).Coherent := by
  have valid := coherent.valid found
  have stepped := valid.step_stepped (coherent.ownsPending found) took
  refine ⟨coherent.interned.congr stepped.table, ?_, ?_,
    coherent.exclusive.move (move_of_effect found valid stepped), ?_⟩
  · intro otherId other otherAt
    rcases Machine.getElem?_set_cases otherAt with ⟨_, rfl⟩ | ⟨_, oldAt⟩
    · rcases coherent.callReader found with ⟨owner, ownerAt, sameReader⟩
      exact ⟨owner, ownerAt, sameReader.trans stepped.reader.symm⟩
    · exact coherent.callReader oldAt
  · intro otherId other otherAt
    rcases Machine.getElem?_set_cases otherAt with ⟨_, rfl⟩ | ⟨_, oldAt⟩
    · exact stepped.valid
    · exact coherent.valid oldAt
  · intro key bytes resident
    rcases resident_of_effect stepped.effect resident with old | ⟨block, publishes, rfl⟩
    · rcases coherent.resident old with ⟨publication, publicationMem, owner⟩
      exact ⟨publication, List.mem_append_left _ publicationMem, owner⟩
    · rcases coherent.callReader found with ⟨owner, ownerAt, sameReader⟩
      refine ⟨⟨state.readerId, block, bytes⟩, ?_, owner, ownerAt, ?_, rfl⟩
      · apply List.mem_append_right
        simp [publishes]
      · rw [sameReader]
        rfl

/-! ### The other events -/

theorem Coherent.wrap (coherent : system.Coherent) (metadata : AssetMetadata)
    (options : CacheOptions) (persistentEnabled : Bool) :
    (system.wrap metadata options persistentEnabled).Coherent := by
  have entries : (system.wrap metadata options persistentEnabled).store.lookup =
      system.store.lookup :=
    system.store.lookup_bind _ _ _
  refine ⟨?_, ?_, coherent.valid, ?_, ?_⟩
  · have bound := coherent.interned.bind metadata.resolvedIdentifier metadata.validator
      options.normalized.blockSize
    simp only [bindings, System.wrap, CachedAssetReader.wrap, List.map_append, List.map_cons,
      List.map_nil] at bound ⊢
    exact bound
  · intro callId state found
    rcases coherent.callReader found with ⟨owner, ownerAt, sameReader⟩
    exact ⟨owner, Machine.getElem?_append_of_some _ ownerAt, sameReader⟩
  · have samePending : (system.wrap metadata options persistentEnabled).Pending =
        system.Pending := by
      funext key
      rw [Pending, Pending, entries]
    rw [samePending]
    exact coherent.exclusive
  · intro key bytes resident
    rw [entries] at resident
    rcases coherent.resident resident with ⟨publication, publicationMem, owner, ownerAt, same⟩
    exact ⟨publication, publicationMem, owner, Machine.getElem?_append_of_some _ ownerAt, same⟩

variable {state : ReaderState}

theorem Coherent.read (coherent : system.Coherent)
    (found : system.readers[readerId]? = some state) (request : ReadRequest) :
    (system.read readerId state request).Coherent := by
  refine ⟨coherent.interned, ?_, ?_, ?_, coherent.resident⟩
  · intro callId called calledAt
    rcases Machine.getElem?_append_singleton calledAt with old | ⟨_, rfl⟩
    · exact coherent.callReader old
    · exact ⟨state, found, rfl⟩
  · intro callId called calledAt
    rcases Machine.getElem?_append_singleton calledAt with old | ⟨_, rfl⟩
    · exact coherent.valid old
    · exact Call.start_valid state.reader request
  · apply coherent.exclusive.move
    apply Move.idle (fun _ => Iff.rfl)
    intro holder key
    constructor
    · rintro ⟨called, calledAt, held⟩
      rcases Machine.getElem?_append_singleton calledAt with old | ⟨_, rfl⟩
      · exact ⟨called, old, held⟩
      · rcases held with ⟨block, blockMem, _⟩
        cases blockMem
    · rintro ⟨called, old, held⟩
      exact ⟨called, Machine.getElem?_append_of_some _ old, held⟩

theorem Coherent.not_pending_of_unused (coherent : system.Coherent)
    (found : system.readers[readerId]? = some state) (unused : system.inUse readerId = false)
    (isPrivate : state.reader.binding.isPrivate = true)
    (sameId : key.identityId = state.reader.binding.identityId) : ¬system.Pending key := by
  intro pending
  rcases coherent.exclusive.holder pending with ⟨callId, called, calledAt, block, blockMem, rfl⟩
  rcases coherent.callReader calledAt with ⟨owner, ownerAt, sameReader⟩
  have ownerBinding : system.bindings[called.readerId]? = some called.call.reader.binding := by
    rw [bindings, List.getElem?_map, ownerAt, ← sameReader]
    rfl
  have closedBinding : system.bindings[readerId]? = some state.reader.binding := by
    rw [bindings, List.getElem?_map, found]
    rfl
  have same : readerId = called.readerId :=
    coherent.interned.alone closedBinding ownerBinding isPrivate sameId
  have running : called.call.pc.isReturned = false := by
    cases place : called.call.pc with
    | returned result =>
      rw [(coherent.valid calledAt).outstanding_of_returned ⟨result, place⟩] at blockMem
      cases blockMem
    | _ => rfl
  have used : system.inUse readerId = true := by
    rw [inUse, List.any_eq_true]
    exact ⟨called, List.mem_of_getElem? calledAt, by simp [same, running]⟩
  rw [unused] at used
  cases used

theorem bindings_close (found : system.readers[readerId]? = some state) :
    (system.close readerId state).bindings = system.bindings := by
  apply List.ext_getElem?
  intro index
  simp only [bindings, System.close, List.getElem?_map, List.getElem?_set]
  split
  · rename_i same
    subst same
    have inside := (List.getElem?_eq_some_iff.mp found).1
    rw [found, if_pos inside]
    rfl
  · rfl

theorem readers_close {otherId : ℕ} {other : ReaderState}
    (found : system.readers[readerId]? = some state)
    (otherAt : system.readers[otherId]? = some other) :
    ∃ still : ReaderState, (system.close readerId state).readers[otherId]? = some still ∧
      still.reader = other.reader := by
  simp only [System.close, List.getElem?_set]
  split
  · rename_i same
    subst same
    have inside := (List.getElem?_eq_some_iff.mp found).1
    rw [found] at otherAt
    cases otherAt
    exact ⟨_, if_pos inside, rfl⟩
  · exact ⟨other, otherAt, rfl⟩

theorem Coherent.close (coherent : system.Coherent)
    (found : system.readers[readerId]? = some state) (unused : system.inUse readerId = false) :
    (system.close readerId state).Coherent := by
  refine ⟨?_, ?_, coherent.valid, ?_, ?_⟩
  · rw [bindings_close found]
    exact coherent.interned.congr (BlockCache.sameTable_close _ _)
  · intro callId called calledAt
    rcases coherent.callReader calledAt with ⟨owner, ownerAt, sameReader⟩
    rcases readers_close found ownerAt with ⟨still, stillAt, same⟩
    exact ⟨still, stillAt, same.trans sameReader⟩
  · apply coherent.exclusive.move
    refine Move.idle ?_ (fun _ _ => Iff.rfl)
    intro key
    change (system.store.close state.reader.binding).lookup key = _ ↔ _
    rw [BlockCache.lookup_close]
    split
    · rename_i own
      have := coherent.not_pending_of_unused found unused own.1 own.2
      simp [this]
    · rfl
  · intro key bytes resident
    change (system.store.close state.reader.binding).lookup key = _ at resident
    rw [BlockCache.lookup_close] at resident
    split at resident
    · cases resident
    · rcases coherent.resident resident with
        ⟨publication, publicationMem, owner, ownerAt, keyEq, bytesEq⟩
      rcases readers_close found ownerAt with ⟨still, stillAt, same⟩
      exact ⟨publication, publicationMem, still, stillAt, same ▸ keyEq, bytesEq⟩

theorem Coherent.step (coherent : system.Coherent) {event : Event}
    (took : system.step event = some next) : next.Coherent := by
  rcases step_cases took with ⟨metadata, options, persistentEnabled, _, rfl⟩ |
    ⟨readerId, state, _, found, unused, rfl⟩ | ⟨readerId, state, request, _, found, _, rfl⟩ |
    ⟨callId, state, answer, outcome, _, found, callTook, rfl⟩
  · exact coherent.wrap metadata options persistentEnabled
  · exact coherent.close found unused
  · exact coherent.read found request
  · exact coherent.stepped found callTook

/-! ### Reachable states -/

theorem coherent_of_run {options : CacheOptions} {events : List Event} {final : System}
    (reached : Machine.run System.step (create options) events = some final) : final.Coherent :=
  Machine.invariant_of_run (fun coherent took => coherent.step took) (coherent_create options)
    reached

theorem Coherent.holder_steps (coherent : system.Coherent) (held : system.Holds callId key) :
    ∃ answer, (system.step (.step callId answer)).isSome := by
  rcases held with ⟨state, found, block, blockMem, _⟩
  have owning : state.call.outstanding ≠ [] := List.ne_nil_of_mem blockMem
  have valid := coherent.valid found
  have steps : ∃ answer, (state.call.step system.store answer).isSome := by
    apply Call.exists_step
    · intro returned
      exact owning (valid.outstanding_of_returned returned)
    · intro _ blocked
      exact owning (valid.outstanding_of_blocked blocked)
  rcases steps with ⟨answer, steps⟩
  exact ⟨answer, by simpa [System.step, found] using steps⟩

theorem Coherent.waits_idle (coherent : system.Coherent) {awaited held : ShardKey}
    (waits : system.Waits callId awaited) : ¬system.Holds callId held := by
  rcases waits with ⟨state, found, blocked⟩
  rw [holds_iff found]
  rintro ⟨block, blockMem, _⟩
  rw [(coherent.valid found).outstanding_of_blocked blocked] at blockMem
  cases blockMem

/-- In every reachable state the calls fly single, and none of them is stuck for good. -/
theorem singleFlight (options : CacheOptions) (events : List Event) (final : System)
    (reached : Machine.run System.step (create options) events = some final) :
    (∀ left right key, final.Holds left key → final.Holds right key → left = right) ∧
    (∀ (callId : ℕ) (state : CallState) (key : ShardKey), final.calls[callId]? = some state →
      state.call.Blocked final.store key → state.call.outstanding = [] ∧
        ∀ block ∈ state.call.ledger.acquired,
          block ∈ state.call.ledger.published ∨ block ∈ state.call.ledger.abandoned) ∧
    (∀ key, final.Pending key →
      ∃ callId, final.Holds callId key ∧ ∃ answer, (final.step (.step callId answer)).isSome) ∧
    (∀ callId, ¬Relation.TransGen (Ownership.WaitsFor final.Holds final.Waits) callId callId) ∧
    ((∀ (callId : ℕ) (state : CallState), final.calls[callId]? = some state →
        state.call.IsReturned) →
      ∀ key, ¬final.Pending key) := by
  have coherent := coherent_of_run reached
  refine ⟨?_, ?_, ?_, ?_, ?_⟩
  · intro left right key leftHolds rightHolds
    exact coherent.exclusive.unique leftHolds rightHolds
  · intro callId state key found blocked
    have valid := coherent.valid found
    have nothing := valid.outstanding_of_blocked blocked
    refine ⟨nothing, ?_⟩
    intro block acquired
    rcases valid.recorded block acquired with owned | settled
    · rw [nothing] at owned
      cases owned
    · exact settled
  · intro key pending
    rcases coherent.exclusive.holder pending with ⟨callId, held⟩
    exact ⟨callId, held, coherent.holder_steps held⟩
  · exact Ownership.not_transGen_waitsFor_self coherent.waits_idle
  · intro returned key pending
    rcases coherent.exclusive.holder pending with ⟨callId, state, found, block, blockMem, _⟩
    rw [(coherent.valid found).outstanding_of_returned (returned callId state found)] at blockMem
    cases blockMem

/-! ### A block that is handed back while the call still waits -/

/-- Two readers of one identity that were opened against different sizes. -/
def sizedMetadata (size : ℕ) : AssetMetadata where
  resolvedIdentifier := [1]
  size := size
  validator := ⟨[2], .entityTag, .strong⟩

def smallBlocks : CacheOptions := { blockSize := 4096 }

/--
The long reader publishes block 2 and starts on block 0.  The short reader finds
block 0 busy, owns block 1, meets block 2 with a length that is not its own,
hands block 1 back, reads its part of block 2 directly and waits for block 0.
-/
def mismatchEvents : List Event :=
  [.wrap (sizedMetadata 20000) smallBlocks false, .wrap (sizedMetadata 9000) smallBlocks false,
    .read 0 ⟨8192, fun _ => 0, false, 10⟩, .step 0 .silent, .step 0 .silent,
    .step 0 (.read ⟨4096, .success⟩ (List.replicate 4096 7)), .step 0 .silent,
    .read 0 ⟨0, fun _ => 0, false, 10⟩, .step 1 .silent,
    .read 1 ⟨0, fun _ => 0, false, 9000⟩, .step 2 .silent, .step 2 .silent, .step 2 .silent,
    .step 2 .silent, .step 2 (.read ⟨808, .success⟩ (List.replicate 808 7)), .step 2 .silent]

theorem mismatchEvents_reach :
    ∃ final ∈ Machine.run System.step (create smallBlocks) mismatchEvents,
      ∃ state ∈ final.calls[2]?, state.call.pc = .await [0] ∧
        state.call.key (state.call.span.first + 0) = ⟨1, 0⟩ ∧
        final.store.lookup ⟨1, 0⟩ = some .pending ∧ state.call.ledger = ⟨[1], [], [1]⟩ := by
  decide +kernel

theorem singleFlight_mismatch :
    ∃ final, Machine.run System.step (create smallBlocks) mismatchEvents = some final ∧
      final.Pending ⟨1, 0⟩ ∧
      ∃ callId, final.Holds callId ⟨1, 0⟩ ∧ ∃ answer, (final.step (.step callId answer)).isSome := by
  rcases mismatchEvents_reach with ⟨final, reached, _, _, _, _, pending, _⟩
  exact ⟨final, reached, pending,
    (singleFlight smallBlocks mismatchEvents final reached).2.2.1 _ pending⟩

theorem blocked_call_owned_unpublished :
    ∃ final state, Machine.run System.step (create smallBlocks) mismatchEvents = some final ∧
      final.calls[2]? = some state ∧ state.call.Blocked final.store ⟨1, 0⟩ ∧
      ∃ block ∈ state.call.ledger.acquired, block ∉ state.call.ledger.published := by
  rcases mismatchEvents_reach with ⟨final, reached, state, found, place, keyEq, pending, ledger⟩
  refine ⟨final, state, reached, found, ⟨0, [], place, keyEq.symm, pending⟩, ?_⟩
  rw [ledger]
  exact ⟨1, List.mem_singleton_self 1, List.not_mem_nil⟩

end System

end UsdAsset.Cache
