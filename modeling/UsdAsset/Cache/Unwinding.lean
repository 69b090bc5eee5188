import UsdAsset.Cache.Ownership
import UsdAsset.Cache.Representation

/-!
# A read that runs out of memory

Wherever an allocation fails, the exception leaves the read through the destructor of
`OwnedBlocks`, which hands back what is listed there.  Two allocations fail where that is
not enough: the list of owned blocks grows after the store has made a block pending, and
`Publish` makes the node of the recency list after the entry has stopped being pending.

A stripe of `BlockCache.lean` lists every block it holds.  What the second failure leaves
behind is no such stripe, so the store is laid out here with the fields of the source.
-/

namespace UsdAsset.Cache

open Function

variable {key : ShardKey} {store : BlockCache} {entry : RawEntry}

/-! ### The fields of the store -/

structure RawEntry where
  block : Option Bytes := none
  pending : Bool := false
  bytes : ℕ := 0
  inLru : Bool := false
  deriving DecidableEq, Repr

def Entry.raw : Entry → RawEntry
  | .pending => { pending := true }
  | .resident block => { block := some block, bytes := block.length, inLru := true }

structure RawShard where
  entries : ShardKey → Option RawEntry
  lru : List ShardKey
  residentBytes : ℕ

def Shard.raw (shard : Shard) : RawShard where
  entries key := (shard.entries key).map Entry.raw
  lru := shard.lru
  residentBytes := shard.residentBytes

namespace RawShard

/-- Forgets a pending key, as `Abandon` does. -/
def release (shard : RawShard) (key : ShardKey) : RawShard :=
  match shard.entries key with
  | some entry =>
      if entry.pending then { shard with entries := Function.update shard.entries key none }
      else shard
  | none => shard

/-- What `Publish` assigns to the entry of a pending key before it is listed. -/
def assign (shard : RawShard) (key : ShardKey) (block : Bytes) : RawShard :=
  match shard.entries key with
  | some entry =>
      { shard with
        entries := Function.update shard.entries key
          (some { entry with block := some block, pending := false, bytes := block.length }) }
  | none => shard

/-- What `Publish` does once the node of the list is there. -/
def link (shard : RawShard) (key : ShardKey) : RawShard :=
  match shard.entries key with
  | some entry =>
      { entries := Function.update shard.entries key (some { entry with inLru := true })
        lru := key :: shard.lru
        residentBytes := addU64 shard.residentBytes entry.bytes }
  | none => shard

def bytesOf (shard : RawShard) (key : ShardKey) : ℕ := (shard.entries key).elim 0 RawEntry.bytes

/-- The list, the flags and the byte count of a stripe belong together. -/
structure Intact (shard : RawShard) : Prop where
  nodup : shard.lru.Nodup
  listed : ∀ key, key ∈ shard.lru ↔ ∃ entry ∈ shard.entries key, entry.inLru = true
  evictable : ∀ key, ∀ entry ∈ shard.entries key, entry.inLru = !entry.pending
  filled : ∀ key, ∀ entry ∈ shard.entries key, entry.block.isSome = !entry.pending
  measured : ∀ key, ∀ entry ∈ shard.entries key, entry.bytes = (entry.block.getD []).length
  counted : shard.residentBytes = (shard.lru.map shard.bytesOf).sum

end RawShard

structure RawStore where
  shardCount : ℕ
  shards : ℕ → RawShard
  residentTotal : ℕ

def BlockCache.raw (store : BlockCache) : RawStore where
  shardCount := store.shardCount
  shards index := (store.shards index).raw
  residentTotal := store.residentTotal

namespace RawStore

def shardFor (store : RawStore) (key : ShardKey) : RawShard :=
  store.shards (key.stripe store.shardCount)

def lookup (store : RawStore) (key : ShardKey) : Option RawEntry := (store.shardFor key).entries key

def withShard (store : RawStore) (key : ShardKey) (shard : RawShard) : RawStore :=
  { store with shards := Function.update store.shards (key.stripe store.shardCount) shard }

def abandon (store : RawStore) (key : ShardKey) : RawStore :=
  store.withShard key ((store.shardFor key).release key)

/-- The store where the list of a stripe could not grow. -/
def assign (store : RawStore) (key : ShardKey) (block : Bytes) : RawStore :=
  store.withShard key ((store.shardFor key).assign key block)

structure Intact (store : RawStore) : Prop where
  shards : ∀ index, (store.shards index).Intact
  inStripe : ∀ {index key}, (store.shards index).entries key ≠ none →
    index = key.stripe store.shardCount
  total : store.residentTotal =
    ∑ index ∈ Finset.range store.shardCount, (store.shards index).residentBytes

end RawStore

/-! ### The store of the model -/

theorem Shard.raw_release (shard : Shard) (key : ShardKey) :
    (shard.release key).raw = shard.raw.release key := by
  cases found : shard.entries key with
  | none => simp [Shard.release, RawShard.release, Shard.raw, found]
  | some entry =>
    cases entry with
    | pending =>
      simp only [Shard.release, RawShard.release, Shard.raw, found, Entry.raw, dif_pos,
        Option.map_some, if_true, RawShard.mk.injEq, and_true]
      funext other
      rw [update_apply, update_apply]
      split <;> rfl
    | resident block =>
      simp [Shard.release, RawShard.release, Shard.raw, found, Entry.raw]

theorem Shard.raw_install {shard : Shard} (block : Bytes)
    (pending : shard.entries key = some .pending) :
    (shard.install key block).raw = (shard.raw.assign key block).link key := by
  rw [Shard.install, dif_pos pending]
  simp only [Shard.raw, RawShard.assign, RawShard.link, pending, Option.map_some,
    update_self, Entry.raw, update_idem, RawShard.mk.injEq, and_true]
  funext other
  rw [update_apply, update_apply]
  split <;> rfl

theorem BlockCache.raw_abandon (store : BlockCache) (key : ShardKey) :
    (store.abandon key).raw = store.raw.abandon key := by
  simp only [BlockCache.abandon, BlockCache.withShard, BlockCache.raw, RawStore.abandon,
    RawStore.withShard, RawStore.shardFor, BlockCache.shardFor, BlockCache.shardIndex,
    RawStore.mk.injEq, true_and, and_true]
  funext index
  rw [update_apply, update_apply]
  split
  · exact Shard.raw_release _ _
  · rfl

theorem BlockCache.lookup_raw (store : BlockCache) (key : ShardKey) :
    store.raw.lookup key = (store.lookup key).map Entry.raw := rfl

theorem Shard.intact_raw {shard : Shard} (counts : shard.residentBytes = shard.bytes) :
    shard.raw.Intact := by
  have flags : ∀ entry : Entry, entry.raw.inLru = !entry.raw.pending ∧
      entry.raw.block.isSome = !entry.raw.pending ∧
      entry.raw.bytes = (entry.raw.block.getD []).length := by
    intro entry
    cases entry <;> exact ⟨rfl, rfl, rfl⟩
  have each : ∀ {key entry}, entry ∈ shard.raw.entries key → ∃ source : Entry, source.raw = entry :=
    fun found => (Option.map_eq_some_iff.mp found).imp fun _ => And.right
  refine ⟨shard.lru_nodup, ?_, ?_, ?_, ?_, ?_⟩
  · intro key
    rw [show shard.raw.lru = shard.lru from rfl, shard.mem_lru]
    simp only [Shard.raw, Option.mem_def, Option.map_eq_some_iff]
    constructor
    · rintro ⟨block, resident⟩
      exact ⟨_, ⟨_, resident, rfl⟩, rfl⟩
    · rintro ⟨_, ⟨entry, found, rfl⟩, inLru⟩
      cases entry with
      | pending => cases inLru
      | resident block => exact ⟨block, found⟩
  · intro key entry found
    rcases each found with ⟨source, rfl⟩
    exact (flags source).1
  · intro key entry found
    rcases each found with ⟨source, rfl⟩
    exact (flags source).2.1
  · intro key entry found
    rcases each found with ⟨source, rfl⟩
    exact (flags source).2.2
  · have bytesOf : shard.raw.bytesOf = shard.bytesOf := by
      funext key
      cases found : shard.entries key with
      | none => simp [RawShard.bytesOf, Shard.bytesOf, Shard.raw, found, Entry.bytes]
      | some entry =>
        cases entry <;>
          simp [RawShard.bytesOf, Shard.bytesOf, Shard.raw, found, Entry.bytes, Entry.raw]
    rw [bytesOf]
    exact counts

theorem BlockCache.Represents.intact {uses : List ShardKey} (represents : store.Represents uses) :
    store.raw.Intact where
  shards index := Shard.intact_raw (represents.counts index)
  inStripe := by
    intro index key present
    refine represents.inStripe fun absent => present ?_
    simp [BlockCache.raw, Shard.raw, absent]
  total := by
    have counts : ∀ index, (store.raw.shards index).residentBytes = (store.shards index).bytes :=
      represents.counts
    rw [show store.raw.residentTotal = store.residentTotal from rfl, represents.total,
      BlockCache.heldBytes]
    exact Finset.sum_congr rfl fun index _ => (counts index).symm

/-! ### Handing back -/

theorem RawShard.entries_release_of_settled {shard : RawShard}
    (found : shard.entries key = some entry) (settled : entry.pending = false) (other : ShardKey) :
    (shard.release other).entries key = some entry := by
  by_cases same : key = other
  · subst same
    simp [RawShard.release, found, settled]
  · simp only [RawShard.release]
    split
    · split
      · dsimp only
        rw [update_of_ne same, found]
      · exact found
    · exact found

theorem RawStore.lookup_withShard (store : RawStore) (key other : ShardKey) (shard : RawShard) :
    (store.withShard key shard).lookup other =
      if other.stripe store.shardCount = key.stripe store.shardCount then shard.entries other
      else store.lookup other := by
  have replaced : (store.withShard key shard).shardFor other =
      update store.shards (key.stripe store.shardCount) shard
        (other.stripe store.shardCount) := rfl
  rw [lookup, replaced, update_apply]
  split
  · rfl
  · rfl

theorem RawStore.lookup_abandon_of_settled {store : RawStore}
    (found : store.lookup key = some entry) (settled : entry.pending = false) (other : ShardKey) :
    (store.abandon other).lookup key = some entry := by
  rw [RawStore.abandon, RawStore.lookup_withShard]
  split
  · rename_i sameStripe
    rw [RawStore.lookup, RawStore.shardFor, sameStripe] at found
    exact RawShard.entries_release_of_settled found settled other
  · exact found

theorem BlockCache.pending_abandon_iff (store : BlockCache) (key other : ShardKey) :
    (store.abandon key).lookup other = some .pending ↔
      other ≠ key ∧ store.lookup other = some .pending := by
  by_cases pending : store.lookup key = some .pending
  · rw [BlockCache.lookup_abandon pending, update_apply]
    split
    · rename_i same
      simp [same]
    · rename_i elsewhere
      simp [elsewhere]
  · have settled : ¬(store.shardFor key).entries key = some .pending := pending
    have unchanged : (store.shardFor key).release key = store.shardFor key := by
      simp only [Shard.release, dif_neg settled]
    rw [BlockCache.abandon, unchanged, BlockCache.lookup_withShard_of_entries rfl]
    refine ⟨fun otherPending => ⟨?_, otherPending⟩, And.right⟩
    rintro rfl
    exact pending otherPending

namespace Call

variable {call : Call}

/-- What the destructor of `OwnedBlocks` does to the store. -/
def abandonAll (call : Call) (store : RawStore) : RawStore :=
  call.outstanding.foldl (fun store block => store.abandon (call.key block)) store

/-- The same for a store of the model. -/
def abandonEach (call : Call) (store : BlockCache) : BlockCache :=
  call.outstanding.foldl (fun store block => store.abandon (call.key block)) store

theorem lookup_abandonAll {store : RawStore} {key : ShardKey}
    (found : store.lookup key = some entry) (settled : entry.pending = false) :
    (call.abandonAll store).lookup key = some entry := by
  simp only [abandonAll]
  induction call.outstanding generalizing store with
  | nil => exact found
  | cons block rest ih => exact ih (RawStore.lookup_abandon_of_settled found settled _)

theorem raw_abandonEach (store : BlockCache) :
    (call.abandonEach store).raw = call.abandonAll store.raw := by
  simp only [abandonAll, abandonEach]
  induction call.outstanding generalizing store with
  | nil => rfl
  | cons block rest ih => rw [List.foldl_cons, List.foldl_cons, ih, BlockCache.raw_abandon]

theorem represents_abandonEach {uses : List ShardKey} (represents : store.Represents uses)
    (positive : 0 < store.shardCount) :
    (call.abandonEach store).Represents uses := by
  simp only [abandonEach]
  induction call.outstanding generalizing store with
  | nil => exact represents
  | cons block rest ih => exact ih (represents.abandon positive _) positive

theorem pending_abandonEach_iff (store : BlockCache) (key : ShardKey) :
    (call.abandonEach store).lookup key = some .pending ↔
      ¬call.HoldsKey key ∧ store.lookup key = some .pending := by
  simp only [abandonEach, HoldsKey]
  induction call.outstanding generalizing store with
  | nil => simp
  | cons block rest ih =>
    rw [List.foldl_cons, ih, BlockCache.pending_abandon_iff, List.exists_mem_cons_iff, not_or,
      and_assoc, and_left_comm]

end Call

/-! ### Where an allocation fails -/

/-- The allocations of a read. -/
inductive Allocation where
  | entry
  | ownedList
  | busyList
  | diskLoad
  | plan
  | transfer
  | blockCopy
  | lruNode
  /-- One that comes neither between two changes of the store nor between the store and the list. -/
  | elsewhere
  deriving DecidableEq, Repr

namespace Call

/-- The allocations of the step a call stands at. -/
def Allocates (call : Call) (store : BlockCache) : Allocation → Prop
  | .entry | .ownedList => ∃ i, call.pc = .acquire i ∧ i < call.span.count ∧
      call.resolved i = false ∧ store.lookup (call.key (call.span.first + i)) = none
  | .busyList => ∃ i, call.pc = .acquire i ∧ i < call.span.count ∧
      call.resolved i = false ∧ store.lookup (call.key (call.span.first + i)) = some .pending
  | .diskLoad => ∃ block todo, call.pc = .load (block :: todo)
  | .plan => (∃ i, call.pc = .acquire i ∧ call.span.count ≤ i) ∨ call.pc = .load []
  | .transfer => ∃ run runs, call.pc = .fetch (run :: runs)
  | .blockCopy => call.publication.isSome = true
  | .lruNode => ∃ published ∈ call.publication,
      store.lookup (call.key published.1) = some .pending
  | .elsewhere => ¬call.IsReturned

theorem Allocates.running {call : Call} {allocation : Allocation}
    (allocates : call.Allocates store allocation) : ¬call.IsReturned := by
  rintro ⟨result, returned⟩
  cases allocation with
  | entry | ownedList | busyList =>
    rcases allocates with ⟨_, place, _⟩
    rw [returned] at place
    cases place
  | diskLoad | transfer =>
    rcases allocates with ⟨_, _, place⟩
    rw [returned] at place
    cases place
  | plan =>
    rcases allocates with ⟨_, place, _⟩ | place
    · rw [returned] at place
      cases place
    · rw [returned] at place
      cases place
  | blockCopy =>
    simp only [Allocates, publication, returned] at allocates
    cases allocates
  | lruNode =>
    rcases allocates with ⟨_, publishes, _⟩
    simp only [publication, returned] at publishes
    cases publishes
  | elsewhere => exact allocates ⟨result, returned⟩

/-- The store an allocation leaves behind when it fails. -/
def thrown (call : Call) (store : BlockCache) : Allocation → RawStore
  | .ownedList =>
      match call.pc with
      | .acquire i => (store.acquire (call.key (call.span.first + i))).2.raw
      | _ => store.raw
  | .lruNode =>
      match call.publication with
      | some (block, bytes) => store.raw.assign (call.key block) bytes
      | none => store.raw
  | _ => store.raw

/-- The store once the exception has left the read. -/
def unwound (call : Call) (store : BlockCache) (allocation : Allocation) : RawStore :=
  call.abandonAll (call.thrown store allocation)

end Call

/-- The store a read may leave behind, whichever way it ends. -/
structure System.LeftBehind (system : System) (callId : ℕ) (after : RawStore) : Prop where
  released : ∀ key, ∀ entry ∈ after.lookup key, entry.pending = true →
    ∃ holder ≠ callId, system.Holds holder key
  evictable : ∀ key block, system.store.lookup key = some (.resident block) →
    (∃ entry ∈ after.lookup key, entry.block = some block) ∧ key ∈ (after.shardFor key).lru
  intact : after.Intact

/-- A call with an exception on its way out, which hands back its blocks one by one. -/
def CallState.throwing (state : CallState) : CallState :=
  { state with call := { state.call with pc := .giveUp ⟨0, .failure .networkError []⟩ } }

namespace System

variable {system : System} {callId : ℕ} {state : CallState} {uses : List ShardKey}

theorem pending_raw_iff :
    (∃ entry ∈ store.raw.lookup key, entry.pending = true) ↔ store.lookup key = some .pending := by
  rw [BlockCache.lookup_raw]
  cases store.lookup key with
  | none => simp
  | some entry => cases entry <;> simp [Entry.raw]

theorem Coherent.leftBehind (coherent : system.Coherent) (represents : system.store.Represents uses)
    (positive : 0 < system.store.shardCount) (found : system.calls[callId]? = some state) :
    system.LeftBehind callId (state.call.abandonAll system.store.raw) := by
  have intact : (state.call.abandonAll system.store.raw).Intact := by
    rw [← Call.raw_abandonEach]
    exact (Call.represents_abandonEach represents positive).intact
  refine ⟨?_, ?_, intact⟩
  · intro key entry entryMem isPending
    rw [← Call.raw_abandonEach] at entryMem
    have pending := pending_raw_iff.mp ⟨entry, entryMem, isPending⟩
    rw [Call.pending_abandonEach_iff] at pending
    rcases coherent.exclusive.holder pending.2 with ⟨holder, held⟩
    refine ⟨holder, ?_, held⟩
    rintro rfl
    exact pending.1 ((holds_iff found key).mp held)
  · intro key block resident
    have before : system.store.raw.lookup key = some (Entry.resident block).raw := by
      rw [BlockCache.lookup_raw, resident]
      rfl
    have after := @Call.lookup_abandonAll _ state.call _ _ before rfl
    exact ⟨⟨_, after, rfl⟩, ((intact.shards _).listed key).mpr ⟨_, after, rfl⟩⟩

/-- A block that is not on the list stays pending, and no call owns it. -/
theorem Coherent.not_leftBehind_ownedList (coherent : system.Coherent)
    (found : system.calls[callId]? = some state)
    (allocates : state.call.Allocates system.store .ownedList) :
    ¬system.LeftBehind callId (state.call.unwound system.store .ownedList) := by
  rcases allocates with ⟨i, place, _, _, absent⟩
  intro left
  have unowned : ∀ holder, ¬system.Holds holder (state.call.key (state.call.span.first + i)) := by
    intro holder held
    have pending := coherent.exclusive.pending_of_holds held
    rw [Pending, absent] at pending
    cases pending
  have pending : (system.store.acquire (state.call.key (state.call.span.first + i))).2.lookup
      (state.call.key (state.call.span.first + i)) = some .pending := by
    rcases system.store.acquire_cases (state.call.key (state.call.span.first + i)) with
      ⟨_, _, resident, _⟩ | ⟨_, busy, _⟩ | ⟨_, _, updated⟩
    · rw [absent] at resident
      cases resident
    · rw [absent] at busy
      cases busy
    · rw [updated, update_self]
  have still := (Call.pending_abandonEach_iff _ _).mpr
    ⟨fun held => unowned callId ((holds_iff found _).mpr held), pending⟩
  rcases pending_raw_iff.mpr still with ⟨entry, entryMem, isPending⟩
  rw [Call.raw_abandonEach] at entryMem
  simp only [Call.unwound, Call.thrown, place] at left
  rcases left.released _ entry entryMem isPending with ⟨holder, _, held⟩
  exact unowned holder held

/-- A block that is not in the list can be neither handed back nor evicted. -/
theorem not_leftBehind_lruNode (allocates : state.call.Allocates system.store .lruNode) :
    ¬system.LeftBehind callId (state.call.unwound system.store .lruNode) := by
  rcases allocates with ⟨⟨block, bytes⟩, publishes, pending⟩
  intro left
  have before : (system.store.raw.shardFor (state.call.key block)).entries (state.call.key block) =
      some Entry.pending.raw := by
    have raw := system.store.lookup_raw (state.call.key block)
    rw [pending] at raw
    exact raw
  have assigned : (system.store.raw.assign (state.call.key block) bytes).lookup
      (state.call.key block) = some { block := some bytes, bytes := bytes.length } := by
    rw [RawStore.assign, RawStore.lookup_withShard, if_pos rfl, RawShard.assign, before]
    exact update_self _ _ _
  have after := @Call.lookup_abandonAll _ state.call _ _ assigned rfl
  simp only [Call.unwound, Call.thrown, Option.mem_def.mp publishes] at left
  have flags := (left.intact.shards _).evictable _ _ after
  cases flags

/-! ### Other calls meanwhile -/

def throwing (system : System) (callId : ℕ) (state : CallState) : System :=
  { system with calls := system.calls.set callId state.throwing }

theorem Coherent.throwing (coherent : system.Coherent)
    (found : system.calls[callId]? = some state) (running : ¬state.call.IsReturned) :
    (system.throwing callId state).Coherent := by
  have valid := coherent.valid found
  have holdsIff : ∀ holder key,
      (system.throwing callId state).Holds holder key ↔ system.Holds holder key := by
    intro holder key
    by_cases same : holder = callId
    · subst same
      have thrownAt : (system.throwing holder state).calls[holder]? =
          some state.throwing :=
        List.getElem?_set_self (List.getElem?_eq_some_iff.mp found).1
      rw [holds_iff found]
      exact holds_iff thrownAt key
    · simp only [Holds, System.throwing, List.getElem?_set_ne (Ne.symm same)]
  refine ⟨coherent.interned, ?_, ?_, coherent.exclusive.move (.idle (fun _ => Iff.rfl) holdsIff),
    coherent.resident⟩
  · intro otherId other otherAt
    rcases Machine.getElem?_set_cases otherAt with ⟨_, rfl⟩ | ⟨_, oldAt⟩
    · rcases coherent.callReader found with ⟨owner, ownerAt, sameReader⟩
      exact ⟨owner, ownerAt, sameReader⟩
    · exact coherent.callReader oldAt
  · intro otherId other otherAt
    rcases Machine.getElem?_set_cases otherAt with ⟨_, rfl⟩ | ⟨_, oldAt⟩
    · exact ⟨valid.ascending, valid.inside, valid.busy,
        fun _ => valid.admitted fun result place => running ⟨result, place⟩, valid.recorded,
        by rintro ⟨⟩⟩
    · exact coherent.valid oldAt

/-- Whatever the others do meanwhile, a call that is through its exception owns nothing. -/
theorem Coherent.released_of_throwing (coherent : system.Coherent)
    (found : system.calls[callId]? = some state) (running : ¬state.call.IsReturned)
    {events : List Event} {final : System} {finished : CallState}
    (reached : Machine.run System.step (system.throwing callId state) events = some final)
    (finishedAt : final.calls[callId]? = some finished) (returned : finished.call.IsReturned) :
    ∀ key, final.Pending key → ∃ holder ≠ callId, final.Holds holder key := by
  have coherentFinal : final.Coherent := Machine.invariant_of_run
    (fun coherent took => coherent.step took) (coherent.throwing found running) reached
  intro key pending
  rcases coherentFinal.exclusive.holder pending with ⟨holder, held⟩
  refine ⟨holder, ?_, held⟩
  rintro rfl
  rcases (holds_iff finishedAt key).mp held with ⟨block, blockMem, _⟩
  rw [(coherentFinal.valid finishedAt).outstanding_of_returned returned] at blockMem
  cases blockMem

theorem unwound_leftBehind_iff (coherent : system.Coherent)
    (represents : system.store.Represents uses) (positive : 0 < system.store.shardCount)
    (found : system.calls[callId]? = some state) {allocation : Allocation}
    (allocates : state.call.Allocates system.store allocation) :
    (system.LeftBehind callId (state.call.unwound system.store allocation) ↔
        allocation ≠ .ownedList ∧ allocation ≠ .lruNode) ∧
      (allocation ≠ .ownedList ∧ allocation ≠ .lruNode →
        ∀ {events : List Event} {final : System} {finished : CallState},
          Machine.run System.step (system.throwing callId state) events = some final →
          final.calls[callId]? = some finished → finished.call.IsReturned →
          ∀ key, final.Pending key → ∃ holder ≠ callId, final.Holds holder key) := by
  refine ⟨?_, fun _ => coherent.released_of_throwing found allocates.running⟩
  have clean := coherent.leftBehind represents positive found
  cases allocation with
  | ownedList => simp [coherent.not_leftBehind_ownedList found allocates]
  | lruNode => simp [not_leftBehind_lruNode allocates]
  | entry | busyList | diskLoad | plan | transfer | blockCopy | elsewhere =>
      exact ⟨fun _ => ⟨nofun, nofun⟩, fun _ => clean⟩

def readingOne : System :=
  ((create smallBlocks).wrap (sizedMetadata 4096) smallBlocks false).read 0
    ⟨(CachedAssetReader.wrap (sizedMetadata 4096) smallBlocks false (create smallBlocks).store).1,
      true⟩
    ⟨0, fun _ => 0, false, 10⟩

theorem readingOne_allocates :
    ∃ state ∈ readingOne.calls[0]?, state.call.pc = .acquire 0 ∧ 0 < state.call.span.count ∧
      state.call.resolved 0 = false ∧
      readingOne.store.lookup (state.call.key (state.call.span.first + 0)) = none := by
  decide +kernel

theorem unwound_leftBehind_readingOne :
    ∃ state ∈ readingOne.calls[0]?, state.call.Allocates readingOne.store .entry ∧
      readingOne.LeftBehind 0 (state.call.unwound readingOne.store .entry) := by
  rcases readingOne_allocates with ⟨state, found, stands⟩
  have coherent : readingOne.Coherent := ((coherent_create smallBlocks).wrap _ _ _).read rfl _
  have represents : readingOne.store.Represents [] :=
    (BlockCache.represents_create smallBlocks).bind _ _ _
  have allocates : state.call.Allocates readingOne.store .entry := ⟨0, stands⟩
  exact ⟨state, found, allocates,
    (unwound_leftBehind_iff coherent represents (by decide +kernel) found allocates).1.mpr
      ⟨nofun, nofun⟩⟩

/-- The block is owned and fetched, and about to be published. -/
def fetchedOne : List Event :=
  [.step 0 .silent, .step 0 .silent, .step 0 (.read ⟨4096, .success⟩ (List.replicate 4096 7))]

theorem fetchedOne_allocates :
    ∃ final ∈ Machine.run System.step readingOne fetchedOne, ∃ state ∈ final.calls[0]?,
      ∃ published ∈ state.call.publication,
        final.store.lookup (state.call.key published.1) = some .pending := by
  decide +kernel

/-- Either failure leaves the only block of the asset behind. -/
theorem unwinding_leaves_block_behind :
    (∃ state ∈ readingOne.calls[0]?, state.call.Allocates readingOne.store .ownedList ∧
      ¬readingOne.LeftBehind 0 (state.call.unwound readingOne.store .ownedList)) ∧
      ∃ final ∈ Machine.run System.step readingOne fetchedOne, ∃ state ∈ final.calls[0]?,
        state.call.Allocates final.store .lruNode ∧
          ¬final.LeftBehind 0 (state.call.unwound final.store .lruNode) := by
  constructor
  · rcases readingOne_allocates with ⟨state, found, stands⟩
    have coherent : readingOne.Coherent := ((coherent_create smallBlocks).wrap _ _ _).read rfl _
    exact ⟨state, found, ⟨0, stands⟩, coherent.not_leftBehind_ownedList found ⟨0, stands⟩⟩
  · rcases fetchedOne_allocates with ⟨final, reached, state, found, publishes⟩
    exact ⟨final, reached, state, found, publishes, not_leftBehind_lruNode publishes⟩

end System

end UsdAsset.Cache
