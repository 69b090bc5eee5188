import UsdAsset.Cache.SweepEffect

/-!
# The budget of the directory

One process makes one call at a time, and the file system does what it is asked to.
Between two calls the directory holds at most the budget and what the store has counted
since its last sweep; while a store sweeps, nobody interferes, so that the sweep does what
`SweptBy` says to the directory it began with.
-/

namespace UsdAsset.Cache

open ByteString Machine DiskBlockStore

/-! ### One call at a time -/

def DiskPc.hasReturned : DiskPc → Bool
  | .returned _ => true
  | _ => false

namespace DiskSystem

/-- One process over a directory with any content. -/
def onDisk (now : ℕ) (contents : List (Bytes × File StoredBlock)) (nonce : UInt64) : DiskSystem where
  disk := .holding now contents
  processes := [{ nonce }]

/--
A call begins when all others have returned, every operation on the file system succeeds,
and a walk ends only when it has come across every name.
-/
def sequential (system : DiskSystem) : DiskEvent → Bool
  | .call .. => system.calls.all fun call => call.pc.hasReturned
  | .tick _ => true
  | .step callId choice =>
      (system.calls[callId]?).all fun call =>
        match call.pc with
        | .walk sweep =>
            choice.succeeds || system.disk.names.keys.all fun path =>
              !isUnder sweep.plan.root path || sweep.visited.contains path
        | _ => choice.succeeds
  | _ => false

theorem sequential_step {system : DiskSystem} {callId : ℕ} {choice : Choice} {call : DiskCall}
    (found : system.calls[callId]? = some call)
    (allowed : system.sequential (.step callId choice) = true) :
    Orderly system.disk choice call := by
  simp only [sequential, found, Option.all_some] at allowed
  cases at_ : call.pc with
  | walk sweep =>
    refine ⟨fun elsewhere => absurd at_ (elsewhere sweep), ?_⟩
    rw [at_]
    rintro _ ⟨⟩ ended path present under
    simp only [at_, ended, Bool.false_or, List.all_eq_true, Bool.or_eq_true] at allowed
    have listed : path ∈ system.disk.names.keys := List.mem_toFinset.mp present
    simpa [under] using allowed path listed
  | _ =>
    simp only [at_] at allowed
    exact ⟨fun _ => allowed, by rw [at_]; nofun⟩

end DiskSystem

/-! ### The path of an entry -/

def entryPath (store : DiskBlockStore) (block : StoredBlock) : Bytes :=
  pathFor store.root (nameFor (digestOf block.key))

theorem isTemporary_of_isEntryPath {path : Bytes} (entry : isEntryPath path = true) :
    isTemporary path = false := by
  have within : fileName path <:+ path := by
    simp only [fileName]
    split
    · exact List.suffix_rfl
    · rename_i before name split
      exact ⟨before ++ [pathSeparator], by rw [(eq_append_of_splitLast split).1]; simp⟩
  rw [isTemporary, Bool.and_eq_false_iff, Bool.eq_false_iff, Bool.eq_false_iff]
  refine Or.inr fun temporary => ?_
  have same : entrySuffix <:+ tempSuffix :=
    List.suffix_of_suffix_length_le (List.isSuffixOf_iff_suffix.mp entry)
      ((List.isSuffixOf_iff_suffix.mp temporary).trans within) (by decide)
  exact absurd (same.eq_of_length (by decide)) (by decide)

theorem prefix_joinPath (directory name : Bytes) : directory <+: joinPath directory name := by
  simp only [joinPath]
  split
  · exact List.prefix_append _ _
  · exact ⟨[pathSeparator] ++ name, by simp⟩

theorem isUnder_pathFor {root : Bytes} (open_ : root.getLast? ≠ some pathSeparator)
    (name : Bytes) : isUnder root (pathFor root name) = true := by
  rw [isUnder, List.isPrefixOf_iff_prefix]
  have first : root ++ [pathSeparator] <+: joinPath root (name.take 2) := by
    rw [joinPath, if_neg open_]
    exact List.prefix_append _ _
  exact first.trans (prefix_joinPath _ _)

theorem getLast?_root (directory : Bytes) :
    (joinPath directory entryRoot).getLast? ≠ some pathSeparator := by
  have last : (joinPath directory entryRoot).getLast? = entryRoot.getLast? := by
    simp only [joinPath]
    split
    · exact List.getLast?_append_of_ne_nil _ (by decide)
    · exact List.getLast?_append_of_ne_nil _ (by decide)
  rw [last]
  decide

/-! ### A call in progress -/

/-- A sweep enforces the budget of the store, of which the entry that made it due is a part. -/
structure Enforces (start disk : FileSystem StoredBlock) (store : DiskBlockStore) (call : DiskCall)
    (plan : SweepPlan) : Prop where
  swept : store.swept = true
  counted : store.bytesSinceSweep = 0
  enabled : store.enabled = true
  root : plan.root = store.root
  budget : plan.budget = store.effectiveBudget
  progress : Progress start disk call.pc
  entry : ∃ block file, call.request.block? = some block ∧
    start.fileAt (entryPath store block) = some file ∧
      4 * file.content.length ≤ store.effectiveBudget

/-- What is known of a call at the place where it is, if no other is under way. -/
def Underway (disk : FileSystem StoredBlock) (store : DiskBlockStore) (call : DiskCall) : Prop :=
  match call.pc with
  | .makeDirectories path | .openTemporary path | .write path _ _ _ | .rename path _ _ =>
      store.enabled = true ∧ ∃ block, call.request.block? = some block ∧ path = entryPath store block
  | .account =>
      store.enabled = true ∧ ∃ block file, call.request.block? = some block ∧
        disk.fileAt (entryPath store block) = some file ∧
          file.content.length ≤ block.encoded.length
  | .walk sweep | .trim sweep _ | .endSweep sweep =>
      ∃ start, Enforces start disk store call sweep.plan
  | .returned (.answered true) =>
      (∀ options, call.request ≠ .configure options) → store.swept = true
  | _ => True

section Calls

variable {start disk : FileSystem StoredBlock} {store : DiskBlockStore} {call : DiskCall}
  {process : DiskProcess} {choice : Choice} {outcome : Outcome} {sweep : Sweep}

theorem underway_of_sweep (sweeps : call.pc.sweep? = some sweep) :
    Underway disk store call ↔ ∃ start, Enforces start disk store call sweep.plan := by
  simp only [Underway]
  cases at_ : call.pc <;> rw [at_] at sweeps <;> cases sweeps <;> rfl

theorem underway_of_offBooks {pc : DiskPc} (underway : Underway disk process.store call)
    (books : process.store.SameBooks store) (before : call.pc.offBooks = true)
    (after : pc.offBooks = true) (departs : Departs process.store call pc)
    (next : FileSystem StoredBlock) : Underway next store { call with pc } := by
  rcases books with ⟨_, _, rfl⟩
  cases pc with
  | makeDirectories path => exact departs
  | openTemporary path =>
    have from_ : call.pc = .makeDirectories path := departs
    rwa [Underway, from_] at underway
  | returned result =>
    cases result with
    | answered value =>
      cases value with
      | true =>
        intro stores
        rcases departs stores with at_ | ⟨sweep, at_⟩ <;> rw [at_] at before <;> cases before
      | false => trivial
    | _ => trivial
  | write | rename | account | walk | trim | endSweep => cases after
  | _ => trivial

theorem effectiveBudget_counted (store : DiskBlockStore) (size : ℕ) :
    store.effectiveBudget ≤ (store.counted size).effectiveBudget ∧
      4 * size ≤ (store.counted size).effectiveBudget := by
  simp only [effectiveBudget, counted, minBudgetEntries]
  omega

/-- The sweep that an entry has made due begins with the directory as it is. -/
theorem Underway.begins {block : StoredBlock} {plan : SweepPlan}
    (underway : Underway disk process.store call) (pc : call.pc = .account)
    (request : call.request.block? = some block)
    (accounted : process.store.account block.encoded.length = (some plan, store)) :
    Enforces disk disk store { call with pc := .walk { plan } } plan := by
  rcases account_eq_some accounted with ⟨_, enabled, rfl, stats, rfl⟩
  rw [Underway, pc] at underway
  rcases underway with ⟨_, same, file, stores, present, small⟩
  obtain rfl := Option.some.inj (stores.symm.trans request)
  refine ⟨rfl, rfl, enabled, rfl, rfl, ⟨[], walking_start disk _⟩, same, file, stores, present, ?_⟩
  have floor := (effectiveBudget_counted process.store same.encoded.length).2
  change 4 * file.content.length ≤ (process.store.counted same.encoded.length).effectiveBudget
  omega

/-- A sweep goes on with its plan, or it ends. -/
theorem sweep_of_transition (sweeps : call.pc.sweep? = some sweep)
    (transition : DiskTransition disk process choice call outcome) :
    (∃ later, outcome.pc.sweep? = some later ∧ later.plan = sweep.plan ∧
        outcome.store = process.store) ∨
      call.pc = .endSweep sweep ∧
        outcome = ⟨disk, process.store.endSweep sweep, .returned (.answered true)⟩ := by
  have elsewhere : ∀ {pc : DiskPc}, call.pc = pc → pc.sweep? = none → False := by
    rintro _ rfl off
    rw [off] at sweeps
    cases sweeps
  cases transition with
  | lingers pc | fits pc | overflows pc | skips pc | settles pc | trims pc =>
    rw [pc] at sweeps
    cases sweeps
    exact Or.inl ⟨_, rfl, rfl, rfl⟩
  | visits pc =>
    rw [pc] at sweeps
    cases sweeps
    exact Or.inl ⟨_, rfl, Sweep.plan_visit _ _ _ _, rfl⟩
  | ends pc =>
    rw [pc] at sweeps
    cases sweeps
    exact Or.inr ⟨pc, rfl⟩
  | moves _ before | removes before | opens before =>
    exact (elsewhere rfl (DiskPc.sweep?_of_offBooks before)).elim
  | fails writes => exact (elsewhere rfl (DiskPc.of_writing writes).1).elim
  | configures pc | clears pc | creates pc | writes pc | completes pc | publishes pc | rests pc
    | begins pc | reads pc | decodes pc | finishes pc => exact (elsewhere pc rfl).elim

theorem Enforces.transition (enforces : Enforces start disk process.store call sweep.plan)
    (sweeps : call.pc.sweep? = some sweep)
    (orderly : Orderly disk choice call)
    (transition : DiskTransition disk process choice call outcome) :
    (∃ later, outcome.pc.sweep? = some later ∧ later.plan = sweep.plan ∧
        outcome.store = process.store ∧
        Enforces start outcome.disk outcome.store { call with pc := outcome.pc } later.plan) ∨
      call.pc = .endSweep sweep ∧
        outcome = ⟨disk, process.store.endSweep sweep, .returned (.answered true)⟩ := by
  have progress := enforces.progress.transition (by rw [sweeps]; nofun) orderly transition
  rcases sweep_of_transition sweeps transition with ⟨later, going, plan, same⟩ | ended
  · refine Or.inl ⟨later, going, plan, same, ?_⟩
    rw [same, plan]
    exact { enforces with progress }
  · exact Or.inr ended

theorem Underway.transition {calls : List DiskCall} {callId : ℕ}
    (underway : Underway disk process.store call) (unshared : Unshared disk calls)
    (found : calls[callId]? = some call)
    (free : call.pc.sweep? = none → process.store.sweeping = false)
    (orderly : Orderly disk choice call)
    (transition : DiskTransition disk process choice call outcome) :
    Underway outcome.disk outcome.store { call with pc := outcome.pc } := by
  cases sweeps : call.pc.sweep? with
  | some sweep =>
    rcases (underway_of_sweep sweeps).mp underway with ⟨start, enforces⟩
    rcases enforces.transition sweeps orderly transition with
      ⟨later, going, _, _, still⟩ | ⟨_, rfl⟩
    · exact (underway_of_sweep going).mpr ⟨start, still⟩
    · exact fun _ => enforces.swept
  | none =>
    have off : ∀ {pc : DiskPc}, call.pc = pc → pc.sweep? = none := by
      rintro _ rfl
      exact sweeps
    cases transition with
    | moves books before _ after _ departs =>
      exact underway_of_offBooks underway books before after departs _
    | removes before _ after _ departs =>
      exact underway_of_offBooks underway (.refl _) before after departs _
    | @configures options result pc request =>
      cases result with
      | answered value =>
        cases value with
        | true => exact fun other => absurd request (other options)
        | false => trivial
      | _ => trivial
    | creates pc | writes pc | completes pc => rwa [Underway, pc] at underway
    | @publishes path temporary file pc present =>
      rw [Underway, pc] at underway
      rcases underway with ⟨enabled, block, request, rfl⟩
      rcases Option.isSome_iff_exists.mp present with ⟨other, named⟩
      have own := unshared.files found (by rw [pc]; rfl)
      obtain rfl := own.named named
      rcases own.measured with ⟨same, opened, stores, content, small, _⟩
      obtain rfl := Option.some.inj (stores.block?.symm.trans request)
      refine ⟨enabled, same, opened, request, ?_, small⟩
      rw [FileSystem.fileAt_rename named, if_pos rfl]
      simp [FileSystem.fileAt, named, content]
    | rests pc _ accounted =>
      rw [Underway, pc] at underway
      rcases account_eq_none accounted with
        ⟨_, ⟨swept, _⟩ | claimed | disabled⟩
      · exact fun _ => swept
      · rw [free sweeps] at claimed
        cases claimed
      · rw [underway.1] at disabled
        cases disabled
    | begins pc request accounted => exact ⟨disk, underway.begins pc request accounted⟩
    | clears | fails | opens | reads | decodes | finishes => trivial
    | lingers pc | visits pc | overflows pc | fits pc | trims pc | skips pc | settles pc
      | ends pc => cases off pc

theorem Enforces.tick {plan : SweepPlan} (enforces : Enforces start disk store call plan)
    (seconds : ℕ) : Enforces start { disk with now := disk.now + seconds } store call plan :=
  { enforces with progress := enforces.progress.tick seconds }

theorem Underway.tick (underway : Underway disk store call) (seconds : ℕ) :
    Underway { disk with now := disk.now + seconds } store call := by
  cases sweeps : call.pc.sweep? with
  | some sweep =>
    rw [underway_of_sweep sweeps] at underway ⊢
    rcases underway with ⟨start, enforces⟩
    exact ⟨start, enforces.tick seconds⟩
  | none =>
    rcases call with ⟨_, _, pc⟩
    cases pc with
    | walk | trim | endSweep => cases sweeps
    | returned result => rcases result with ⟨_ | _⟩ | _ | _ <;> exact underway
    | _ => exact underway

end Calls

/-! ### Between calls -/

/-- The bytes in the directory, but for the file that is being written. -/
def standingBytes (disk : FileSystem StoredBlock) (calls : List DiskCall) (root : Bytes) : ℕ :=
  disk.weigh (fun path => standing calls root path && true) fun _ => 0

/-- Once the directory was swept it holds no more than the budget and what was counted since. -/
def Within (disk : FileSystem StoredBlock) (store : DiskBlockStore) (calls : List DiskCall) : Prop :=
  store.swept = true →
    standingBytes disk calls store.root ≤ store.effectiveBudget + owed store calls ∧
      store.bytesSinceSweep < store.sweepInterval

section Rests

variable {disk next : FileSystem StoredBlock} {store nextStore : DiskBlockStore}
  {calls nextCalls : List DiskCall} {callId : ℕ} {call : DiskCall} {pc : DiskPc}
  {process : DiskProcess} {choice : Choice} {outcome : Outcome}

theorem sweepInterval_pos (store : DiskBlockStore) : 0 < store.sweepInterval := by
  have least : 0 < minPersistentBudgetBytes := by decide
  exact least.trans_le (Nat.le_max_right _ _)

section

variable (within : Within disk store calls)

include within

theorem Within.shrink (books : store.SameBooks nextStore)
    (unaccounted_eq : unaccounted nextCalls = unaccounted calls)
    (shrinks : Shrinks store.root disk calls next nextCalls) :
    Within next nextStore nextCalls := by
  rcases books with ⟨_, _, rfl⟩
  intro swept
  rcases within swept with ⟨bounded, undue⟩
  refine ⟨?_, undue⟩
  have less := @Shrinks.weigh_le _ _ _ _ _ shrinks (fun _ => true) (fun _ => true)
    (fun _ same => same) fun _ => 0
  simp only [standingBytes, owed, unaccounted_eq] at bounded ⊢
  exact less.trans bounded

theorem Within.quiet (books : store.SameBooks nextStore)
    (found : calls[callId]? = some call) (before : call.pc.offBooks = true)
    (after : pc.offBooks = true) (shorter : ∀ path, next.lengthAt path ≤ disk.lengthAt path) :
    Within next nextStore (calls.set callId { call with pc }) :=
  within.shrink books
    (unaccounted_set_of_ne found (DiskPc.ne_account_of_offBooks before)
      (DiskPc.ne_account_of_offBooks after))
    (shrinks_quiet found (DiskPc.writing?_of_offBooks before) (DiskPc.writing?_of_offBooks after)
      shorter)

theorem Within.publish (unshared : Unshared disk calls)
    (found : calls[callId]? = some call) {path temporary : Bytes} {file : ℕ}
    (pc : call.pc = .rename path temporary file) (named : disk.find temporary = some file) :
    Within (disk.rename temporary path) store (calls.set callId { call with pc := .account }) := by
  intro swept
  rcases within swept with ⟨bounded, undue⟩
  refine ⟨?_, undue⟩
  have added := @Unshared.weigh_publish store.root _ _ _ _ unshared found _ _ _ pc named
    (fun _ => true) (fun _ => true) (fun _ _ same => same) fun _ => 0
  simp only [standingBytes, owed] at bounded ⊢
  omega

theorem Within.rest (found : calls[callId]? = some call)
    {block : StoredBlock} (pc : call.pc = .account) (request : call.request.block? = some block)
    (undue : (store.counted block.encoded.length).bytesSinceSweep <
      (store.counted block.encoded.length).sweepInterval) :
    Within disk (store.counted block.encoded.length)
      (calls.set callId { call with pc := .returned (.answered true) }) := by
  intro swept
  rcases within swept with ⟨bounded, _⟩
  refine ⟨?_, undue⟩
  have paid := unaccounted_set found (.returned (.answered true))
  have owes : call.unaccounted = block.encoded.length := by
    simp [DiskCall.unaccounted, pc, request]
  have settled : { call with pc := .returned (.answered true) }.unaccounted = 0 := rfl
  have same : standing (calls.set callId { call with pc := .returned (.answered true) })
      store.root = standing calls store.root :=
    standing_set_of_quiet found (by rw [pc]; rfl) rfl
  have grows := (effectiveBudget_counted store block.encoded.length).1
  have root : (store.counted block.encoded.length).root = store.root := rfl
  have counted : (store.counted block.encoded.length).bytesSinceSweep =
      store.bytesSinceSweep + block.encoded.length := rfl
  simp only [standingBytes, owed, root, same, counted] at bounded ⊢
  omega

end

theorem Enforces.within {start : FileSystem StoredBlock} {sweep : Sweep}
    (enforces : Enforces start disk store call sweep.plan) (pc : call.pc = .endSweep sweep) :
    Within disk (store.endSweep sweep) calls := by
  intro _
  have progress := enforces.progress
  rw [pc] at progress
  rcases progress with ⟨stale, order, count, swept⟩
  refine ⟨?_, ?_⟩
  · have left := swept.weigh_le.trans swept.sizes_le
    rw [enforces.root, enforces.budget] at left
    have fewer : standingBytes disk calls store.root ≤
        disk.weigh (isUnder store.root) fun _ => 0 := by
      refine FileSystem.weigh_le fun path => ?_
      simp only [FileSystem.uncovered, standing, Bool.and_true, Bool.and_eq_true]
      split
      · rename_i stands
        rw [if_pos stands.1]
      · exact Nat.zero_le _
    exact (fewer.trans left).trans (Nat.le_add_right _ _)
  · have none_ : (store.endSweep sweep).bytesSinceSweep = 0 := enforces.counted
    rw [none_]
    exact sweepInterval_pos _

end Rests

/-! ### Runs -/

/-- The one call that is under way, and the rest between calls. -/
structure Sequence (system : DiskSystem) (process : DiskProcess) : Prop where
  alone : system.processes = [process]
  unshared : Unshared system.disk system.calls
  rooted : process.store.enabled = true → process.store.root.getLast? ≠ some pathSeparator
  turns : ∀ {callId : ℕ} {call : DiskCall}, system.calls[callId]? = some call →
    callId + 1 = system.calls.length ∨ ∃ result, call.pc = .returned result
  current : ∀ {callId : ℕ} {call : DiskCall}, system.calls[callId]? = some call →
    callId + 1 = system.calls.length → Underway system.disk process.store call
  resting : (∀ {callId : ℕ} {call : DiskCall}, system.calls[callId]? = some call →
    call.pc.sweep? = none) →
      process.store.sweeping = false ∧ Within system.disk process.store system.calls

section Runs

variable {system next : DiskSystem} {process : DiskProcess} {callId : ℕ} {call : DiskCall}
  {choice : Choice} {outcome : Outcome}

section

variable (sequence : Sequence system process) (found : system.calls[callId]? = some call)
    (last : callId + 1 = system.calls.length)

include sequence found last

theorem Sequence.unheld
    (quiet : call.pc.writing? = none) (path : Bytes) : held system.calls path = false := by
  rw [Bool.eq_false_iff]
  intro inUse
  rcases held_eq_true_iff.mp inUse with ⟨otherId, other, file, otherFound, writes⟩
  rcases sequence.turns otherFound with same | ⟨result, returned⟩
  · obtain rfl : otherId = callId := by omega
    obtain rfl := Option.some.inj (otherFound.symm.trans found)
    rw [quiet] at writes
    cases writes
  · rw [returned] at writes
    cases writes

theorem Sequence.rests (quiet : call.pc.sweep? = none) :
    process.store.sweeping = false ∧ Within system.disk process.store system.calls := by
  refine sequence.resting fun {otherId other} otherFound => ?_
  rcases sequence.turns otherFound with same | ⟨result, returned⟩
  · obtain rfl : otherId = callId := by omega
    obtain rfl := Option.some.inj (otherFound.symm.trans found)
    exact quiet
  · rw [returned]
    rfl

theorem Sequence.paid (settled : call.pc ≠ .account) : unaccounted system.calls = 0 := by
  refine List.sum_eq_zero fun amount mem => ?_
  rcases List.mem_map.mp mem with ⟨other, otherMem, rfl⟩
  rcases List.getElem?_of_mem otherMem with ⟨otherId, otherFound⟩
  refine DiskCall.unaccounted_of_ne ?_
  rcases sequence.turns otherFound with same | ⟨result, returned⟩
  · obtain rfl : otherId = callId := by omega
    obtain rfl := Option.some.inj (otherFound.symm.trans found)
    exact settled
  · rw [returned]
    nofun

end

theorem rooted_transition {disk : FileSystem StoredBlock}
    (rooted : process.store.enabled = true → process.store.root.getLast? ≠ some pathSeparator)
    (transition : DiskTransition disk process choice call outcome) :
    outcome.store.enabled = true → outcome.store.root.getLast? ≠ some pathSeparator := by
  cases transition with
  | moves books | finishes _ books =>
    rcases books with ⟨_, _, rfl⟩
    exact rooted
  | configures =>
    intro enabled
    simp only [DiskBlockStore.configure] at enabled ⊢
    split at enabled
    · cases enabled
    · rename_i named
      split at enabled
      · cases enabled
      · rename_i prepared
        rw [if_neg named, if_neg prepared]
        exact getLast?_root _
  | rests _ _ accounted =>
    rcases account_eq_none accounted with ⟨rfl, _⟩
    exact rooted
  | begins _ _ accounted =>
    rcases account_eq_some accounted with ⟨_, _, _, _, rfl⟩
    exact rooted
  | _ => exact rooted

section

variable (sequence : Sequence system process)

include sequence

/-- After a step of the one call that does not sweep, the store is at rest or begins to sweep. -/
theorem Sequence.within_transition
    (found : system.calls[callId]? = some call) (last : callId + 1 = system.calls.length)
    (orderly : Orderly system.disk choice call)
    (after : outcome.pc.sweep? = none)
    (transition : DiskTransition system.disk process choice call outcome) :
    outcome.store.sweeping = false ∧
      Within outcome.disk outcome.store (system.calls.set callId { call with pc := outcome.pc }) := by
  have same := SameBooks.refl process.store
  have rests : ∀ {pc : DiskPc}, call.pc = pc → pc.sweep? = none →
      process.store.sweeping = false ∧ Within system.disk process.store system.calls := by
    rintro _ rfl off
    exact sequence.rests found last off
  have unpaid : ∀ {before after : DiskPc}, call.pc = before → before ≠ .account →
      after ≠ .account → unaccounted (system.calls.set callId { call with pc := after }) =
        unaccounted system.calls := by
    rintro _ _ rfl
    exact unaccounted_set_of_ne found
  cases transition with
  | moves books before _ off =>
    rcases rests rfl (DiskPc.sweep?_of_offBooks before) with ⟨idle, within⟩
    refine ⟨?_, within.quiet books found before off fun _ => Nat.le_refl _⟩
    rcases books with ⟨_, _, rfl⟩
    exact idle
  | removes before _ off =>
    rcases rests rfl (DiskPc.sweep?_of_offBooks before) with ⟨idle, within⟩
    exact ⟨idle, within.quiet same found before off fun _ => lengthAt_remove_le _ _ _⟩
  | @configures options _ pc =>
    rcases rests pc rfl with ⟨idle, _⟩
    have fresh : (process.store.configure options choice.succeeds).sweeping =
        process.store.sweeping ∧
          (process.store.configure options choice.succeeds).swept = false := by
      simp only [DiskBlockStore.configure]
      split
      · exact ⟨rfl, rfl⟩
      · split <;> exact ⟨rfl, rfl⟩
    refine ⟨fresh.1.trans idle, fun swept => ?_⟩
    rw [fresh.2] at swept
    cases swept
  | clears pc => exact ⟨(rests pc rfl).1, by rintro ⟨⟩⟩
  | creates pc =>
    rcases rests pc rfl with ⟨idle, within⟩
    exact ⟨idle, within.shrink ⟨_, _, rfl⟩ (unpaid pc (by simp) (by simp))
      (sequence.unshared.shrinks_create found (by rw [pc]; rfl) rfl _)⟩
  | writes pc =>
    rcases rests pc rfl with ⟨idle, within⟩
    exact ⟨idle, within.shrink same (unpaid pc (by simp) (by simp))
      (sequence.unshared.shrinks_write found (by rw [pc]; rfl) rfl _)⟩
  | completes pc =>
    rcases rests pc rfl with ⟨idle, within⟩
    exact ⟨idle, within.shrink same (unpaid pc (by simp) (by simp))
      (shrinks_complete found (by rw [pc]; rfl) rfl)⟩
  | publishes pc present =>
    rcases rests pc rfl with ⟨idle, within⟩
    rcases Option.isSome_iff_exists.mp present with ⟨other, named⟩
    obtain rfl := (sequence.unshared.files found (by rw [pc]; rfl)).named named
    exact ⟨idle, within.publish sequence.unshared found pc named⟩
  | @fails temporary file target writes absent =>
    have quiet := DiskPc.of_writing writes
    rcases rests rfl quiet.1 with ⟨idle, within⟩
    exact ⟨idle, within.shrink same (unpaid rfl quiet.2.1 (by simp))
      (shrinks_fail found writes rfl (absent (orderly.succeeds quiet.2.2)))⟩
  | rests pc request accounted =>
    rcases rests pc rfl with ⟨idle, within⟩
    have enabled := sequence.current found last
    rw [Underway, pc] at enabled
    rcases account_eq_none accounted with
      ⟨rfl, ⟨_, undue⟩ | claimed | disabled⟩
    · exact ⟨idle, within.rest found pc request undue⟩
    · rw [idle] at claimed
      cases claimed
    · rw [enabled.1] at disabled
      cases disabled
  | ends pc =>
    have underway := sequence.current found last
    rw [Underway, pc] at underway
    rcases underway with ⟨start, enforces⟩
    exact ⟨rfl, enforces.within pc⟩
  | opens before =>
    rcases rests rfl (DiskPc.sweep?_of_offBooks before) with ⟨idle, within⟩
    exact ⟨idle, within.quiet same found before rfl fun _ => Nat.le_refl _⟩
  | reads pc | decodes pc =>
    rcases rests pc rfl with ⟨idle, within⟩
    exact ⟨idle, within.quiet same found (by rw [pc]; rfl) rfl fun _ => Nat.le_refl _⟩
  | finishes pc books =>
    rcases rests pc rfl with ⟨idle, within⟩
    refine ⟨?_, within.quiet books found (by rw [pc]; rfl) rfl fun _ => Nat.le_refl _⟩
    rcases books with ⟨_, _, rfl⟩
    exact idle
  | begins | lingers | visits | overflows | fits | trims | skips | settles => cases after

theorem Sequence.last (found : system.calls[callId]? = some call)
    (advanced : advance system.disk process choice call = some outcome) :
    callId + 1 = system.calls.length := by
  rcases sequence.turns found with last | ⟨result, returned⟩
  · exact last
  · rw [advance_returned returned] at advanced
    cases advanced

theorem Sequence.step (found : system.calls[callId]? = some call)
    (processFound : system.processes[call.process]? = some process)
    (allowed : system.sequential (.step callId choice) = true)
    (advanced : advance system.disk process choice call = some outcome) :
    Sequence (system.after callId call process outcome)
      { process with store := outcome.store } := by
  have orderly := DiskSystem.sequential_step found allowed
  have transition := transition_of_advance (sequence.unshared.routed found) advanced
  have last := sequence.last found advanced
  have length : (system.calls.set callId { call with pc := outcome.pc }).length =
      system.calls.length := List.length_set
  have first : call.process = 0 := by
    rw [sequence.alone] at processFound
    by_contra other
    rw [List.getElem?_eq_none (by simp; omega)] at processFound
    cases processFound
  have own : (system.calls.set callId { call with pc := outcome.pc })[callId]? =
      some { call with pc := outcome.pc } :=
    List.getElem?_set_self (List.getElem?_eq_some_iff.mp found).1
  refine ⟨?_, ?_, rooted_transition sequence.rooted transition, ?_, ?_, ?_⟩
  · simp [DiskSystem.after, sequence.alone, first]
  · exact sequence.unshared.transition found
      (fun pc => sequence.unheld found last (by rw [pc]; rfl) _) transition
  · intro otherId other otherFound
    rw [DiskSystem.after, length]
    rcases getElem?_set_cases otherFound with ⟨rfl, _⟩ | ⟨_, before⟩
    · exact Or.inl last
    · exact sequence.turns before
  · intro otherId other otherFound otherLast
    rw [DiskSystem.after, length] at otherLast
    obtain rfl : otherId = callId := by omega
    obtain rfl := Option.some.inj (own.symm.trans otherFound)
    exact (sequence.current found last).transition sequence.unshared found
      (fun quiet => (sequence.rests found last quiet).1) orderly transition
  · intro idle
    exact sequence.within_transition found last orderly (idle own) transition

theorem Sequence.append (returned : ∀ call ∈ system.calls, call.pc.hasReturned = true) (caller : ℕ)
    (request : DiskRequest) :
    Sequence { system with calls := system.calls ++ [{ process := caller, request }] } process := by
  refine ⟨sequence.alone, sequence.unshared.append caller request, sequence.rooted, ?_, ?_, ?_⟩
  · intro callId call found
    rcases getElem?_append_singleton found with before | ⟨rfl, _⟩
    · have done := returned call (List.mem_of_getElem? before)
      cases at_ : call.pc with
      | returned result => exact Or.inr ⟨result, rfl⟩
      | _ =>
        rw [at_] at done
        cases done
    · exact Or.inl (by simp)
  · intro callId call found last
    rcases getElem?_append_singleton found with before | ⟨_, rfl⟩
    · have bound := (List.getElem?_eq_some_iff.mp before).1
      simp only [List.length_append, List.length_singleton] at last
      omega
    · trivial
  · intro idle
    rcases sequence.resting fun found => idle (getElem?_append_of_some _ found) with ⟨free, within⟩
    refine ⟨free, fun swept => ?_⟩
    simpa only [standingBytes, owed, standing_append, unaccounted_append] using within swept

theorem Sequence.tick (seconds : ℕ) : Sequence { system with disk := { system.disk with now := system.disk.now + seconds } }
      process where
  alone := sequence.alone
  unshared := sequence.unshared.dropNames rfl id
  rooted := sequence.rooted
  turns := sequence.turns
  current found last := (sequence.current found last).tick seconds
  resting := sequence.resting

end

/-- The one call sweeps, or it has returned. -/
def SweepsFrom (start : FileSystem StoredBlock) (callId : ℕ) (request : DiskRequest)
    (plan : SweepPlan) (system : DiskSystem) (process : DiskProcess) : Prop :=
  ∃ call, system.calls[callId]? = some call ∧ call.request = request ∧
    ((∃ result, call.pc = .returned result) ∨
      ∃ sweep, call.pc.sweep? = some sweep ∧ sweep.plan = plan ∧
        Enforces start system.disk process.store call sweep.plan)

/-- The steps of a sequential run, with what they keep of a sweep in particular. -/
theorem Sequence.event {event : DiskEvent} (sequence : Sequence system process)
    (allowed : system.sequential event = true) (stepped : system.step event = some next) :
    ∃ nextProcess, Sequence next nextProcess ∧
      ∀ {start : FileSystem StoredBlock} {callId : ℕ} {request : DiskRequest} {plan : SweepPlan},
        SweepsFrom start callId request plan system process →
          SweepsFrom start callId request plan next nextProcess := by
  cases event with
  | step stepId choice =>
    rcases Option.bind_eq_some_iff.mp stepped with ⟨call, found, stepped⟩
    rcases Option.bind_eq_some_iff.mp stepped with ⟨owner, ownerFound, stepped⟩
    rcases Option.map_eq_some_iff.mp stepped with ⟨outcome, advanced, rfl⟩
    obtain rfl : process = owner := by
      have mem := List.mem_of_getElem? ownerFound
      rw [sequence.alone, List.mem_singleton] at mem
      exact mem.symm
    refine ⟨_, sequence.step found ownerFound allowed advanced, ?_⟩
    rintro start callId request plan ⟨sweeper, sweeperFound, asked, state⟩
    by_cases same : callId = stepId
    · subst same
      obtain rfl := Option.some.inj (sweeperFound.symm.trans found)
      have own : (system.calls.set callId { sweeper with pc := outcome.pc })[callId]? =
          some { sweeper with pc := outcome.pc } :=
        List.getElem?_set_self (List.getElem?_eq_some_iff.mp found).1
      refine ⟨_, own, asked, ?_⟩
      rcases state with ⟨result, returned⟩ | ⟨sweep, sweeps, rfl, enforces⟩
      · rw [advance_returned returned] at advanced
        cases advanced
      · have orderly := DiskSystem.sequential_step found allowed
        have transition := transition_of_advance (sequence.unshared.routed found) advanced
        rcases enforces.transition sweeps orderly transition with
          ⟨later, going, plan, _, still⟩ | ⟨_, rfl⟩
        · exact Or.inr ⟨later, going, plan, still⟩
        · exact Or.inl ⟨_, rfl⟩
    · have last := sequence.last found advanced
      refine ⟨sweeper, ?_, asked, ?_⟩
      · rw [DiskSystem.after, List.getElem?_set_ne (Ne.symm same)]
        exact sweeperFound
      · rcases sequence.turns sweeperFound with also | returned
        · omega
        · exact Or.inl returned
  | call caller request =>
    rcases Option.bind_eq_some_iff.mp stepped with ⟨owner, _, begun⟩
    have returned : ∀ call ∈ system.calls, call.pc.hasReturned = true := by
      simpa only [DiskSystem.sequential, List.all_eq_true] using allowed
    split at begun
    · cases begun
      refine ⟨process, sequence.append returned caller request, ?_⟩
      rintro start callId request plan ⟨sweeper, found, asked, state⟩
      refine ⟨sweeper, getElem?_append_of_some _ found, asked, ?_⟩
      exact state
    · cases begun
  | tick seconds =>
    cases stepped
    refine ⟨process, sequence.tick seconds, ?_⟩
    rintro start callId request plan ⟨sweeper, found, asked, state⟩
    refine ⟨sweeper, found, asked, state.imp_right ?_⟩
    rintro ⟨sweep, sweeps, same, enforces⟩
    exact ⟨sweep, sweeps, same, enforces.tick seconds⟩
  | _ => cases allowed

def Sequenced (system : DiskSystem) : Prop := ∃ process, Sequence system process

def SequencedSweep (start : FileSystem StoredBlock) (callId : ℕ) (request : DiskRequest)
    (plan : SweepPlan) (system : DiskSystem) : Prop :=
  ∃ process, Sequence system process ∧ SweepsFrom start callId request plan system process

theorem sequenced_step {event : DiskEvent} (sequenced : Sequenced system)
    (allowed : system.sequential event = true) (stepped : system.step event = some next) :
    Sequenced next := by
  rcases sequenced with ⟨process, sequence⟩
  rcases sequence.event allowed stepped with ⟨nextProcess, still, _⟩
  exact ⟨nextProcess, still⟩

theorem sequencedSweep_step {event : DiskEvent} {start : FileSystem StoredBlock}
    {request : DiskRequest} {plan : SweepPlan}
    (sequenced : SequencedSweep start callId request plan system)
    (allowed : system.sequential event = true) (stepped : system.step event = some next) :
    SequencedSweep start callId request plan next := by
  rcases sequenced with ⟨process, sequence, sweeps⟩
  rcases sequence.event allowed stepped with ⟨nextProcess, still, kept⟩
  exact ⟨nextProcess, still, kept sweeps⟩

theorem sequence_over (now : ℕ) (contents : List (Bytes × File StoredBlock)) (nonce : UInt64) :
    Sequence (.onDisk now contents nonce) { nonce } where
  alone := rfl
  unshared := ⟨FileSystem.tidy_holding now contents, by simp [DiskSystem.onDisk],
    by simp [DiskSystem.onDisk], by simp [DiskSystem.onDisk]⟩
  rooted := nofun
  turns := by simp [DiskSystem.onDisk]
  current := by simp [DiskSystem.onDisk]
  resting _ := ⟨rfl, nofun⟩

theorem Sequence.begun (sequence : Sequence system process)
    (found : system.calls[callId]? = some call) {plan : SweepPlan}
    (pc : call.pc = .walk { plan }) :
    Enforces system.disk system.disk process.store call plan := by
  have last : callId + 1 = system.calls.length := by
    rcases sequence.turns found with last | ⟨result, returned⟩
    · exact last
    · rw [pc] at returned
      cases returned
  have underway := sequence.current found last
  rw [Underway, pc] at underway
  rcases underway with ⟨start, enforces⟩
  have progress := enforces.progress
  rw [pc] at progress
  rcases progress with ⟨stale, walking⟩
  have unchanged : ∀ path, system.disk.fileAt path = start.fileAt path := by
    intro path
    rw [walking.files, if_neg]
    intro mem
    cases (walking.onlyOld mem).1
  refine { enforces with progress := ?_, entry := ?_ }
  · rw [pc]
    exact ⟨[], walking_start _ _⟩
  · rcases enforces.entry with ⟨block, file, stores, present, small⟩
    exact ⟨block, file, stores, by rw [unchanged, present], small⟩

end Runs

/-! ### The budget -/

def bytesUnder (disk : FileSystem StoredBlock) (root : Bytes) : ℕ :=
  disk.weigh (isUnder root) fun _ => 0

/--
What a sweep that a block made due did to the directory: it removed what it had to, and
it left the entry of the block alone if that is newer than everything else.
-/
structure Enforced (plan : SweepPlan) (block : StoredBlock) (start disk : FileSystem StoredBlock) :
    Prop where
  swept : ∃ stale order count, SweptBy plan start disk stale order count
  entry : ∃ file, start.fileAt (pathFor plan.root (nameFor (digestOf block.key))) = some file ∧
    ((∀ {other : Bytes} {older : File StoredBlock},
      other ≠ pathFor plan.root (nameFor (digestOf block.key)) → isUnder plan.root other = true →
        start.fileAt other = some older → older.written < file.written) →
      disk.fileAt (pathFor plan.root (nameFor (digestOf block.key))) = some file)

theorem Enforces.enforced {start disk : FileSystem StoredBlock} {store : DiskBlockStore}
    {call : DiskCall} {sweep : Sweep} (enforces : Enforces start disk store call sweep.plan)
    (rooted : store.enabled = true → store.root.getLast? ≠ some pathSeparator)
    (pc : call.pc = .endSweep sweep) :
    ∃ block, call.request.block? = some block ∧ Enforced sweep.plan block start disk := by
  have progress := enforces.progress
  rw [pc] at progress
  rcases progress with ⟨stale, order, count, swept⟩
  rcases enforces.entry with ⟨block, file, stores, present, small⟩
  refine ⟨block, stores, ⟨stale, order, count, swept⟩, file, ?_, fun newest => ?_⟩
  · rw [enforces.root]
    exact present
  · rw [enforces.root] at newest ⊢
    refine swept.keeps_newest ?_ (isTemporary_of_isEntryPath (isEntryPath_pathFor _ _)) present ?_ ?_
    · rw [enforces.root]
      exact isUnder_pathFor (rooted enforces.enabled) _
    · rw [enforces.budget]
      exact small
    · intro other older different under
      rw [enforces.root] at under
      exact newest different under

/--
One process makes one call after another over a directory with any content, and no
operation on the file system fails.  After a successful store the directory holds at most
the budget and one interval between sweeps.  A sweep that has begun with one state of the
directory and come to its end removes the old temporaries, and where the rest exceeds its
budget the shortest oldest-first prefix of it; the entry that made it due stays, if it is
the newest file.
-/
theorem disk_budget_is_enforced {now : ℕ} {contents : List (Bytes × File StoredBlock)}
    {nonce : UInt64} {before between : List DiskEvent} {middle system : DiskSystem}
    (sequential : AllowedRun DiskSystem.step (fun system event => system.sequential event = true)
      (.onDisk now contents nonce) (before ++ between))
    (begun : run DiskSystem.step (.onDisk now contents nonce) before = some middle)
    (reached : run DiskSystem.step middle between = some system) :
    (∀ process ∈ system.processes, ∀ {call : DiskCall} {key : CacheKey} {persistable : Bool}
      {payload : Option Bytes}, system.calls.getLast? = some call →
        call.request = .store key persistable payload → call.pc = .returned (.answered true) →
          bytesUnder system.disk process.store.root ≤
            process.store.effectiveBudget + process.store.sweepInterval) ∧
    ∀ process ∈ system.processes, ∀ {callId : ℕ} {call finished : DiskCall} {plan : SweepPlan}
      {sweep : Sweep}, middle.calls[callId]? = some call → call.pc = .walk { plan } →
        system.calls[callId]? = some finished → finished.pc = .endSweep sweep →
          plan.root = process.store.root ∧ plan.budget = process.store.effectiveBudget ∧
            ∃ block, call.request.block? = some block ∧
              Enforced plan block middle.disk system.disk := by
  rcases allowedRun_append.mp sequential with ⟨first, second⟩
  have atMiddle : Sequenced middle :=
    invariant_of_allowedRun sequenced_step ⟨_, sequence_over now contents nonce⟩ first begun
  have atEnd : Sequenced system :=
    invariant_of_allowedRun sequenced_step atMiddle (second middle begun) reached
  refine ⟨?_, ?_⟩
  · intro owner ownerMem call key persistable payload lastCall request pc
    rcases atEnd with ⟨process, sequence⟩
    rw [sequence.alone, List.mem_singleton] at ownerMem
    subst ownerMem
    have found : system.calls[system.calls.length - 1]? = some call := by
      rw [← List.getLast?_eq_getElem?]
      exact lastCall
    have some_ : 0 < system.calls.length := by
      have := (List.getElem?_eq_some_iff.mp found).1
      omega
    have last : system.calls.length - 1 + 1 = system.calls.length := by omega
    have swept := sequence.current found last
    rw [Underway, pc] at swept
    rcases (sequence.rests found last (by rw [pc]; rfl)).2
      (swept (by rw [request]; simp)) with ⟨bounded, undue⟩
    have all : standingBytes system.disk system.calls owner.store.root =
        bytesUnder system.disk owner.store.root := by
      simp only [standingBytes, standing, sequence.unheld found last (by rw [pc]; rfl),
        Bool.not_false, Bool.and_true]
      rfl
    rw [all, owed, sequence.paid found last (by rw [pc]; simp)] at bounded
    omega
  · intro owner ownerMem callId call finished plan sweep callFound callPc finishedFound finishedPc
    rcases atMiddle with ⟨beginner, sequence⟩
    have sweeps : SequencedSweep middle.disk callId call.request plan middle := by
      refine ⟨beginner, sequence, call, callFound, rfl, Or.inr ⟨{ plan }, by rw [callPc]; rfl, rfl, ?_⟩⟩
      exact sequence.begun callFound callPc
    have kept : SequencedSweep middle.disk callId call.request plan system :=
      invariant_of_allowedRun sequencedSweep_step sweeps (second middle begun) reached
    rcases kept with ⟨process, ended, sweeper, sweeperFound, asked, state⟩
    rw [ended.alone, List.mem_singleton] at ownerMem
    subst ownerMem
    obtain rfl := Option.some.inj (sweeperFound.symm.trans finishedFound)
    rcases state with ⟨result, returned⟩ | ⟨same, going, rfl, enforces⟩
    · rw [finishedPc] at returned
      cases returned
    · rw [finishedPc] at going
      cases going
      refine ⟨enforces.root, enforces.budget, ?_⟩
      rw [← asked]
      exact enforces.enforced ended.rooted finishedPc

/-! A store over a directory with an old temporary, up to its sweep, to the end of that, and on. -/

def staleSample : List (Bytes × File StoredBlock) :=
  [(bytes "/c/blocks-v1/00/x.tmp", ⟨bytes "XY", 0, ⟨sampleKey, []⟩⟩)]

def untilSweep : List DiskEvent :=
  [DiskEvent.tick 4000, DiskEvent.call 0 (.configure { directory := bytes "/c" }),
    DiskEvent.step 0 {}, DiskEvent.call 0 (.store sampleKey true (some (bytes "A")))] ++
    List.replicate 7 (DiskEvent.step 1 { count := 100 })

def wholeSweep : List DiskEvent :=
  [.step 1 { path := bytes "/c/blocks-v1/00/x.tmp" },
    .step 1 { path := pathFor (bytes "/c/blocks-v1") (nameFor (digestOf sampleKey)) },
    .step 1 { succeeds := false }]

/-- Whether the sweep of a call was at its start, and whether it took anything away. -/
def sweptBetween (before after : FileSystem StoredBlock) (first last : DiskPc) :
    Option (Bool × Bool) :=
  match first, last with
  | .walk sweep, .endSweep _ =>
      some (sweep == { plan := sweep.plan },
        decide (bytesUnder after sweep.plan.root < bytesUnder before sweep.plan.root))
  | _, _ => none

theorem disk_budget_is_enforced_sample :
    (∃ middle system plan block, run DiskSystem.step (.onDisk 0 staleSample 1) untilSweep = some middle ∧
      run DiskSystem.step middle wholeSweep = some system ∧
        Enforced plan block middle.disk system.disk ∧
        bytesUnder system.disk plan.root < bytesUnder middle.disk plan.root) ∧
    ∃ system process, run DiskSystem.step (.onDisk 0 staleSample 1)
        (untilSweep ++ wholeSweep ++ [.step 1 {}]) = some system ∧ process ∈ system.processes ∧
      bytesUnder system.disk process.store.root ≤
        process.store.effectiveBudget + process.store.sweepInterval := by
  have sequential : AllowedRun DiskSystem.step (fun system event => system.sequential event = true)
      (.onDisk 0 staleSample 1) (untilSweep ++ wholeSweep ++ [.step 1 {}]) := by
    decide +kernel
  refine ⟨?_, ?_⟩
  · have observed : ((run DiskSystem.step (.onDisk 0 staleSample 1) untilSweep).bind fun middle =>
        (run DiskSystem.step middle wholeSweep).bind fun system =>
          middle.calls[1]?.bind fun call => system.calls[1]?.bind fun finished =>
            system.processes[0]?.bind fun _ =>
              sweptBetween middle.disk system.disk call.pc finished.pc) = some (true, true) := by
      decide +kernel
    rcases Option.bind_eq_some_iff.mp observed with ⟨middle, begun, observed⟩
    rcases Option.bind_eq_some_iff.mp observed with ⟨system, reached, observed⟩
    rcases Option.bind_eq_some_iff.mp observed with ⟨call, callFound, observed⟩
    rcases Option.bind_eq_some_iff.mp observed with ⟨finished, finishedFound, observed⟩
    rcases Option.bind_eq_some_iff.mp observed with ⟨process, processFound, observed⟩
    unfold sweptBetween at observed
    split at observed
    · rename_i first last callPc finishedPc
      simp only [Option.some.injEq, Prod.mk.injEq, beq_iff_eq, decide_eq_true_eq] at observed
      rw [observed.1] at callPc
      have enforced := (disk_budget_is_enforced (allowedRun_append.mp sequential).1 begun
        reached).2 process (List.mem_of_getElem? processFound) callFound callPc finishedFound
        finishedPc
      rcases enforced with ⟨_, _, block, _, enforced⟩
      exact ⟨middle, system, first.plan, block, begun, reached, enforced, observed.2⟩
    · cases observed
  · have observed : ((run DiskSystem.step (.onDisk 0 staleSample 1)
        (untilSweep ++ wholeSweep ++ [.step 1 {}])).bind fun system =>
          system.processes[0]?.bind fun _ => system.calls.getLast?.map fun call =>
            (call.request == .store sampleKey true (some (bytes "A")),
              call.pc == .returned (.answered true))) = some (true, true) := by
      decide +kernel
    rcases Option.bind_eq_some_iff.mp observed with ⟨system, reached, observed⟩
    rcases Option.bind_eq_some_iff.mp observed with ⟨process, processFound, observed⟩
    rcases Option.map_eq_some_iff.mp observed with ⟨call, last, observed⟩
    simp only [Prod.mk.injEq, beq_iff_eq] at observed
    have mem := List.mem_of_getElem? processFound
    have bounded := (@disk_budget_is_enforced 0 staleSample 1 [] _ _ _ sequential rfl reached).1
      process mem last observed.1 observed.2
    exact ⟨system, process, reached, mem, bounded⟩

end UsdAsset.Cache
