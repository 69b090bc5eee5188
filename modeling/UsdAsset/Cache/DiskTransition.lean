import UsdAsset.Cache.DiskStore

/-!
# What one step of the persistent tier can do

`DiskTransition` says it once: for each kind of step, where the call was, what the file
system did, and what became of the disk, the store of the process and the call.  Nothing
after this module unfolds a step again.
-/

namespace UsdAsset.Cache

open ByteString

variable {pc : DiskPc} {key : CacheKey}

/-! ### Where a call is -/

/-- The temporary and the file that a call is writing to. -/
def DiskPc.writing? : DiskPc → Option (Bytes × ℕ)
  | .write _ temporary file _ => some (temporary, file)
  | .rename _ temporary file => some (temporary, file)
  | _ => none

/-- Where a call has neither a file open nor a payload in hand. -/
def DiskPc.idle : DiskPc → Bool
  | .write .. | .rename .. | .read .. => false
  | .finish (.ok _) => false
  | .returned (.loaded (some _)) => false
  | _ => true

def DiskPc.sweep? : DiskPc → Option Sweep
  | .walk sweep | .trim sweep _ | .endSweep sweep => some sweep
  | _ => none

/-- Where a call neither writes, nor owes an account of what it wrote, nor sweeps. -/
def DiskPc.offBooks : DiskPc → Bool
  | .write .. | .rename .. | .account | .walk _ | .trim .. | .endSweep _ => false
  | _ => true

theorem DiskPc.writing?_of_offBooks (off : pc.offBooks = true) :
    pc.writing? = none := by
  cases pc <;> first | rfl | cases off

theorem DiskPc.sweep?_of_offBooks (off : pc.offBooks = true) : pc.sweep? = none := by
  cases pc <;> first | rfl | cases off

theorem DiskPc.of_writing {writing : Bytes × ℕ} (writes : pc.writing? = some writing) :
    pc.sweep? = none ∧ pc ≠ .account ∧ ∀ sweep, pc ≠ .walk sweep := by
  cases pc with
  | write | rename => exact ⟨rfl, nofun, nofun⟩
  | _ => cases writes

theorem DiskPc.of_sweeping {sweep : Sweep} (sweeps : pc.sweep? = some sweep) :
    pc.writing? = none ∧ pc ≠ .account := by
  cases pc with
  | walk | trim | endSweep => exact ⟨rfl, nofun⟩
  | _ => cases sweeps

theorem Sweep.plan_visit (sweep : Sweep) (path : Bytes) (file : Option (File StoredBlock))
    (now : ℕ) : (sweep.visit path file now).2.plan = sweep.plan := by
  simp only [Sweep.visit]
  split
  · rfl
  · split <;> rfl

def DiskRequest.block? : DiskRequest → Option StoredBlock
  | .store key _ (some payload) => some ⟨key, payload⟩
  | _ => none

/-- The call is a store that is allowed to write. -/
def DiskCall.Stores (call : DiskCall) (block : StoredBlock) : Prop :=
  call.request = .store block.key true (some block.payload) ∧
    block.payload.length ≤ maxEntryPayload

/-- A call that is about to write is a store that may, to the path of an entry. -/
def DiskCall.Routed (call : DiskCall) : Prop :=
  match call.pc with
  | .makeDirectories path | .openTemporary path | .write path _ _ _ | .rename path _ _ =>
      isEntryPath path = true ∧ ∃ block, call.Stores block
  | _ => True

theorem isEntryPath_pathFor (root name : Bytes) : isEntryPath (pathFor root name) = true := by
  have suffix : ∀ directory : Bytes, entrySuffix <:+ joinPath directory (name ++ entrySuffix) := by
    intro directory
    simp only [joinPath]
    split
    · exact ⟨directory ++ name, by simp⟩
    · exact ⟨directory ++ [pathSeparator] ++ name, by simp⟩
  exact List.isSuffixOf_iff_suffix.mpr (suffix _)

theorem isEntryPath_temporaryFor (path : Bytes) (nonce counter : UInt64) :
    isEntryPath (temporaryFor path nonce counter) = false := by
  rw [isEntryPath, Bool.eq_false_iff, Ne, List.isSuffixOf_iff_suffix]
  intro entry
  have temporary : tempSuffix <:+ temporaryFor path nonce counter :=
    ⟨path ++ bytes "." ++ hexOf nonce ++ bytes "." ++ hexOf counter, rfl⟩
  have same : entrySuffix <:+ tempSuffix :=
    List.suffix_of_suffix_length_le entry temporary (by decide)
  exact absurd (same.eq_of_length (by decide)) (by decide)

section Stores

variable {call : DiskCall}

theorem DiskCall.Stores.of_request {persistable : Bool} {payload : Bytes}
    (request : call.request = .store key persistable (some payload))
    (stores : ∃ block, call.Stores block) : call.Stores ⟨key, payload⟩ := by
  rcases stores with ⟨⟨otherKey, otherPayload⟩, same, bounded⟩
  have both := same.symm.trans request
  simp only [DiskRequest.store.injEq, Option.some.injEq] at both
  rcases both with ⟨rfl, rfl, rfl⟩
  exact ⟨same, bounded⟩

theorem DiskCall.Stores.block? {block : StoredBlock} (stores : call.Stores block) :
    call.request.block? = some block := by
  rw [stores.1]
  rfl

theorem DiskCall.Stores.unique {first second : StoredBlock} (stores : call.Stores first)
    (also : call.Stores second) : first = second :=
  Option.some.inj (stores.block?.symm.trans also.block?)

end Stores

/-! ### Where a call came from -/

/--
Where a call was before it came to a place: only a store of an enabled tier gets to write,
to the path of its entry, and it is the account or the end of a sweep that lets it succeed.
-/
def Departs (store : DiskBlockStore) (call : DiskCall) : DiskPc → Prop
  | .makeDirectories path =>
      store.enabled = true ∧ ∃ block, call.request.block? = some block ∧
        path = pathFor store.root (nameFor (digestOf block.key))
  | .openTemporary path => call.pc = .makeDirectories path
  | .returned (.answered true) =>
      (∀ options, call.request ≠ .configure options) →
        call.pc = .account ∨ ∃ sweep, call.pc = .endSweep sweep
  | _ => True

/-- The places that a call gets to from anywhere, and with nothing in hand. -/
def DiskPc.plain : DiskPc → Bool
  | .makeDirectories _ | .openTemporary _ | .read .. => false
  | .finish (.ok _) | .returned (.loaded (some _)) | .returned (.answered true) => false
  | pc => pc.offBooks

theorem DiskPc.of_plain (store : DiskBlockStore) (call : DiskCall) (plain : pc.plain = true) :
    pc.idle = true ∧ pc.offBooks = true ∧ { call with pc }.Routed ∧ Departs store call pc := by
  cases pc with
  | finish outcome => cases outcome <;> first | exact ⟨rfl, rfl, trivial, trivial⟩ | cases plain
  | returned result =>
    rcases result with ⟨_ | _⟩ | ⟨_ | _⟩ | _ <;>
      first | exact ⟨rfl, rfl, trivial, trivial⟩ | cases plain
  | _ => first | exact ⟨rfl, rfl, trivial, trivial⟩ | cases plain

/-! ### Transitions -/

/-- Stores that differ in their statistics and their temporary names only. -/
def DiskBlockStore.SameBooks (store other : DiskBlockStore) : Prop :=
  ∃ tempCounter stats, other = { store with tempCounter, stats }

@[refl]
theorem DiskBlockStore.SameBooks.refl (store : DiskBlockStore) : store.SameBooks store :=
  ⟨store.tempCounter, store.stats, rfl⟩

/-- The steps of a call, one constructor for each thing a step can do. -/
inductive DiskTransition (disk : FileSystem StoredBlock) (process : DiskProcess) (choice : Choice)
    (call : DiskCall) : Outcome → Prop where
  | moves {store : DiskBlockStore} {pc : DiskPc} (books : process.store.SameBooks store)
      (before : call.pc.offBooks = true) (idle : pc.idle = true) (after : pc.offBooks = true)
      (routed : { call with pc }.Routed) (departs : Departs process.store call pc) :
      DiskTransition disk process choice call ⟨disk, store, pc⟩
  | removes {path : Bytes} {pc : DiskPc} (before : call.pc.offBooks = true) (idle : pc.idle = true)
      (after : pc.offBooks = true) (routed : { call with pc }.Routed)
      (departs : Departs process.store call pc) :
      DiskTransition disk process choice call ⟨disk.remove path, process.store, pc⟩
  | configures {options : DiskCacheOptions} {result : DiskResult} (pc : call.pc = .start)
      (request : call.request = .configure options) (idle : (DiskPc.returned result).idle = true) :
      DiskTransition disk process choice call
        ⟨disk, process.store.configure options choice.succeeds, .returned result⟩
  | clears (pc : call.pc = .start) (request : call.request = .clear)
      (enabled : process.store.enabled = true) :
      DiskTransition disk process choice call
        ⟨disk.removeUnder (process.store.root ++ [pathSeparator]), process.store.clear,
          .returned .cleared⟩
  | creates {block : StoredBlock} {path : Bytes} (pc : call.pc = .openTemporary path)
      (stores : call.Stores block) (succeeds : choice.succeeds = true) :
      DiskTransition disk process choice call
        ⟨(disk.create (temporaryFor path process.nonce process.store.tempCounter) block).1,
          { process.store with tempCounter := process.store.tempCounter + 1 },
          .write path (temporaryFor path process.nonce process.store.tempCounter)
            (disk.create (temporaryFor path process.nonce process.store.tempCounter) block).2 0⟩
  | writes {block : StoredBlock} {path temporary : Bytes} {file count : ℕ}
      (pc : call.pc = .write path temporary file count) (stores : call.Stores block) :
      DiskTransition disk process choice call
        ⟨disk.writeAt file count (slice block.encoded count choice.count), process.store,
          .write path temporary file
            (count + (slice block.encoded count choice.count).length)⟩
  | completes {block : StoredBlock} {path temporary : Bytes} {file count : ℕ}
      (pc : call.pc = .write path temporary file count) (stores : call.Stores block)
      (complete : block.encoded.length ≤ count) :
      DiskTransition disk process choice call ⟨disk, process.store, .rename path temporary file⟩
  | publishes {path temporary : Bytes} {file : ℕ} (pc : call.pc = .rename path temporary file)
      (present : (disk.find temporary).isSome = true) :
      DiskTransition disk process choice call
        ⟨disk.rename temporary path, process.store, .account⟩
  | fails {temporary : Bytes} {file : ℕ} {target : Option Bytes}
      (writes : call.pc.writing? = some (temporary, file))
      (absent : choice.succeeds = true → disk.find temporary = none) :
      DiskTransition disk process choice call
        ⟨disk, process.store, .abandon temporary target⟩
  | rests {block : StoredBlock} {store : DiskBlockStore} (pc : call.pc = .account)
      (request : call.request.block? = some block)
      (accounted : process.store.account block.encoded.length = (none, store)) :
      DiskTransition disk process choice call ⟨disk, store, .returned (.answered true)⟩
  | begins {block : StoredBlock} {store : DiskBlockStore} {plan : SweepPlan}
      (pc : call.pc = .account) (request : call.request.block? = some block)
      (accounted : process.store.account block.encoded.length = (some plan, store)) :
      DiskTransition disk process choice call ⟨disk, store, .walk { plan }⟩
  | lingers {sweep : Sweep} (pc : call.pc = .walk sweep) :
      DiskTransition disk process choice call ⟨disk, process.store, .walk sweep⟩
  | visits {sweep : Sweep} {path : Bytes} (pc : call.pc = .walk sweep)
      (unvisited : path ∉ sweep.visited)
      (under : (sweep.plan.root ++ [pathSeparator]).isPrefixOf path = true) :
      DiskTransition disk process choice call
        ⟨if (sweep.visit path (disk.fileAt path) disk.now).1 then disk.remove path else disk,
          process.store, .walk (sweep.visit path (disk.fileAt path) disk.now).2⟩
  | overflows {sweep : Sweep} (pc : call.pc = .walk sweep) (walked : choice.succeeds = false)
      (exceeds : sweep.plan.budget < sweep.total) :
      DiskTransition disk process choice call ⟨disk, process.store, .trim sweep sweep.ordered⟩
  | fits {sweep : Sweep} (pc : call.pc = .walk sweep) (walked : choice.succeeds = false)
      (fits : sweep.total ≤ sweep.plan.budget) :
      DiskTransition disk process choice call ⟨disk, process.store, .endSweep sweep⟩
  | trims {sweep : Sweep} {candidate : Candidate} {rest : List Candidate}
      (pc : call.pc = .trim sweep (candidate :: rest)) (exceeds : sweep.target < sweep.total)
      (present : (disk.find candidate.path).isSome = true) :
      DiskTransition disk process choice call
        ⟨disk.remove candidate.path, process.store, .trim (sweep.trim candidate) rest⟩
  | skips {sweep : Sweep} {candidate : Candidate} {rest : List Candidate}
      (pc : call.pc = .trim sweep (candidate :: rest)) (exceeds : sweep.target < sweep.total)
      (absent : choice.succeeds = true → disk.find candidate.path = none) :
      DiskTransition disk process choice call ⟨disk, process.store, .trim sweep rest⟩
  | settles {sweep : Sweep} {candidates : List Candidate} (pc : call.pc = .trim sweep candidates)
      (enough : candidates = [] ∨ sweep.total ≤ sweep.target) :
      DiskTransition disk process choice call ⟨disk, process.store, .endSweep sweep⟩
  | ends {sweep : Sweep} (pc : call.pc = .endSweep sweep) :
      DiskTransition disk process choice call
        ⟨disk, process.store.endSweep sweep, .returned (.answered true)⟩
  | opens {path : Bytes} {size file : ℕ} (before : call.pc.offBooks = true)
      (found : disk.find path = some file) :
      DiskTransition disk process choice call ⟨disk, process.store, .read path size file []⟩
  | reads {path raw : Bytes} {size file count : ℕ} {found : File StoredBlock}
      (pc : call.pc = .read path size file raw) (held : disk.files[file]? = some found) :
      DiskTransition disk process choice call
        ⟨disk, process.store, .read path size file (raw ++ slice found.content raw.length count)⟩
  | decodes {key : CacheKey} {expectedLength size file : ℕ} {outIsNull : Bool}
      {path raw payload : Bytes} (pc : call.pc = .read path size file raw)
      (request : call.request = .load key expectedLength outIsNull)
      (decoded : decodeEntry raw key (digestOf key) expectedLength = .ok payload) :
      DiskTransition disk process choice call ⟨disk, process.store, .finish (.ok payload)⟩
  | finishes {payload : Bytes} {store : DiskBlockStore} (pc : call.pc = .finish (.ok payload))
      (books : process.store.SameBooks store) :
      DiskTransition disk process choice call ⟨disk, store, .returned (.loaded (some payload))⟩

section Inversion

variable {disk : FileSystem StoredBlock} {process : DiskProcess} {choice : Choice}
  {call : DiskCall} {outcome : Outcome}

theorem transition_goto (before : call.pc.offBooks = true) (plain : pc.plain = true) :
    DiskTransition disk process choice call (goto disk process pc) := by
  rcases DiskPc.of_plain process.store call plain with ⟨idle, after, routed, departs⟩
  exact .moves (.refl _) before idle after routed departs

theorem transition_start (pc : call.pc = .start) :
    DiskTransition disk process choice call (start disk process choice call.request) := by
  have before : call.pc.offBooks = true := by rw [pc]; rfl
  cases request : call.request with
  | configure options => exact .configures pc request rfl
  | load key expectedLength outIsNull =>
    simp only [start, startLoad]
    split
    · exact transition_goto before rfl
    · split <;> exact transition_goto before rfl
  | clear =>
    simp only [start, startClear]
    split
    · exact transition_goto before rfl
    · rename_i enabled
      exact .clears pc request (by simpa using enabled)
  | store key persistable payload =>
    simp only [start, startStore]
    split
    · exact transition_goto before rfl
    · rename_i data
      split
      · exact transition_goto before rfl
      · rename_i admitted
        split
        · exact transition_goto before rfl
        · rename_i enabled
          split
          · exact .moves ⟨_, _, rfl⟩ before rfl rfl trivial trivial
          · rename_i persists
            refine .moves (.refl _) before rfl rfl ⟨isEntryPath_pathFor _ _, ⟨key, data⟩, ?_, ?_⟩
              ⟨by simpa using enabled, ⟨key, data⟩, by rw [request]; rfl, rfl⟩
            · rw [request]
              simp only [Bool.not_eq_true, Bool.not_eq_false'] at persists
              rw [persists]
            · exact Nat.le_of_not_lt fun large => admitted (Or.inr large)

theorem sameBooks_finish (store : DiskBlockStore) (outcome : DecodeOutcome) (length : ℕ) :
    store.SameBooks (store.finish outcome length) := by
  cases outcome <;> exact ⟨_, _, rfl⟩

theorem transition_load {expectedLength : ℕ} {outIsNull : Bool}
    (request : call.request = .load key expectedLength outIsNull)
    (stepped : advanceLoad disk process choice key expectedLength call.pc = some outcome) :
    DiskTransition disk process choice call outcome := by
  have before : call.pc.offBooks = true := by
    cases pc : call.pc <;> first | rfl | simp [advanceLoad, pc] at stepped
  simp only [advanceLoad] at stepped
  split at stepped
  · cases stepped
    simp only [fileSize]
    split
    · exact transition_goto before rfl
    · split <;> exact transition_goto before rfl
  · cases stepped
    simp only [openEntry]
    split
    · exact transition_goto before rfl
    · rename_i found
      split
      · exact .opens before found
      · exact transition_goto before rfl
  · rename_i path size file raw pc
    cases stepped
    simp only [readSome]
    split
    · split
      · exact transition_goto before rfl
      · rename_i held
        split
        · exact .reads pc held
        · exact transition_goto before rfl
    · split
      · exact transition_goto before rfl
      · rename_i outcome refused
        cases decoded : decodeEntry raw key (digestOf key) expectedLength with
        | ok payload => exact .decodes pc request decoded
        | corrupt => exact absurd decoded refused
        | otherKey | wrongShape => exact transition_goto before rfl
  · cases stepped
    simp only [removeCorrupt]
    split
    · exact .removes before rfl rfl trivial trivial
    · exact transition_goto before rfl
  · cases stepped
    exact .moves ⟨_, _, rfl⟩ before rfl rfl trivial trivial
  · rename_i found pc
    cases stepped
    have books := sameBooks_finish process.store found expectedLength
    cases found with
    | ok payload => exact .finishes pc books
    | _ => exact .moves books before rfl rfl trivial trivial
  · cases stepped

theorem transition_trim {sweep : Sweep} {candidates : List Candidate}
    (pc : call.pc = .trim sweep candidates) :
    DiskTransition disk process choice call (trim disk process choice sweep candidates) := by
  cases candidates with
  | nil => exact .settles pc (Or.inl rfl)
  | cons candidate rest =>
    simp only [trim]
    split
    · rename_i enough
      exact .settles pc (Or.inr enough)
    · rename_i exceeds
      split
      · rename_i removed
        exact .trims pc (Nat.lt_of_not_le exceeds) (Bool.and_eq_true_iff.mp removed).2
      · rename_i kept
        refine .skips pc (Nat.lt_of_not_le exceeds) fun succeeds => ?_
        simpa [succeeds] using kept

theorem transition_walk {sweep : Sweep} (pc : call.pc = .walk sweep) :
    DiskTransition disk process choice call (walk disk process choice sweep) := by
  simp only [walk]
  split
  · split
    · rename_i next
      exact .visits pc next.1 next.2
    · exact .lingers pc
  · rename_i walked
    have walked : choice.succeeds = false := by simpa using walked
    split
    · rename_i exceeds
      exact .overflows pc walked exceeds
    · rename_i fits
      exact .fits pc walked (Nat.le_of_not_lt fits)

theorem transition_store {persistable : Bool} {payload : Bytes} (routed : call.Routed)
    (request : call.request = .store key persistable (some payload))
    (stepped : advanceStore disk process choice ⟨key, payload⟩ call.pc = some outcome) :
    DiskTransition disk process choice call outcome := by
  have asks : call.request.block? = some ⟨key, payload⟩ := by rw [request]; rfl
  simp only [DiskCall.Routed] at routed
  simp only [advanceStore] at stepped
  split at stepped
  · rename_i path pc
    have before : call.pc.offBooks = true := by rw [pc]; rfl
    rw [pc] at routed
    cases stepped
    simp only [goto]
    split
    · exact .moves (.refl _) before rfl rfl routed pc
    · exact transition_goto before rfl
  · rename_i path pc
    have before : call.pc.offBooks = true := by rw [pc]; rfl
    rw [pc] at routed
    cases stepped
    simp only [openTemporary]
    split
    · rename_i succeeds
      exact .creates pc (.of_request request routed.2) succeeds
    · exact .moves ⟨_, _, rfl⟩ before rfl rfl trivial trivial
  · rename_i path temporary file count pc
    have writes : call.pc.writing? = some (temporary, file) := by rw [pc]; rfl
    rw [pc] at routed
    cases stepped
    have stores := DiskCall.Stores.of_request request routed.2
    simp only [writeSome]
    split
    · rename_i failed
      refine .fails writes fun succeeds => ?_
      simp [succeeds] at failed
    · split
      · exact .writes pc stores
      · rename_i complete
        exact .completes pc stores (Nat.le_of_not_lt complete)
  · rename_i path temporary file pc
    have writes : call.pc.writing? = some (temporary, file) := by rw [pc]; rfl
    cases stepped
    simp only [rename]
    split
    · rename_i present
      exact .publishes pc (Bool.and_eq_true_iff.mp present).2
    · rename_i missing
      refine .fails writes fun succeeds => ?_
      simpa [succeeds] using missing
  · rename_i temporary target pc
    have before : call.pc.offBooks = true := by rw [pc]; rfl
    cases stepped
    simp only [abandon]
    split <;> cases target
    · exact .removes before rfl rfl trivial trivial
    · exact .removes before rfl rfl trivial trivial
    · exact transition_goto before rfl
    · exact transition_goto before rfl
  · rename_i path pc
    have before : call.pc.offBooks = true := by rw [pc]; rfl
    cases stepped
    simp only [checkPublished]
    split <;> exact transition_goto before rfl
  · rename_i pc
    have before : call.pc.offBooks = true := by rw [pc]; rfl
    cases stepped
    exact .moves ⟨_, _, rfl⟩ before rfl rfl trivial trivial
  · rename_i pc
    cases stepped
    simp only [accountEntry]
    split
    · rename_i accounted
      exact .rests pc asks accounted
    · rename_i accounted
      exact .begins pc asks accounted
  · rename_i sweep pc
    cases stepped
    exact transition_walk pc
  · rename_i sweep candidates pc
    cases stepped
    exact transition_trim pc
  · rename_i sweep pc
    cases stepped
    exact .ends pc
  · cases stepped

theorem transition_of_advance (routed : call.Routed)
    (stepped : advance disk process choice call = some outcome) :
    DiskTransition disk process choice call outcome := by
  simp only [advance] at stepped
  split at stepped
  · rename_i pc
    cases stepped
    exact transition_start pc
  · split at stepped
    · rename_i request
      exact transition_load request stepped
    · rename_i request
      exact transition_store routed request stepped
    · cases stepped

theorem DiskTransition.departs (transition : DiskTransition disk process choice call outcome) :
    Departs process.store call outcome.pc := by
  cases transition with
  | moves _ _ _ _ _ departs | removes _ _ _ _ departs => exact departs
  | @configures options result _ request =>
    rcases result with ⟨_ | _⟩ | _ | _
    · trivial
    · exact fun other => absurd request (other options)
    · trivial
    · trivial
  | rests pc => exact fun _ => Or.inl pc
  | ends pc => exact fun _ => Or.inr ⟨_, pc⟩
  | _ => trivial

theorem advance_returned {result : DiskResult} (returned : call.pc = .returned result) :
    advance disk process choice call = none := by
  simp only [advance, returned]
  split <;> rfl

end Inversion

end UsdAsset.Cache
