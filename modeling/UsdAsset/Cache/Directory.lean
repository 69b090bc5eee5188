import UsdAsset.Cache.DiskTransition

/-!
# The directory while it is written to

A store writes to a file that has no name but its temporary one, and gives it the name
of the entry when it is whole.  So the files that count are those under names nobody
writes to, and a step changes their lengths in few ways: it removes some, or it
publishes one.
-/

namespace UsdAsset.Cache

open ByteString Machine FileSystem

variable {path temporary : Bytes} {file : ℕ}

/-! ### Names in use, and entries not yet accounted for -/

/-- Whether a call is writing under the name. -/
def DiskCall.holds (call : DiskCall) (path : Bytes) : Bool :=
  call.pc.writing?.any fun writing => writing.1 == path

/-- Whether the name is a temporary one that somebody is writing to. -/
def held (calls : List DiskCall) (path : Bytes) : Bool := calls.any fun call => call.holds path

def isUnder (root path : Bytes) : Bool := (root ++ [pathSeparator]).isPrefixOf path

/-- Whether the name is one of the directory that nobody is writing to. -/
def standing (calls : List DiskCall) (root path : Bytes) : Bool :=
  isUnder root path && !held calls path

/-- The size of the entry that a call has published and not yet accounted for. -/
def DiskCall.unaccounted (call : DiskCall) : ℕ :=
  match call.pc with
  | .account => (call.request.block?.map fun block => block.encoded.length).getD 0
  | _ => 0

def unaccounted (calls : List DiskCall) : ℕ := (calls.map DiskCall.unaccounted).sum

theorem held_eq_true_iff {calls : List DiskCall} :
    held calls path = true ↔ ∃ (callId : ℕ) (call : DiskCall) (file : ℕ),
      calls[callId]? = some call ∧ call.pc.writing? = some (path, file) := by
  simp only [held, List.any_eq_true, DiskCall.holds, Option.any_eq_true, beq_iff_eq,
    List.mem_iff_getElem?]
  constructor
  · rintro ⟨call, ⟨callId, found⟩, ⟨temporary, file⟩, writes, rfl⟩
    exact ⟨callId, call, file, found, writes⟩
  · rintro ⟨callId, call, file, found, writes⟩
    exact ⟨call, ⟨callId, found⟩, (path, file), writes, rfl⟩

theorem DiskCall.unaccounted_of_ne {call : DiskCall} (settled : call.pc ≠ .account) :
    call.unaccounted = 0 := by
  simp only [DiskCall.unaccounted]

theorem DiskPc.ne_account_of_offBooks {pc : DiskPc} (off : pc.offBooks = true) : pc ≠ .account := by
  rintro rfl
  cases off

/-- A file that is being written has no name but the temporary one, and its length is known. -/
structure HeldFile (disk : FileSystem StoredBlock) (call : DiskCall) (temporary : Bytes)
    (file : ℕ) : Prop where
  unpublished : isEntryPath temporary = false
  only : ∀ {path : Bytes}, disk.find path = some file → path = temporary
  named : ∀ {other : ℕ}, disk.find temporary = some other → other = file
  measured : ∃ block found, call.Stores block ∧ disk.files[file]? = some found ∧
    found.content.length ≤ block.encoded.length ∧
    ∀ {path : Bytes} {count : ℕ}, call.pc = .write path temporary file count →
      found.content.length = count

/-- Nobody else has anything to do with a file that is being written. -/
structure Unshared (disk : FileSystem StoredBlock) (calls : List DiskCall) : Prop where
  tidy : disk.Tidy
  routed : ∀ {callId : ℕ} {call : DiskCall}, calls[callId]? = some call → call.Routed
  files : ∀ {callId : ℕ} {call : DiskCall}, calls[callId]? = some call →
    ∀ {temporary : Bytes} {file : ℕ}, call.pc.writing? = some (temporary, file) →
      HeldFile disk call temporary file
  apart : ∀ {firstId secondId : ℕ} {first second : DiskCall},
    calls[firstId]? = some first → calls[secondId]? = some second → firstId ≠ secondId →
    ∀ {temporary other : Bytes} {file otherFile : ℕ},
      first.pc.writing? = some (temporary, file) →
      second.pc.writing? = some (other, otherFile) → temporary ≠ other ∧ file ≠ otherFile

section Held

variable {disk next : FileSystem StoredBlock} {call : DiskCall}

variable (held : HeldFile disk call temporary file)

include held

theorem HeldFile.bound : file < disk.files.length := by
  rcases held.measured with ⟨_, _, _, present, _⟩
  exact (List.getElem?_eq_some_iff.mp present).1

theorem HeldFile.dropNames (files : next.files = disk.files)
    (subset : ∀ {path : Bytes} {file : ℕ}, next.find path = some file →
      disk.find path = some file) : HeldFile next call temporary file where
  unpublished := held.unpublished
  only found := held.only (subset found)
  named found := held.named (subset found)
  measured := by
    rw [files]
    exact held.measured

theorem HeldFile.modify {other : ℕ} (different : other ≠ file) (change : Bytes → Bytes) :
    HeldFile (disk.modify other change) call temporary file where
  unpublished := held.unpublished
  only found := by
    rw [find_modify] at found
    exact held.only found
  named found := by
    rw [find_modify] at found
    exact held.named found
  measured := by
    rcases held.measured with ⟨block, found, stores, present, lengths⟩
    refine ⟨block, found, stores, ?_, lengths⟩
    simp only [FileSystem.modify]
    split
    · exact present
    · rwa [List.getElem?_set_ne different]

theorem HeldFile.create (different : path ≠ temporary) (block : StoredBlock) :
    HeldFile (disk.create path block).1 call temporary file := by
  cases absent : disk.find path with
  | some other =>
    have elsewhere : other ≠ file := by
      rintro rfl
      exact different (held.only absent)
    simp only [FileSystem.create, absent]
    exact held.modify elsewhere _
  | none =>
    refine ⟨held.unpublished, ?_, ?_, ?_⟩
    · intro name found
      rw [find_create_of_absent absent] at found
      split at found
      · cases found
        exact absurd held.bound (Nat.lt_irrefl _)
      · exact held.only found
    · intro other found
      rw [find_create_of_absent absent, if_neg different.symm] at found
      exact held.named found
    · rcases held.measured with ⟨own, found, stores, present, lengths⟩
      refine ⟨own, found, stores, ?_, lengths⟩
      simpa [FileSystem.create, absent] using getElem?_append_of_some _ present

theorem HeldFile.rename {source target : Bytes}
    {other : ℕ} (found : disk.find source = some other) (different : source ≠ temporary)
    (entry : isEntryPath target = true) :
    HeldFile (disk.rename source target) call temporary file := by
  have elsewhere : other ≠ file := by
    rintro rfl
    exact different (held.only found)
  have unnamed : temporary ≠ target := by
    rintro rfl
    have := held.unpublished
    simp [entry] at this
  refine ⟨held.unpublished, ?_, ?_, ?_⟩
  · intro name named
    rw [find_rename found] at named
    split at named
    · cases named
      exact absurd rfl elsewhere
    · split at named
      · cases named
      · exact held.only named
  · intro another named
    rw [find_rename found, if_neg unnamed, if_neg different.symm] at named
    exact held.named named
  · simpa [FileSystem.rename, found] using held.measured

end Held

section Transitions

variable {disk next : FileSystem StoredBlock} {calls : List DiskCall} {callId : ℕ}
  {call : DiskCall} {process : DiskProcess} {choice : Choice} {outcome : Outcome} {pc : DiskPc}

variable (unshared : Unshared disk calls)

include unshared

/-- A step of one call leaves the files of the others alone, and its own file to it. -/
theorem Unshared.set (tidy : next.Tidy) (routed : { call with pc }.Routed)
    (others : ∀ {otherId : ℕ} {other : DiskCall}, otherId ≠ callId →
      calls[otherId]? = some other → ∀ {temporary : Bytes} {file : ℕ},
        other.pc.writing? = some (temporary, file) → HeldFile next other temporary file)
    (own : ∀ {temporary : Bytes} {file : ℕ}, pc.writing? = some (temporary, file) →
      HeldFile next { call with pc } temporary file ∧
        ∀ {otherId : ℕ} {other : DiskCall}, otherId ≠ callId → calls[otherId]? = some other →
          ∀ {otherTemporary : Bytes} {otherFile : ℕ},
            other.pc.writing? = some (otherTemporary, otherFile) →
              temporary ≠ otherTemporary ∧ file ≠ otherFile) :
    Unshared next (calls.set callId { call with pc }) where
  tidy := tidy
  routed found := by
    rcases getElem?_set_cases found with ⟨rfl, rfl⟩ | ⟨_, before⟩
    · exact routed
    · exact unshared.routed before
  files found _ _ writes := by
    rcases getElem?_set_cases found with ⟨rfl, rfl⟩ | ⟨different, before⟩
    · exact (own writes).1
    · exact others different before writes
  apart firstFound secondFound different _ _ _ _ firstWrites secondWrites := by
    rcases getElem?_set_cases firstFound with ⟨rfl, rfl⟩ | ⟨firstElsewhere, firstBefore⟩ <;>
      rcases getElem?_set_cases secondFound with ⟨rfl, rfl⟩ | ⟨secondElsewhere, secondBefore⟩
    · exact absurd rfl different
    · exact (own firstWrites).2 secondElsewhere secondBefore secondWrites
    · have apart := (own secondWrites).2 firstElsewhere firstBefore firstWrites
      exact ⟨apart.1.symm, apart.2.symm⟩
    · exact unshared.apart firstBefore secondBefore different firstWrites secondWrites

theorem Unshared.drop (files : next.files = disk.files)
    (subset : ∀ {path : Bytes} {file : ℕ}, next.find path = some file →
      disk.find path = some file)
    (routed : { call with pc }.Routed) (quiet : pc.writing? = none) :
    Unshared next (calls.set callId { call with pc }) :=
  unshared.set (unshared.tidy.dropNames files subset) routed
    (fun _ found _ _ writes => (unshared.files found writes).dropNames files subset)
    (fun writes => by rw [quiet] at writes; cases writes)

section

variable (found : calls[callId]? = some call)

include found

theorem Unshared.create
    {block : StoredBlock} (pc : call.pc = .openTemporary path) (stores : call.Stores block)
    (unpublished : isEntryPath temporary = false) (free : held calls temporary = false) :
    Unshared (disk.create temporary block).1 (calls.set callId
      { call with pc := .write path temporary (disk.create temporary block).2 0 }) := by
  have routed := unshared.routed found
  rw [DiskCall.Routed, pc] at routed
  have unused : ∀ {otherId : ℕ} {other : DiskCall}, calls[otherId]? = some other →
      ∀ {name : Bytes} {file : ℕ}, other.pc.writing? = some (name, file) → temporary ≠ name := by
    rintro otherId other otherFound name file writes rfl
    have inUse := held_eq_true_iff.mpr ⟨otherId, other, file, otherFound, writes⟩
    rw [free] at inUse
    cases inUse
  have here := @find_create_self _ disk temporary block
  have tidy := unshared.tidy.create temporary block
  refine unshared.set tidy ⟨routed.1, block, stores⟩ ?_ ?_
  · intro otherId other _ otherFound name file writes
    exact (unshared.files otherFound writes).create (unused otherFound writes) block
  · rintro _ _ ⟨⟩
    refine ⟨⟨unpublished, fun named => tidy.apart named here, ?_, ?_⟩, ?_⟩
    · intro other named
      exact Option.some.inj (named.symm.trans here)
    · rcases unshared.tidy.getElem?_files_create with ⟨opened, present, empty⟩
      refine ⟨block, opened, stores, present, by simp [empty], ?_⟩
      rintro _ _ ⟨⟩
      rw [empty]
      rfl
    · intro otherId other _ otherFound name file writes
      refine ⟨unused otherFound writes, ?_⟩
      rintro rfl
      have stays := (unshared.files otherFound writes).create (unused otherFound writes) block
      exact unused otherFound writes (stays.only here)

theorem Unshared.write
    {count : ℕ} {block : StoredBlock} (pc : call.pc = .write path temporary file count)
    (stores : call.Stores block) (length : ℕ) :
    Unshared (disk.writeAt file count (slice block.encoded count length)) (calls.set callId
      { call with
        pc := .write path temporary file
          (count + (slice block.encoded count length).length) }) := by
  have routed := unshared.routed found
  rw [DiskCall.Routed, pc] at routed
  have writes : call.pc.writing? = some (temporary, file) := by rw [pc]; rfl
  have own := unshared.files found writes
  rcases own.measured with ⟨same, opened, alsoStores, present, within, counted⟩
  obtain rfl := stores.unique alsoStores
  have size := counted pc
  refine unshared.set (unshared.tidy.modify file _) routed ?_ ?_
  · intro otherId other different otherFound name otherFile otherWrites
    exact (unshared.files otherFound otherWrites).modify
      (unshared.apart found otherFound different.symm writes otherWrites).2 _
  · rintro _ _ ⟨⟩
    refine ⟨⟨own.unpublished, ?_, ?_, ?_⟩, ?_⟩
    · intro name named
      rw [writeAt, find_modify] at named
      exact own.only named
    · intro other named
      rw [writeAt, find_modify] at named
      exact own.named named
    · have longer : FileSystem.overwrite opened.content count (slice block.encoded count length) =
          opened.content ++ slice block.encoded count length := by
        rw [← size, overwrite_end]
      refine ⟨block, ⟨opened.content ++ slice block.encoded count length, disk.now, opened.note⟩,
        stores, ?_, ?_, ?_⟩
      · rw [← longer]
        exact FileSystem.getElem?_files_modify present
      · have added := length_slice block.encoded count length
        rw [List.length_append]
        omega
      · rintro _ _ ⟨⟩
        rw [List.length_append, size]
    · intro otherId other different otherFound name otherFile otherWrites
      exact unshared.apart found otherFound different.symm writes otherWrites

theorem Unshared.complete {count : ℕ} (pc : call.pc = .write path temporary file count) :
    Unshared disk (calls.set callId { call with pc := .rename path temporary file }) := by
  have routed := unshared.routed found
  rw [DiskCall.Routed, pc] at routed
  have writes : call.pc.writing? = some (temporary, file) := by rw [pc]; rfl
  refine unshared.set unshared.tidy routed (fun _ found _ _ => unshared.files found) ?_
  rintro _ _ ⟨⟩
  have own := unshared.files found writes
  rcases own.measured with ⟨block, opened, stores, present, within, _⟩
  refine ⟨⟨own.unpublished, own.only, own.named, block, opened, stores, present, within, by simp⟩,
    ?_⟩
  intro otherId other different otherFound name otherFile otherWrites
  exact unshared.apart found otherFound different.symm writes otherWrites

theorem Unshared.publish
    {path temporary : Bytes} {file : ℕ} (pc : call.pc = .rename path temporary file)
    (named : disk.find temporary = some file) :
    Unshared (disk.rename temporary path) (calls.set callId { call with pc := .account }) := by
  have routed := unshared.routed found
  rw [DiskCall.Routed, pc] at routed
  have writes : call.pc.writing? = some (temporary, file) := by rw [pc]; rfl
  refine unshared.set (unshared.tidy.rename temporary path) trivial ?_ (by rintro _ _ ⟨⟩)
  intro otherId other different otherFound name otherFile otherWrites
  exact (unshared.files otherFound otherWrites).rename named
    (unshared.apart found otherFound different.symm writes otherWrites).1 routed.1

end

theorem Unshared.setCalls {later : List DiskCall}
    (before : ∀ {callId : ℕ} {call : DiskCall}, later[callId]? = some call →
      calls[callId]? = some call ∨ call.pc.writing? = none ∧ call.Routed) :
    Unshared disk later := by
  have busy : ∀ {callId : ℕ} {call : DiskCall}, later[callId]? = some call →
      ∀ {writing : Bytes × ℕ}, call.pc.writing? = some writing → calls[callId]? = some call := by
    intro callId call found writing writes
    rcases before found with same | ⟨quiet, _⟩
    · exact same
    · rw [quiet] at writes
      cases writes
  refine ⟨unshared.tidy, ?_, ?_, ?_⟩
  · intro callId call found
    rcases before found with same | ⟨_, routed⟩
    · exact unshared.routed same
    · exact routed
  · intro callId call found temporary file writes
    exact unshared.files (busy found writes) writes
  · intro firstId secondId first second firstFound secondFound different temporary other file
      otherFile firstWrites secondWrites
    exact unshared.apart (busy firstFound firstWrites) (busy secondFound secondWrites) different
      firstWrites secondWrites

theorem Unshared.append (caller : ℕ) (request : DiskRequest) : Unshared disk (calls ++ [{ process := caller, request }]) := by
  refine unshared.setCalls fun found => ?_
  rcases getElem?_append_singleton found with before | ⟨_, rfl⟩
  · exact Or.inl before
  · exact Or.inr ⟨rfl, trivial⟩

theorem Unshared.dropNames (files : next.files = disk.files)
    (subset : ∀ {path : Bytes} {file : ℕ}, next.find path = some file →
      disk.find path = some file) : Unshared next calls :=
  ⟨unshared.tidy.dropNames files subset, unshared.routed,
    fun found _ _ writes => (unshared.files found writes).dropNames files subset, unshared.apart⟩

theorem Unshared.modify (named : disk.find path = some file)
    (entry : isEntryPath path = true) (change : Bytes → Bytes) :
    Unshared (disk.modify file change) calls := by
  refine ⟨unshared.tidy.modify file change, unshared.routed, ?_, unshared.apart⟩
  intro callId call found temporary other writes
  have own := unshared.files found writes
  refine own.modify ?_ change
  rintro rfl
  rw [own.only named, own.unpublished] at entry
  cases entry

theorem Unshared.transition (found : calls[callId]? = some call)
    (free : ∀ {path : Bytes}, call.pc = .openTemporary path →
      held calls (temporaryFor path process.nonce process.store.tempCounter) = false)
    (transition : DiskTransition disk process choice call outcome) :
    Unshared outcome.disk (calls.set callId { call with pc := outcome.pc }) := by
  cases transition with
  | moves _ _ _ after routed =>
    exact unshared.drop rfl id routed (DiskPc.writing?_of_offBooks after)
  | removes _ _ after routed =>
    exact unshared.drop rfl of_find_remove routed (DiskPc.writing?_of_offBooks after)
  | clears => exact unshared.drop rfl of_find_removeUnder trivial rfl
  | creates pc stores => exact unshared.create found pc stores (isEntryPath_temporaryFor _ _ _) (free pc)
  | writes pc stores => exact unshared.write found pc stores choice.count
  | completes pc => exact unshared.complete found pc
  | publishes pc present =>
    rcases Option.isSome_iff_exists.mp present with ⟨other, named⟩
    obtain rfl := (unshared.files found (by rw [pc]; rfl)).named named
    exact unshared.publish found pc named
  | visits =>
    dsimp only
    split
    · exact unshared.drop rfl of_find_remove trivial rfl
    · exact unshared.drop rfl id trivial rfl
  | trims => exact unshared.drop rfl of_find_remove trivial rfl
  | _ => exact unshared.drop rfl id trivial rfl

end Transitions

/-! ### What a step does to the lengths -/

/-- The names nobody writes to stand for nothing that was not there before. -/
def Shrinks (root : Bytes) (disk : FileSystem StoredBlock) (calls : List DiskCall)
    (next : FileSystem StoredBlock) (nextCalls : List DiskCall) : Prop :=
  ∀ path, standing nextCalls root path = true →
    next.lengthAt path = 0 ∨
      standing calls root path = true ∧ next.lengthAt path ≤ disk.lengthAt path

section Lengths

variable {root : Bytes} {disk next : FileSystem StoredBlock} {calls nextCalls : List DiskCall}
  {callId : ℕ} {call : DiskCall} {pc : DiskPc}

theorem Shrinks.weigh_le (shrinks : Shrinks root disk calls next nextCalls)
    {select selectNext : Bytes → Bool} (implied : ∀ path, selectNext path = true → select path = true)
    (cover : Bytes → ℕ) :
    next.weigh (fun path => standing nextCalls root path && selectNext path) cover ≤
      disk.weigh (fun path => standing calls root path && select path) cover := by
  refine FileSystem.weigh_le fun path => ?_
  simp only [uncovered, Bool.and_eq_true]
  split
  · rename_i counts
    rcases shrinks path counts.1 with gone | ⟨stood, shorter⟩
    · omega
    · rw [if_pos ⟨stood, implied path counts.2⟩]
      omega
  · exact Nat.zero_le _

theorem standing_set (found : calls[callId]? = some call)
    (same : { call with pc }.holds path = call.holds path) :
    standing (calls.set callId { call with pc }) root path = standing calls root path := by
  have alike : (calls.set callId { call with pc }).any (fun call => call.holds path) =
      calls.any fun call => call.holds path := any_set_of_eq found same
  rw [standing, standing, held, held, alike]

theorem unaccounted_set (found : calls[callId]? = some call) (pc : DiskPc) :
    unaccounted (calls.set callId { call with pc }) + call.unaccounted =
      unaccounted calls + { call with pc }.unaccounted :=
  sum_map_set found

theorem unaccounted_set_of_ne (found : calls[callId]? = some call) (before : call.pc ≠ .account)
    (after : pc ≠ .account) : unaccounted (calls.set callId { call with pc }) = unaccounted calls := by
  have changed := unaccounted_set found pc
  rwa [DiskCall.unaccounted_of_ne before, DiskCall.unaccounted_of_ne after] at changed

theorem standing_append (caller : ℕ) (request : DiskRequest) :
    standing (calls ++ [{ process := caller, request }]) root = standing calls root := by
  funext path
  simp [standing, held, DiskCall.holds, DiskPc.writing?]

theorem unaccounted_append (caller : ℕ) (request : DiskRequest) :
    unaccounted (calls ++ [{ process := caller, request }]) = unaccounted calls := by
  simp [unaccounted, DiskCall.unaccounted]

theorem holds_eq_false {call : DiskCall} (quiet : call.pc.writing? = none) (path : Bytes) :
    call.holds path = false := by
  rw [DiskCall.holds, quiet, Option.any_none]

theorem holds_eq (writes : call.pc.writing? = some (temporary, file)) (path : Bytes) :
    call.holds path = (temporary == path) := by
  rw [DiskCall.holds, writes, Option.any_some]

theorem not_standing (found : calls[callId]? = some call)
    (writes : call.pc.writing? = some (temporary, file)) :
    standing calls root temporary = false := by
  have inUse := held_eq_true_iff.mpr ⟨callId, call, file, found, writes⟩
  simp [standing, inUse]

theorem standing_set_of_quiet (found : calls[callId]? = some call) (before : call.pc.writing? = none)
    (after : pc.writing? = none) :
    standing (calls.set callId { call with pc }) root = standing calls root :=
  funext fun path => standing_set found (by
    rw [holds_eq_false before, holds_eq_false after])

theorem shrinks_quiet (found : calls[callId]? = some call) (before : call.pc.writing? = none)
    (after : pc.writing? = none) (shorter : ∀ path, next.lengthAt path ≤ disk.lengthAt path) :
    Shrinks root disk calls next (calls.set callId { call with pc }) := by
  intro path stands
  rw [standing_set_of_quiet found before after] at stands
  exact Or.inr ⟨stands, shorter path⟩

theorem lengthAt_remove_le (disk : FileSystem StoredBlock) (removed path : Bytes) :
    (disk.remove removed).lengthAt path ≤ disk.lengthAt path := by
  simp only [lengthAt, fileAt_remove]
  split
  · exact Nat.zero_le _
  · exact Nat.le_refl _

theorem Unshared.shrinks_create (unshared : Unshared disk calls)
    (found : calls[callId]? = some call) (quiet : call.pc.writing? = none)
    (writes : pc.writing? = some (temporary, file)) (block : StoredBlock) :
    Shrinks root disk calls (disk.create temporary block).1
      (calls.set callId { call with pc }) := by
  intro path stands
  have bound := (List.getElem?_eq_some_iff.mp found).1
  have own : (calls.set callId { call with pc })[callId]? = some { call with pc } :=
    List.getElem?_set_self bound
  have different : path ≠ temporary := by
    rintro rfl
    rw [not_standing own writes] at stands
    cases stands
  rw [standing_set found (by
    rw [holds_eq_false quiet, holds_eq writes, beq_eq_false_iff_ne.mpr different.symm])] at stands
  refine Or.inr ⟨stands, ?_⟩
  rw [lengthAt, fileAt_create unshared.tidy different]
  exact Nat.le_refl _

theorem Unshared.shrinks_write (unshared : Unshared disk calls)
    (found : calls[callId]? = some call) (writes : call.pc.writing? = some (temporary, file))
    (still : pc.writing? = some (temporary, file)) (change : Bytes → Bytes) :
    Shrinks root disk calls (disk.modify file change) (calls.set callId { call with pc }) := by
  intro path stands
  rw [standing_set found (by rw [holds_eq writes, holds_eq still])] at stands
  refine Or.inr ⟨stands, ?_⟩
  have unnamed : disk.find path ≠ some file := by
    intro named
    rw [(unshared.files found writes).only named, not_standing found writes] at stands
    cases stands
  rw [lengthAt, fileAt_modify unnamed]
  exact Nat.le_refl _

theorem shrinks_complete (found : calls[callId]? = some call)
    (writes : call.pc.writing? = some (temporary, file))
    (still : pc.writing? = some (temporary, file)) :
    Shrinks root disk calls disk (calls.set callId { call with pc }) := by
  intro path stands
  rw [standing_set found (by rw [holds_eq writes, holds_eq still])] at stands
  exact Or.inr ⟨stands, Nat.le_refl _⟩

/-- A temporary that somebody removed stands for nothing once its writer gives up. -/
theorem shrinks_fail (found : calls[callId]? = some call)
    (writes : call.pc.writing? = some (temporary, file)) (quiet : pc.writing? = none)
    (absent : disk.find temporary = none) :
    Shrinks root disk calls disk (calls.set callId { call with pc }) := by
  intro path stands
  by_cases same : path = temporary
  · subst same
    exact Or.inl (lengthAt_of_absent absent)
  · rw [standing_set found (by
      rw [holds_eq writes, holds_eq_false quiet, beq_eq_false_iff_ne.mpr (Ne.symm same)])] at stands
    exact Or.inr ⟨stands, Nat.le_refl _⟩

/-- A published entry adds its length, which is what the store will account for. -/
theorem Unshared.weigh_publish (unshared : Unshared disk calls)
    (found : calls[callId]? = some call) {path temporary : Bytes} {file : ℕ}
    (pc : call.pc = .rename path temporary file) (named : disk.find temporary = some file)
    {select selectNext : Bytes → Bool}
    (implied : ∀ name, name ≠ path → selectNext name = true → select name = true)
    (cover : Bytes → ℕ) :
    (disk.rename temporary path).weigh
        (fun name => standing (calls.set callId { call with pc := .account }) root name &&
          selectNext name) cover + unaccounted calls ≤
      disk.weigh (fun name => standing calls root name && select name) cover +
        unaccounted (calls.set callId { call with pc := .account }) := by
  have writes : call.pc.writing? = some (temporary, file) := by rw [pc]; rfl
  have own := unshared.files found writes
  rcases own.measured with ⟨block, opened, stores, present, within, _⟩
  have owed : unaccounted (calls.set callId { call with pc := .account }) =
      unaccounted calls + block.encoded.length := by
    have changed := unaccounted_set found .account
    rw [DiskCall.unaccounted_of_ne (by rw [pc]; nofun)] at changed
    simpa [DiskCall.unaccounted, stores.block?] using changed
  have gained : (disk.rename temporary path).lengthAt path ≤ block.encoded.length := by
    have content : disk.fileAt temporary = some opened := by
      simp [fileAt, named, present]
    rw [lengthAt, fileAt_rename named, if_pos rfl, content]
    exact within
  have added := @weigh_le_add _ disk (disk.rename temporary path)
    (fun name => standing calls root name && select name)
    (fun name => standing (calls.set callId { call with pc := .account }) root name &&
      selectNext name) cover cover path (by
    intro name different
    by_cases source : name = temporary
    · have gone : (disk.rename temporary path).lengthAt name = 0 := by
        rw [lengthAt, fileAt_rename named, if_neg different, if_pos source]
        rfl
      simp [uncovered, gone]
    · have same : (disk.rename temporary path).lengthAt name = disk.lengthAt name := by
        rw [lengthAt, fileAt_rename named, if_neg different, if_neg source,
          lengthAt]
      have stood : standing (calls.set callId { call with pc := .account }) root name =
          standing calls root name :=
        standing_set found (by
          rw [holds_eq writes, holds_eq_false rfl, beq_eq_false_iff_ne.mpr (Ne.symm source)])
      simp only [uncovered, same, stood, Bool.and_eq_true]
      split
      · rename_i counts
        rw [if_pos ⟨counts.1, implied name different counts.2⟩]
      · exact Nat.zero_le _)
  have most : (disk.rename temporary path).uncovered
      (fun name => standing (calls.set callId { call with pc := .account }) root name &&
        selectNext name) cover path ≤ block.encoded.length := by
    simp only [uncovered]
    split <;> omega
  omega

end Lengths

end UsdAsset.Cache
