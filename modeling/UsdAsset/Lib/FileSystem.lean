import Mathlib.Algebra.Order.BigOperators.Group.Finset
import Mathlib.Data.List.AList
import UsdAsset.Lib.ByteString
import UsdAsset.Lib.Machine

/-!
# Files and their names

A file system is a directory of names and the files that they stand for.  A file that
has lost its name is still there for whoever has it open, and a name may come to stand
for another file.  Each file carries a note of whoever made it, which no operation
reads.
-/

structure File (Note : Type) where
  content : Bytes
  /-- When it was last written to. -/
  written : ℕ
  note : Note

structure FileSystem (Note : Type) where
  names : AList fun _ : Bytes => ℕ := ∅
  files : List (File Note) := []
  now : ℕ := 0

namespace FileSystem

variable {Note : Type}

/-- A content with other bytes at an offset; a gap in front of them is filled with zeros. -/
def overwrite (content : Bytes) (offset : ℕ) (data : Bytes) : Bytes :=
  (content ++ List.replicate (offset - content.length) 0).take offset ++ data ++
    content.drop (offset + data.length)

theorem overwrite_end (content data : Bytes) :
    overwrite content content.length data = content ++ data := by
  simp [overwrite]

section Operations

variable (system : FileSystem Note)

/-- The file that a name stands for. -/
def find (path : Bytes) : Option ℕ := system.names.lookup path

def fileAt (path : Bytes) : Option (File Note) :=
  (system.find path).bind fun file => system.files[file]?

def modify (file : ℕ) (change : Bytes → Bytes) : FileSystem Note :=
  match system.files[file]? with
  | none => system
  | some found =>
      { system with
        files :=
          system.files.set file
            { found with content := change found.content, written := system.now } }

def writeAt (file offset : ℕ) (data : Bytes) : FileSystem Note :=
  system.modify file fun content => overwrite content offset data

/-- Opens a name for writing: its file is emptied, or a new one made. -/
def create (path : Bytes) (note : Note) : FileSystem Note × ℕ :=
  match system.find path with
  | some file => (system.modify file fun _ => [], file)
  | none =>
      ({ system with
          names := system.names.insert path system.files.length
          files := system.files ++ [⟨[], system.now, note⟩] },
        system.files.length)

def remove (path : Bytes) : FileSystem Note :=
  { system with names := system.names.erase path }

/-- One name takes over the file of another, all at once. -/
def rename (source target : Bytes) : FileSystem Note :=
  match system.find source with
  | none => system
  | some file => { system with names := (system.names.erase source).insert target file }

/-- Removes every name that begins with a prefix. -/
def removeUnder (root : Bytes) : FileSystem Note :=
  { system with
    names :=
      (system.names.keys.filter fun path => root.isPrefixOf path).foldl (fun names path =>
        names.erase path) system.names }

end Operations

variable {system : FileSystem Note} {path other : Bytes} {file : ℕ}

theorem find_remove : (system.remove path).find other =
    if other = path then none else system.find other := by
  by_cases same : other = path
  · subst same
    simp [find, remove]
  · simp [find, remove, same]

theorem of_find_remove (found : (system.remove path).find other = some file) :
    system.find other = some file := by
  rw [find_remove] at found
  split at found
  · cases found
  · exact found

theorem of_lookup_foldl_erase {paths : List Bytes} {names : AList fun _ : Bytes => ℕ}
    (found : (paths.foldl (fun names path => names.erase path) names).lookup other = some file) :
    names.lookup other = some file := by
  induction paths generalizing names with
  | nil => exact found
  | cons path rest ih =>
    have kept := ih found
    by_cases same : other = path
    · subst same
      simp at kept
    · simpa [same] using kept

theorem of_find_removeUnder {root : Bytes}
    (found : (system.removeUnder root).find other = some file) : system.find other = some file :=
  of_lookup_foldl_erase found

theorem find_create_of_absent {note : Note} (absent : system.find path = none) :
    (system.create path note).1.find other =
      if other = path then some system.files.length else system.find other := by
  simp only [create, absent]
  by_cases same : other = path
  · subst same
    simp [find]
  · simp [find, same]

theorem find_rename {source target : Bytes} (found : system.find source = some file) :
    (system.rename source target).find other =
      if other = target then some file else if other = source then none else system.find other := by
  simp only [rename, found]
  by_cases atTarget : other = target
  · subst atTarget
    simp [find]
  · by_cases atSource : other = source
    · subst atSource
      simp [find, atTarget]
    · simp [find, atTarget, atSource]

theorem files_rename {source target : Bytes} :
    (system.rename source target).files = system.files := by
  simp only [rename]
  split <;> rfl

theorem find_removeUnder {root : Bytes} :
    (system.removeUnder root).find other =
      if root.isPrefixOf other then none else system.find other := by
  have erased : ∀ (paths : List Bytes) (names : AList fun _ : Bytes => ℕ),
      (paths.foldl (fun names path => names.erase path) names).lookup other =
        if other ∈ paths then none else names.lookup other := by
    intro paths
    induction paths with
    | nil => simp
    | cons path rest ih =>
      intro names
      rw [List.foldl_cons, ih]
      by_cases same : other = path
      · subst same
        simp
      · simp [same]
  have listed : other ∈ (system.names.keys.filter fun path => root.isPrefixOf path) ↔
      (system.find other).isSome = true ∧ root.isPrefixOf other = true := by
    rw [List.mem_filter, find, AList.lookup_isSome]
    rfl
  simp only [find, removeUnder] at listed ⊢
  rw [erased]
  by_cases under : root.isPrefixOf other = true
  · rw [if_pos under]
    split
    · rfl
    · rename_i unlisted
      rw [listed, not_and_or] at unlisted
      simpa [under] using unlisted
  · rw [if_neg under, if_neg fun mem => under (listed.mp mem).2]

/-! ### The lengths of files -/

section Lengths

variable (system : FileSystem Note)

def paths : Finset Bytes := system.names.keys.toFinset

/-- The length of the file that a name stands for, zero where there is none. -/
def lengthAt (path : Bytes) : ℕ := ((system.fileAt path).map fun file => file.content.length).getD 0

/-- What a name adds to a sum of lengths of which some bytes are covered. -/
def uncovered (select : Bytes → Bool) (cover : Bytes → ℕ) (path : Bytes) : ℕ :=
  if select path then system.lengthAt path - cover path else 0

/-- The bytes under the selected names, less those that are covered. -/
def weigh (select : Bytes → Bool) (cover : Bytes → ℕ) : ℕ :=
  ∑ path ∈ system.paths, system.uncovered select cover path

end Lengths

variable {next : FileSystem Note} {select selectNext : Bytes → Bool} {cover coverNext : Bytes → ℕ}

theorem mem_paths : path ∈ system.paths ↔ ∃ file, system.find path = some file := by
  rw [paths, List.mem_toFinset, ← Option.isSome_iff_exists, find, AList.lookup_isSome]
  rfl

theorem lengthAt_of_absent (absent : system.find path = none) : system.lengthAt path = 0 := by
  simp [lengthAt, fileAt, absent]

theorem lengthAt_of_fileAt {found : File Note} (present : system.fileAt path = some found) :
    system.lengthAt path = found.content.length := by
  simp [lengthAt, present]

theorem weigh_eq_sum {names : Finset Bytes} (covers : system.paths ⊆ names) :
    system.weigh select cover = ∑ path ∈ names, system.uncovered select cover path := by
  refine Finset.sum_subset covers ?_
  intro path _ unnamed
  have absent : system.find path = none := by
    rw [mem_paths, not_exists] at unnamed
    exact Option.eq_none_iff_forall_ne_some.mpr unnamed
  simp [uncovered, lengthAt_of_absent absent]

theorem weigh_le
    (lighter : ∀ name, next.uncovered selectNext coverNext name ≤
      system.uncovered select cover name) :
    next.weigh selectNext coverNext ≤ system.weigh select cover := by
  have before : system.paths ⊆ system.paths ∪ next.paths := Finset.subset_union_left
  have after : next.paths ⊆ system.paths ∪ next.paths := Finset.subset_union_right
  rw [weigh_eq_sum before, weigh_eq_sum after]
  exact Finset.sum_le_sum fun name _ => lighter name

/-- Where one name alone can weigh more than before, the whole gains no more than its weight. -/
theorem weigh_le_add (path : Bytes)
    (lighter : ∀ name, name ≠ path → next.uncovered selectNext coverNext name ≤
      system.uncovered select cover name) :
    next.weigh selectNext coverNext ≤
      system.weigh select cover + next.uncovered selectNext coverNext path := by
  let names := insert path (system.paths ∪ next.paths)
  have here : path ∈ names := Finset.mem_insert_self _ _
  have before : system.paths ⊆ names :=
    Finset.subset_union_left.trans (Finset.subset_insert _ _)
  have after : next.paths ⊆ names :=
    Finset.subset_union_right.trans (Finset.subset_insert _ _)
  have rest : ∑ name ∈ names.erase path, next.uncovered selectNext coverNext name ≤
      ∑ name ∈ names.erase path, system.uncovered select cover name :=
    Finset.sum_le_sum fun name mem => lighter name (Finset.ne_of_mem_erase mem)
  rw [weigh_eq_sum before, weigh_eq_sum after, ← Finset.add_sum_erase _ _ here,
    ← Finset.add_sum_erase _ (system.uncovered select cover) here]
  omega

/-- What is covered by a sum of its own is weighed once that sum is added. -/
theorem weigh_le_weigh_add (cover : Bytes → ℕ) :
    system.weigh select (fun _ => 0) ≤
      system.weigh select cover + ∑ path ∈ system.paths, cover path := by
  rw [weigh, weigh, ← Finset.sum_add_distrib]
  refine Finset.sum_le_sum fun name _ => ?_
  simp only [uncovered]
  split <;> omega

/-! ### Every name has a file of its own -/

/-- Names stand for files that exist, and no two of them for the same one. -/
structure Tidy (system : FileSystem Note) : Prop where
  linked : ∀ {path : Bytes} {file : ℕ}, system.find path = some file → file < system.files.length
  apart : ∀ {path other : Bytes} {file : ℕ}, system.find path = some file →
    system.find other = some file → path = other

theorem Tidy.fileAt (tidy : system.Tidy) (found : system.find path = some file) :
    ∃ content, system.fileAt path = some content ∧ system.files[file]? = some content := by
  have bound := tidy.linked found
  refine ⟨system.files[file], ?_, List.getElem?_eq_getElem bound⟩
  simp [FileSystem.fileAt, found, List.getElem?_eq_getElem bound]

/-- A directory with the given names and files, an earlier one of a name hiding a later. -/
def holding (now : ℕ) : List (Bytes × File Note) → FileSystem Note
  | [] => { now }
  | (path, file) :: rest =>
      let system := holding now rest
      { system with
        names := system.names.insert path system.files.length
        files := system.files ++ [file] }

theorem Tidy.link (tidy : system.Tidy) (path : Bytes) (added : File Note) :
    Tidy
      { system with
        names := system.names.insert path system.files.length
        files := system.files ++ [added] } := by
  have found : ∀ {name : Bytes} {file : ℕ},
      (system.names.insert path system.files.length).lookup name = some file →
        name = path ∧ file = system.files.length ∨ name ≠ path ∧ system.find name = some file := by
    intro name file named
    by_cases same : name = path
    · subst same
      rw [AList.lookup_insert] at named
      exact Or.inl ⟨rfl, (Option.some.inj named).symm⟩
    · rw [AList.lookup_insert_ne same] at named
      exact Or.inr ⟨same, named⟩
  constructor
  · intro name file named
    rw [List.length_append, List.length_singleton]
    rcases found named with ⟨_, rfl⟩ | ⟨_, before⟩
    · exact Nat.lt_succ_self _
    · exact Nat.lt_succ_of_lt (tidy.linked before)
  · intro name other file named otherNamed
    rcases found named with ⟨rfl, rfl⟩ | ⟨_, before⟩ <;>
      rcases found otherNamed with ⟨rfl, same⟩ | ⟨_, otherBefore⟩
    · rfl
    · exact absurd (tidy.linked otherBefore) (Nat.lt_irrefl _)
    · subst same
      exact absurd (tidy.linked before) (Nat.lt_irrefl _)
    · exact tidy.apart before otherBefore

theorem tidy_holding (now : ℕ) (contents : List (Bytes × File Note)) :
    (holding now contents).Tidy := by
  induction contents with
  | nil => exact ⟨by simp [holding, find], by simp [holding, find]⟩
  | cons entry rest ih => exact ih.link entry.1 entry.2

section Changes

variable {note : Note} {change : Bytes → Bytes}

theorem fileAt_remove : (system.remove path).fileAt other =
    if other = path then none else system.fileAt other := by
  simp only [fileAt, find_remove]
  split <;> rfl

theorem fileAt_removeUnder {root : Bytes} : (system.removeUnder root).fileAt other =
    if root.isPrefixOf other then none else system.fileAt other := by
  simp only [fileAt, find_removeUnder]
  split <;> rfl

theorem fileAt_rename {source target : Bytes} (found : system.find source = some file) :
    (system.rename source target).fileAt other =
      if other = target then system.fileAt source else if other = source then none
      else system.fileAt other := by
  simp only [fileAt, find_rename found, files_rename]
  split
  · rw [found]
  · split <;> rfl

theorem fileAt_modify (unnamed : system.find other ≠ some file) :
    (system.modify file change).fileAt other = system.fileAt other := by
  simp only [modify]
  split
  · rfl
  · simp only [fileAt, find]
    cases named : system.names.lookup other with
    | none => rfl
    | some found =>
      have different : file ≠ found := by
        rintro rfl
        exact unnamed named
      simp [List.getElem?_set_ne different]

theorem find_modify :
    (system.modify file change).find other = system.find other := by
  simp only [modify]
  split <;> rfl

theorem length_files_modify :
    (system.modify file change).files.length = system.files.length := by
  simp only [modify]
  split
  · rfl
  · exact List.length_set

theorem getElem?_files_modify {found : File Note}
    (present : system.files[file]? = some found) :
    (system.modify file change).files[file]? =
      some { found with content := change found.content, written := system.now } := by
  have bound := (List.getElem?_eq_some_iff.mp present).1
  simp only [modify, present]
  exact List.getElem?_set_self bound

/-- What a change leaves of the files: all but one as they were. -/
theorem getElem?_files_modify_cases {index : ℕ} {after : File Note}
    (present : (system.modify file change).files[index]? = some after) :
    system.files[index]? = some after ∨ index = file ∧ ∃ found, system.files[file]? = some found ∧
      after = { found with content := change found.content, written := system.now } := by
  simp only [modify] at present
  split at present
  · exact Or.inl present
  · rename_i found held
    rcases Machine.getElem?_set_cases present with ⟨same, rfl⟩ | ⟨_, before⟩
    · exact Or.inr ⟨same, found, held, rfl⟩
    · exact Or.inl before

/-- Every file is still there, with the note it was made with. -/
def Keeps (system next : FileSystem Note) : Prop :=
  ∀ {file : ℕ} {found : File Note}, system.files[file]? = some found →
    ∃ later, next.files[file]? = some later ∧ later.note = found.note

theorem keeps_of_files_eq (files : next.files = system.files) : system.Keeps next := by
  intro file found present
  exact ⟨found, by rwa [files], rfl⟩

theorem keeps_modify (change : Bytes → Bytes) : system.Keeps (system.modify file change) := by
  intro index found present
  by_cases same : index = file
  · subst same
    exact ⟨_, getElem?_files_modify present, rfl⟩
  · refine ⟨found, ?_, rfl⟩
    simp only [modify]
    split
    · exact present
    · rwa [List.getElem?_set_ne (Ne.symm same)]

theorem find_create_self :
    (system.create path note).1.find path = some (system.create path note).2 := by
  cases named : system.find path with
  | none =>
    rw [find_create_of_absent named, if_pos rfl]
    simp [create, named]
  | some file =>
    simp only [create, named]
    exact find_modify.trans named

variable (tidy : system.Tidy)

include tidy

theorem Tidy.getElem?_files_create :
    ∃ opened, (system.create path note).1.files[(system.create path note).2]? = some opened ∧
      opened.content = [] := by
  cases named : system.find path with
  | none =>
    simp only [create, named]
    exact ⟨_, List.getElem?_concat_length, rfl⟩
  | some file =>
    rcases tidy.fileAt named with ⟨found, _, present⟩
    simp only [create, named]
    exact ⟨_, getElem?_files_modify present, rfl⟩

theorem fileAt_create (different : other ≠ path) :
    (system.create path note).1.fileAt other = system.fileAt other := by
  simp only [create]
  split
  · rename_i file found
    exact fileAt_modify fun named => different (tidy.apart named found)
  · simp only [fileAt, find, AList.lookup_insert_ne different]
    cases named : system.names.lookup other with
    | none => rfl
    | some found =>
      have bound : found < system.files.length := tidy.linked named
      simp [List.getElem?_append_left bound]

theorem Tidy.dropNames (files : next.files = system.files)
    (subset : ∀ {path : Bytes} {file : ℕ}, next.find path = some file →
      system.find path = some file) : next.Tidy where
  linked found := by
    rw [files]
    exact tidy.linked (subset found)
  apart found otherFound := tidy.apart (subset found) (subset otherFound)

theorem Tidy.modify (file : ℕ) (change : Bytes → Bytes) : (system.modify file change).Tidy where
  linked found := by
    rw [find_modify] at found
    rw [length_files_modify]
    exact tidy.linked found
  apart found otherFound := by
    rw [find_modify] at found otherFound
    exact tidy.apart found otherFound

theorem Tidy.rename (source target : Bytes) : (system.rename source target).Tidy := by
  cases found : system.find source with
  | none => simpa [FileSystem.rename, found] using tidy
  | some file =>
    constructor
    · intro path other named
      rw [find_rename found] at named
      rw [files_rename]
      split at named
      · cases named
        exact tidy.linked found
      · split at named
        · cases named
        · exact tidy.linked named
    · intro path other same named otherNamed
      rw [find_rename found] at named otherNamed
      split at named <;> split at otherNamed
      · rename_i first second
        rw [first, second]
      · cases named
        split at otherNamed
        · cases otherNamed
        · rename_i elsewhere
          exact absurd (tidy.apart otherNamed found) elsewhere
      · cases otherNamed
        split at named
        · cases named
        · rename_i elsewhere
          exact absurd (tidy.apart named found) elsewhere
      · split at named
        · cases named
        · split at otherNamed
          · cases otherNamed
          · exact tidy.apart named otherNamed

theorem Tidy.create (path : Bytes) (note : Note) : (system.create path note).1.Tidy := by
  simp only [FileSystem.create]
  split
  · rename_i file _
    exact tidy.modify file fun _ => []
  · exact tidy.link path ⟨[], system.now, note⟩

end Changes

end FileSystem
