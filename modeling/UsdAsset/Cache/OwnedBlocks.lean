import Mathlib.Data.List.TakeWhile
import UsdAsset.Lib.ByteString

/-!
# The blocks one read owns

Models `OwnedBlocks` of `CachedAssetReader.cpp`.  The list keeps what was settled,
because the persistent tier settles blocks out of order; the cursor skips them.
The two facts the source relies on are part of the structure: the count is the
number of unsettled entries, and everything before the cursor is settled.
-/

namespace UsdAsset.Cache

structure OwnedEntry where
  index : ℕ
  settled : Bool
  deriving DecidableEq, Repr

def OwnedEntry.settle (entry : OwnedEntry) : OwnedEntry := { entry with settled := true }

def unsettled (entries : List OwnedEntry) : List OwnedEntry :=
  entries.filter fun entry => !entry.settled

theorem unsettled_append (front rest : List OwnedEntry) :
    unsettled (front ++ rest) = unsettled front ++ unsettled rest :=
  List.filter_append _ _

theorem unsettled_of_settled {entries : List OwnedEntry}
    (settled : ∀ entry ∈ entries, entry.settled = true) : unsettled entries = [] := by
  simpa [unsettled] using settled

theorem unsettled_split {front rest : List OwnedEntry} {entry : OwnedEntry}
    (owned : entry.settled = false) :
    unsettled (front ++ entry :: rest) = unsettled front ++ entry :: unsettled rest := by
  simp [unsettled, owned]

theorem unsettled_settle (front rest : List OwnedEntry) (entry : OwnedEntry) :
    unsettled (front ++ entry.settle :: rest) = unsettled front ++ unsettled rest := by
  simp [unsettled, OwnedEntry.settle]

structure OwnedBlocks where
  entries : List OwnedEntry
  count : ℕ
  cursor : ℕ
  count_eq : count = (unsettled entries).length
  settled_before : ∀ entry ∈ entries.take cursor, entry.settled = true
  cursor_le : cursor ≤ entries.length

namespace OwnedBlocks

def empty : OwnedBlocks where
  entries := []
  count := 0
  cursor := 0
  count_eq := rfl
  settled_before := by simp
  cursor_le := Nat.le_refl 0

/-- The blocks still owned, in the order they were acquired. -/
def outstanding (owned : OwnedBlocks) : List ℕ := (unsettled owned.entries).map OwnedEntry.index

def allSettled (owned : OwnedBlocks) : Bool := owned.count == 0

def add (owned : OwnedBlocks) (block : ℕ) : OwnedBlocks where
  entries := owned.entries ++ [⟨block, false⟩]
  count := owned.count + 1
  cursor := owned.cursor
  count_eq := by simp [owned.count_eq, unsettled]
  settled_before := by
    rw [List.take_append_of_le_length owned.cursor_le]
    exact owned.settled_before
  cursor_le := by
    have := owned.cursor_le
    simp
    omega

/-- Where the cursor stands after skipping what is settled. -/
def skipSettled (owned : OwnedBlocks) : ℕ :=
  owned.cursor + ((owned.entries.drop owned.cursor).takeWhile OwnedEntry.settled).length

theorem take_skipSettled (owned : OwnedBlocks) :
    owned.entries.take owned.skipSettled = owned.entries.take owned.cursor ++
      (owned.entries.drop owned.cursor).takeWhile OwnedEntry.settled := by
  rw [skipSettled, List.take_add, ← List.prefix_iff_eq_take.mp (List.takeWhile_prefix _)]

theorem drop_skipSettled (owned : OwnedBlocks) :
    owned.entries.drop owned.skipSettled =
      (owned.entries.drop owned.cursor).dropWhile OwnedEntry.settled := by
  generalize tail : owned.entries.drop owned.cursor = rest
  rw [skipSettled, ← List.drop_drop, tail]
  calc rest.drop (rest.takeWhile OwnedEntry.settled).length
    _ = (rest.takeWhile OwnedEntry.settled ++ rest.dropWhile OwnedEntry.settled).drop
          (rest.takeWhile OwnedEntry.settled).length := by rw [List.takeWhile_append_dropWhile]
    _ = rest.dropWhile OwnedEntry.settled := List.drop_left

theorem settled_before_skip (owned : OwnedBlocks) :
    ∀ entry ∈ owned.entries.take owned.skipSettled, entry.settled = true := by
  intro entry entryMem
  rw [take_skipSettled, List.mem_append] at entryMem
  rcases entryMem with entryMem | entryMem
  · exact owned.settled_before entry entryMem
  · exact List.mem_takeWhile_imp entryMem

theorem entries_split (owned : OwnedBlocks) :
    owned.entries = owned.entries.take owned.skipSettled ++
      owned.entries.drop owned.skipSettled :=
  (List.take_append_drop _ _).symm

/-- The first block still owned; meaningful where not everything is settled. -/
def next (owned : OwnedBlocks) : ℕ :=
  match owned.entries.drop owned.skipSettled with
  | entry :: _ => entry.index
  | [] => 0

def settleHead : List OwnedEntry → List OwnedEntry
  | [] => []
  | entry :: rest => entry.settle :: rest

theorem drop_skipSettled_cases (owned : OwnedBlocks) :
    owned.entries.drop owned.skipSettled = [] ∨
      ∃ entry rest, owned.entries.drop owned.skipSettled = entry :: rest ∧
        entry.settled = false := by
  cases under : owned.entries.drop owned.skipSettled with
  | nil => exact Or.inl rfl
  | cons entry rest =>
    refine Or.inr ⟨entry, rest, rfl, ?_⟩
    rw [drop_skipSettled] at under
    have head := List.head?_dropWhile_not OwnedEntry.settled (owned.entries.drop owned.cursor)
    rw [under] at head
    simpa using head

theorem unsettled_eq_drop (owned : OwnedBlocks) :
    unsettled owned.entries = unsettled (owned.entries.drop owned.skipSettled) := by
  rw [owned.entries_split, unsettled_append, unsettled_of_settled owned.settled_before_skip,
    ← owned.entries_split, List.nil_append]

theorem skipSettled_le (owned : OwnedBlocks) : owned.skipSettled ≤ owned.entries.length := by
  have skipped := (List.takeWhile_prefix (l := owned.entries.drop owned.cursor)
    OwnedEntry.settled).length_le
  have := owned.cursor_le
  rw [List.length_drop] at skipped
  rw [skipSettled]
  omega

/-- Settles the block `next` names. -/
def markPublished (owned : OwnedBlocks) : OwnedBlocks where
  entries := owned.entries.take owned.skipSettled ++
    settleHead (owned.entries.drop owned.skipSettled)
  count := owned.count - 1
  cursor := owned.skipSettled
  count_eq := by
    rw [owned.count_eq, owned.unsettled_eq_drop, unsettled_append,
      unsettled_of_settled owned.settled_before_skip]
    rcases owned.drop_skipSettled_cases with none | ⟨entry, rest, under, unsettledHead⟩
    · rw [none]
      rfl
    · rw [under]
      simp [settleHead, unsettled, unsettledHead, OwnedEntry.settle]
  settled_before := by
    rw [List.take_left' (List.length_take_of_le owned.skipSettled_le)]
    exact owned.settled_before_skip
  cursor_le := by
    rw [List.length_append, List.length_take_of_le owned.skipSettled_le]
    omega

/-- Settles the first unsettled entry of a block, if there is one. -/
def settleFirst (block : ℕ) : List OwnedEntry → Option (List OwnedEntry)
  | [] => none
  | entry :: rest =>
      if entry.index = block ∧ entry.settled = false then some (entry.settle :: rest)
      else (settleFirst block rest).map (entry :: ·)

theorem settleFirst_some {block : ℕ} {entries settled : List OwnedEntry}
    (found : settleFirst block entries = some settled) :
    ∃ front entry rest, entries = front ++ entry :: rest ∧
      settled = front ++ entry.settle :: rest ∧ entry.index = block ∧ entry.settled = false ∧
      block ∉ (unsettled front).map OwnedEntry.index := by
  induction entries generalizing settled with
  | nil => cases found
  | cons entry rest ih =>
    simp only [settleFirst] at found
    split at found
    · rename_i here
      cases found
      exact ⟨[], entry, rest, rfl, rfl, here.1, here.2, by simp [unsettled]⟩
    · rename_i elsewhere
      rcases Option.map_eq_some_iff.mp found with ⟨later, foundLater, rfl⟩
      rcases ih foundLater with ⟨front, mine, behind, rfl, rfl, index, owned, before⟩
      refine ⟨entry :: front, mine, behind, rfl, rfl, index, owned, ?_⟩
      cases settledEntry : entry.settled with
      | true => simpa [unsettled, settledEntry] using before
      | false =>
        have other : block ≠ entry.index := fun same => elsewhere ⟨same.symm, settledEntry⟩
        simpa [unsettled, settledEntry, other] using before

theorem settleFirst_none {block : ℕ} {entries : List OwnedEntry}
    (missing : settleFirst block entries = none) :
    block ∉ (unsettled entries).map OwnedEntry.index := by
  induction entries with
  | nil => simp [unsettled]
  | cons entry rest ih =>
    simp only [settleFirst] at missing
    split at missing
    · cases missing
    · rename_i elsewhere
      have later := ih (Option.map_eq_none_iff.mp missing)
      cases settledEntry : entry.settled with
      | true => simpa [unsettled, settledEntry] using later
      | false =>
        have other : block ≠ entry.index := fun same => elsewhere ⟨same.symm, settledEntry⟩
        simpa [unsettled, settledEntry, other] using later

/-- Settles one particular block, wherever it sits in the list. -/
def settle (owned : OwnedBlocks) (block : ℕ) : OwnedBlocks :=
  match found : settleFirst block owned.entries with
  | none => owned
  | some entries =>
      { entries
        count := owned.count - 1
        cursor := owned.cursor
        count_eq := by
          rcases settleFirst_some found with ⟨front, entry, rest, split, rfl, _, unsettledEntry, _⟩
          rw [owned.count_eq, split, unsettled_split unsettledEntry, unsettled_settle]
          simp
        settled_before := by
          rcases settleFirst_some found with ⟨front, entry, rest, split, rfl, _, _, _⟩
          intro other otherMem
          have before := owned.settled_before
          rw [split] at before
          rw [List.take_append] at otherMem before
          rcases List.mem_append.mp otherMem with otherMem | otherMem
          · exact before other (List.mem_append_left _ otherMem)
          · cases past : owned.cursor - front.length with
            | zero => simp [past] at otherMem
            | succ more =>
                rw [past, List.take_succ_cons] at otherMem before
                rcases List.mem_cons.mp otherMem with rfl | otherMem
                · rfl
                · exact before other (by simp [otherMem])
        cursor_le := by
          rcases settleFirst_some found with ⟨front, entry, rest, split, rfl, _, _, _⟩
          have within := owned.cursor_le
          rw [split] at within
          simpa using within }

/-! ### What is still owned -/

@[simp]
theorem outstanding_empty : empty.outstanding = [] := rfl

@[simp]
theorem outstanding_add (owned : OwnedBlocks) (block : ℕ) :
    (owned.add block).outstanding = owned.outstanding ++ [block] := by
  simp [outstanding, add, unsettled]

theorem length_outstanding (owned : OwnedBlocks) : owned.outstanding.length = owned.count := by
  rw [outstanding, List.length_map, owned.count_eq]

theorem allSettled_iff (owned : OwnedBlocks) :
    owned.allSettled = true ↔ owned.outstanding = [] := by
  simp [allSettled, owned.count_eq, outstanding]

theorem outstanding_eq_drop (owned : OwnedBlocks) :
    owned.outstanding =
      (unsettled (owned.entries.drop owned.skipSettled)).map OwnedEntry.index := by
  rw [outstanding, owned.unsettled_eq_drop]

theorem outstanding_cons {owned : OwnedBlocks} (unsettledSome : owned.allSettled = false) :
    owned.outstanding = owned.next :: owned.markPublished.outstanding := by
  rcases owned.drop_skipSettled_cases with none | ⟨entry, rest, under, unsettledHead⟩
  · have settled : owned.allSettled = true := by
      rw [allSettled_iff, outstanding_eq_drop, none]
      rfl
    rw [settled] at unsettledSome
    cases unsettledSome
  · have published : owned.markPublished.outstanding = (unsettled rest).map OwnedEntry.index := by
      simp only [outstanding, markPublished, unsettled_append,
        unsettled_of_settled owned.settled_before_skip, under, settleHead]
      simp [unsettled, OwnedEntry.settle]
    rw [published, outstanding_eq_drop, under, next, under]
    simp [unsettled, unsettledHead]

theorem outstanding_settle (owned : OwnedBlocks) (block : ℕ) :
    (owned.settle block).outstanding = owned.outstanding.erase block := by
  simp only [settle]
  split
  · rename_i missing
    exact (List.erase_of_not_mem (settleFirst_none missing)).symm
  · rename_i entries found
    rcases settleFirst_some found with
      ⟨front, entry, rest, split, rfl, index, unsettledEntry, before⟩
    simp only [outstanding, split, unsettled_split unsettledEntry, unsettled_settle,
      List.map_append, List.map_cons, index]
    rw [List.erase_append_right _ before, List.erase_cons_head]

end OwnedBlocks

end UsdAsset.Cache
