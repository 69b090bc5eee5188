import Mathlib.Algebra.Ring.Nat
import Mathlib.Data.List.Infix

/-!
# Cutting a list into groups

A list is cut into consecutive groups, each of which has to be legal.  If every part of
a legal group is legal, then taking elements into the open group for as long as it
stays legal needs the fewest groups.
-/

namespace Segmentation

variable {α : Type*} (legal : List α → Prop)

/-- Legal groups that make up a list. -/
structure IsSegmentation (groups : List (List α)) (list : List α) : Prop where
  flatten : groups.flatten = list
  nonempty : ∀ group ∈ groups, group ≠ []
  legal : ∀ group ∈ groups, legal group

/-- A part of a legal group, from its start or up to its end, is legal. -/
structure Hereditary : Prop where
  singleton : ∀ element, legal [element]
  ofPrefix : ∀ {part whole : List α}, part <+: whole → part ≠ [] → legal whole → legal part
  ofSuffix : ∀ {part whole : List α}, part <:+ whole → part ≠ [] → legal whole → legal part

variable [DecidablePred legal]

/-- The groups of the elements that follow an open group. -/
def greedyFrom (current : List α) : List α → List (List α)
  | [] => [current]
  | next :: rest =>
      if legal (current ++ [next]) then greedyFrom (current ++ [next]) rest
      else current :: greedyFrom [next] rest

/-- Takes elements into the open group for as long as it stays legal. -/
def greedy : List α → List (List α)
  | [] => []
  | first :: rest => greedyFrom legal [first] rest

/-- The first group is closed where it cannot take the next element. -/
structure FirstGroup (current rest taken left : List α) : Prop where
  split : rest = taken ++ left
  groups : greedyFrom legal current rest = (current ++ taken) :: greedy legal left
  allowed : legal (current ++ taken)
  closed : ∀ {next : α} {others : List α}, left = next :: others →
    ¬legal (current ++ taken ++ [next])

variable {legal}

theorem exists_firstGroup {current : List α} (legalCurrent : legal current) (rest : List α) :
    ∃ taken left, FirstGroup legal current rest taken left := by
  induction rest generalizing current with
  | nil =>
    refine ⟨[], [], rfl, ?_, ?_, nofun⟩
    · simp [greedyFrom, greedy]
    · simpa using legalCurrent
  | cons next rest ih =>
    by_cases joins : legal (current ++ [next])
    · rcases ih joins with ⟨taken, left, split, groups, legalTaken, closed⟩
      refine ⟨next :: taken, left, ?_, ?_, ?_, ?_⟩
      · rw [split, List.cons_append]
      · rw [greedyFrom, if_pos joins, groups, ← List.append_cons]
      · rwa [List.append_cons]
      · rwa [List.append_cons]
    · refine ⟨[], next :: rest, rfl, ?_, ?_, ?_⟩
      · rw [greedyFrom, if_neg joins, List.append_nil, greedy]
      · simpa using legalCurrent
      · rintro _ _ ⟨rfl, rfl⟩
        simpa using joins

variable (hereditary : Hereditary legal)

include hereditary

theorem FirstGroup.prefix_of_legal {current rest taken left part : List α}
    (first : FirstGroup legal current rest taken left) (starts : part <+: current ++ rest)
    (legalPart : legal part) : part <+: current ++ taken := by
  have whole : current ++ taken <+: current ++ rest := by
    rw [first.split, ← List.append_assoc]
    exact List.prefix_append _ _
  rcases List.prefix_or_prefix_of_prefix starts whole with inside | ⟨more, rfl⟩
  · exact inside
  · cases more with
    | nil => simp
    | cons next more =>
      exfalso
      rw [first.split, ← List.append_assoc, List.prefix_append_right_inj] at starts
      rcases starts with ⟨others, shape⟩
      have longer : current ++ taken ++ [next] <+: current ++ taken ++ next :: more := by
        rw [List.append_cons _ next more]
        exact List.prefix_append _ _
      exact first.closed shape.symm (hereditary.ofPrefix longer (by simp) legalPart)

theorem greedyFrom_isSegmentation {current : List α} (nonempty : current ≠ [])
    (legalCurrent : legal current) (rest : List α) :
    IsSegmentation legal (greedyFrom legal current rest) (current ++ rest) := by
  induction rest generalizing current with
  | nil =>
    refine ⟨by simp [greedyFrom], ?_, ?_⟩
    · simpa [greedyFrom] using nonempty
    · simpa [greedyFrom] using legalCurrent
  | cons next rest ih =>
    rw [greedyFrom]
    split
    · rename_i joins
      rw [List.append_cons current next rest]
      exact ih (by simp) joins
    · have later := ih (by simp) (hereditary.singleton next)
      refine ⟨?_, ?_, ?_⟩
      · rw [List.flatten_cons, later.flatten, List.singleton_append]
      · exact List.forall_mem_cons.mpr ⟨nonempty, later.nonempty⟩
      · exact List.forall_mem_cons.mpr ⟨legalCurrent, later.legal⟩

theorem greedy_isSegmentation (list : List α) : IsSegmentation legal (greedy legal list) list := by
  cases list with
  | nil => exact ⟨rfl, nofun, nofun⟩
  | cons first rest =>
    exact greedyFrom_isSegmentation hereditary (by simp) (hereditary.singleton first) rest

theorem length_greedy_le_of_suffix {groups : List (List α)} {list part : List α}
    (segmentation : IsSegmentation legal groups list) (ends : part <:+ list) :
    (greedy legal part).length ≤ groups.length := by
  induction groups generalizing list part with
  | nil =>
    have empty : list = [] := segmentation.flatten.symm
    rw [empty, List.suffix_nil] at ends
    rw [ends]
    exact Nat.le_refl 0
  | cons group groups ih =>
    rcases segmentation with ⟨rfl, nonempty, legalGroups⟩
    rcases List.forall_mem_cons.mp nonempty with ⟨_, nonempties⟩
    rcases List.forall_mem_cons.mp legalGroups with ⟨legalGroup, legals⟩
    have later : IsSegmentation legal groups groups.flatten := ⟨rfl, nonempties, legals⟩
    rw [List.flatten_cons] at ends
    rcases List.suffix_or_suffix_of_suffix ends (List.suffix_append group groups.flatten) with
      behind | ⟨overlap, rfl⟩
    · exact Nat.le_succ_of_le (ih later behind)
    · -- The part begins inside the first group, or where that group ends.
      have overlapEnds : overlap <:+ group := by
        rcases ends with ⟨before, shape⟩
        rw [← List.append_assoc] at shape
        exact ⟨before, List.append_cancel_right shape⟩
      cases overlap with
      | nil => exact Nat.le_succ_of_le (ih later (List.suffix_refl _))
      | cons element overlap =>
        rcases exists_firstGroup (hereditary.singleton element) (overlap ++ groups.flatten)
          with ⟨taken, left, first⟩
        have legalOverlap := hereditary.ofSuffix overlapEnds (by simp) legalGroup
        have covered : element :: overlap <+: [element] ++ taken :=
          first.prefix_of_legal hereditary
            (List.prefix_append (element :: overlap) groups.flatten) legalOverlap
        have leftEnds : left <:+ groups.flatten := by
          rcases List.cons_prefix_cons.mp covered with ⟨_, rest, rfl⟩
          have split := first.split
          rw [List.append_assoc, List.append_cancel_left_eq] at split
          exact ⟨rest, split.symm⟩
        rw [List.cons_append, greedy, first.groups, List.length_cons, List.length_cons]
        exact Nat.succ_le_succ (ih later leftEnds)

/-- No segmentation has fewer groups. -/
theorem length_greedy_le {groups : List (List α)} {list : List α}
    (segmentation : IsSegmentation legal groups list) :
    (greedy legal list).length ≤ groups.length :=
  length_greedy_le_of_suffix hereditary segmentation (List.suffix_refl list)

end Segmentation
