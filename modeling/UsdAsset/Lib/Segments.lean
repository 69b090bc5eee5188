import Mathlib.Algebra.Ring.Nat
import Mathlib.Data.List.Basic

/-!
# Segments of a rooted path

A rooted path is a list of segments, each written behind a separator.  Splitting
such a text and writing the segments again are inverse to one another as long as
no segment holds the separator.
-/

namespace Segments

variable {α : Type} {separator : α}

def render (separator : α) (segments : List (List α)) : List α :=
  segments.flatMap fun segment => separator :: segment

@[simp]
theorem render_nil : render separator [] = [] := rfl

@[simp]
theorem render_cons (segment : List α) (segments : List (List α)) :
    render separator (segment :: segments) =
      separator :: (segment ++ render separator segments) := rfl

@[simp]
theorem render_append (first second : List (List α)) :
    render separator (first ++ second) = render separator first ++ render separator second :=
  List.flatMap_append

theorem render_eq_intercalate {segments : List (List α)} (present : segments ≠ []) :
    render separator segments = separator :: [separator].intercalate segments := by
  induction segments with
  | nil => exact absurd rfl present
  | cons segment rest ih =>
    cases rest with
    | nil => simp
    | cons next rest =>
      rw [render_cons, ih (by simp), List.intercalate_cons_cons]
      simp

variable [BEq α] [LawfulBEq α]

theorem render_splitOn (rest : List α) :
    render separator (rest.splitOn separator) = separator :: rest := by
  rw [render_eq_intercalate (List.splitOn_ne_nil _ _), List.intercalate_splitOn]

theorem splitOn_tail_render {segments : List (List α)} (present : segments ≠ [])
    (plain : ∀ segment ∈ segments, separator ∉ segment) :
    (render separator segments).tail.splitOn separator = segments := by
  rw [render_eq_intercalate present, List.tail_cons, List.splitOn_intercalate separator plain present]

theorem notMem_of_mem_splitOn (text : List α) :
    ∀ segment ∈ text.splitOn separator, separator ∉ segment := by
  induction text with
  | nil => simp
  | cons head rest ih =>
    intro segment segmentMem
    rw [List.splitOn_cons_eq_if_modifyHead] at segmentMem
    split at segmentMem
    · rcases List.mem_cons.mp segmentMem with rfl | later
      · simp
      · exact ih segment later
    · rename_i different
      cases split : rest.splitOn separator with
      | nil => simp [split] at segmentMem
      | cons first others =>
        rw [split, List.modifyHead_cons, List.mem_cons] at segmentMem
        rcases segmentMem with rfl | later
        · rw [List.mem_cons, not_or]
          refine ⟨fun same => different (by simp [same]), ih first (by simp [split])⟩
        · exact ih segment (by simp [split, later])

end Segments
