import Mathlib.Algebra.Ring.Nat
import Mathlib.Data.List.Nodup
import Mathlib.Logic.Function.Basic

/-!
# Tables with an insertion-order queue

A table of bounded size keeps its keys in the order they came in, and drops the
oldest ones where a new one does not fit.  The queue lists the keys of the table,
each of them once.
-/

structure QueuedTable (Key Value : Type) where
  entries : Key → Option Value
  order : List Key

namespace QueuedTable

variable {Key Value : Type} [DecidableEq Key]

def empty : QueuedTable Key Value := ⟨fun _ => none, []⟩

/-- Drops the oldest keys until no more than `capacity` are left. -/
def evictFrom (capacity : ℕ) (entries : Key → Option Value) : List Key → QueuedTable Key Value
  | [] => ⟨entries, []⟩
  | oldest :: rest =>
      if rest.length + 1 > capacity then
        evictFrom capacity (Function.update entries oldest none) rest
      else ⟨entries, oldest :: rest⟩

/-- Adds a key behind the others and drops what does not fit any more. -/
def insert (capacity : ℕ) (table : QueuedTable Key Value) (key : Key) (value : Value) :
    QueuedTable Key Value :=
  evictFrom capacity (Function.update table.entries key (some value)) (table.order ++ [key])

/-- Changes the value of a key, which keeps its place in the queue. -/
def replace (table : QueuedTable Key Value) (key : Key) (value : Value) : QueuedTable Key Value :=
  { table with entries := Function.update table.entries key (some value) }

/-- Removes a key from the table, and from the queue where it is first found. -/
def erase (table : QueuedTable Key Value) (key : Key) : QueuedTable Key Value :=
  ⟨Function.update table.entries key none, table.order.erase key⟩

theorem of_evictFrom {capacity : ℕ} {order : List Key} {entries : Key → Option Value} {key : Key}
    {value : Value} (held : (evictFrom capacity entries order).entries key = some value) :
    entries key = some value := by
  induction order generalizing entries with
  | nil => exact held
  | cons oldest rest ih =>
    simp only [evictFrom] at held
    split at held
    · have kept := ih held
      by_cases same : key = oldest
      · subst same
        simp at kept
      · simpa [same] using kept
    · exact held

theorem of_insert {capacity : ℕ} {table : QueuedTable Key Value} {added key : Key}
    {value held : Value} (found : (table.insert capacity added value).entries key = some held) :
    key = added ∧ held = value ∨ table.entries key = some held := by
  have kept := of_evictFrom found
  by_cases same : key = added
  · subst same
    exact Or.inl ⟨rfl, by simpa using kept.symm⟩
  · exact Or.inr (by simpa [same] using kept)

theorem of_erase {table : QueuedTable Key Value} {erased key : Key} {held : Value}
    (found : (table.erase erased).entries key = some held) :
    key ≠ erased ∧ table.entries key = some held := by
  by_cases same : key = erased
  · subst same
    simp [erase] at found
  · exact ⟨same, by simpa [erase, same] using found⟩

/-- The queue lists each key of the table once and nothing else, and it is not too long. -/
structure WellFormed (capacity : ℕ) (table : QueuedTable Key Value) : Prop where
  nodup : table.order.Nodup
  listed : ∀ key, key ∈ table.order ↔ (table.entries key).isSome
  bounded : table.order.length ≤ capacity

omit [DecidableEq Key] in
theorem wellFormed_empty (capacity : ℕ) : (empty : QueuedTable Key Value).WellFormed capacity :=
  ⟨List.nodup_nil, by simp [empty], by simp [empty]⟩

namespace WellFormed

variable {capacity : ℕ} {table : QueuedTable Key Value} {key : Key}

theorem erase (wellFormed : table.WellFormed capacity) (key : Key) :
    (table.erase key).WellFormed capacity where
  nodup := wellFormed.nodup.erase key
  listed other := by
    by_cases same : other = key
    · subst same
      simp [QueuedTable.erase, wellFormed.nodup.mem_erase_iff]
    · simp [QueuedTable.erase, wellFormed.nodup.mem_erase_iff, same, wellFormed.listed]
  bounded := Nat.le_trans List.length_erase_le wellFormed.bounded

/-- A table that is full forgets its oldest key for a new one, and no other key. -/
theorem insert_eq (wellFormed : table.WellFormed capacity) (positive : 0 < capacity)
    (key : Key) (value : Value) :
    (table.order.length < capacity ∧ table.insert capacity key value =
        ⟨Function.update table.entries key (some value), table.order ++ [key]⟩) ∨
      ∃ oldest rest, table.order = oldest :: rest ∧ table.order.length = capacity ∧
        table.insert capacity key value =
          ⟨Function.update (Function.update table.entries key (some value)) oldest none,
            rest ++ [key]⟩ := by
  have bounded := wellFormed.bounded
  cases queued : table.order with
  | nil =>
    left
    refine ⟨positive, ?_⟩
    simp [QueuedTable.insert, queued, evictFrom, Nat.not_lt.mpr positive]
  | cons oldest rest =>
    rw [queued, List.length_cons] at bounded
    rcases Nat.lt_or_ge (rest.length + 1) capacity with below | full
    · left
      refine ⟨below, ?_⟩
      have fits : ¬(rest ++ [key]).length + 1 > capacity := by simp; omega
      simp only [QueuedTable.insert, queued, List.cons_append, evictFrom, if_neg fits]
    · right
      have exceeds : (rest ++ [key]).length + 1 > capacity := by simp; omega
      refine ⟨oldest, rest, rfl, Nat.le_antisymm bounded full, ?_⟩
      simp only [QueuedTable.insert, queued, List.cons_append, evictFrom, if_pos exceeds]
      cases rest with
      | nil =>
        have fits : ¬([] : List Key).length + 1 > capacity := by simp; omega
        simp only [List.nil_append, evictFrom, if_neg fits]
      | cons next others =>
        have fits : ¬(others ++ [key]).length + 1 > capacity := by
          simp at bounded ⊢
          omega
        simp only [List.cons_append, evictFrom, if_neg fits]

theorem insert (wellFormed : table.WellFormed capacity) (positive : 0 < capacity)
    (absent : table.entries key = none) (value : Value) :
    (table.insert capacity key value).WellFormed capacity := by
  have fresh : key ∉ table.order := by
    rw [wellFormed.listed, absent]
    simp
  have listed : ∀ other, other ∈ table.order ++ [key] ↔
      (Function.update table.entries key (some value) other).isSome := by
    intro other
    by_cases same : other = key
    · subst same
      simp
    · simp [same, wellFormed.listed]
  have nodup : (table.order ++ [key]).Nodup := by
    rw [← List.concat_eq_append]
    exact wellFormed.nodup.concat fresh
  rcases wellFormed.insert_eq positive key value with
    ⟨below, inserted⟩ | ⟨oldest, rest, queued, full, inserted⟩
  · rw [inserted]
    exact ⟨nodup, listed, by simp; omega⟩
  · rw [inserted]
    rw [queued, List.cons_append, List.nodup_cons] at nodup
    refine ⟨nodup.2, ?_, ?_⟩
    · intro other
      by_cases same : other = oldest
      · subst same
        simpa using nodup.1
      · have keys := listed other
        rw [queued, List.cons_append, List.mem_cons] at keys
        simpa [same] using keys
    · rw [queued] at full
      simp at full ⊢
      omega

end WellFormed

end QueuedTable
