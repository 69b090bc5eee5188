import Mathlib.Algebra.Ring.Nat
import Mathlib.Logic.Relation

/-!
# Exclusive ownership of keys

Agents claim keys and settle them again.  A key is pending from its claim until
it is settled, and meanwhile exactly one agent holds it.

Agents may also wait for pending keys.  If an agent that waits holds nothing,
then the holder of a pending key does not wait, and no agents wait for each
other in a cycle.
-/

namespace Ownership

universe u v

variable {Agent : Type u} {Key : Type v} {pending pending' : Key → Prop}
  {holds holds' : Agent → Key → Prop}

/-- The pending keys are the held ones, and each is held once. -/
structure Exclusive (pending : Key → Prop) (holds : Agent → Key → Prop) : Prop where
  pending_of_holds : ∀ {agent key}, holds agent key → pending key
  holder : ∀ {key}, pending key → ∃ agent, holds agent key
  unique : ∀ {agent other key}, holds agent key → holds other key → agent = other

/-- What may happen to the keys at once. -/
inductive Move (pending pending' : Key → Prop) (holds holds' : Agent → Key → Prop) : Prop where
  | idle (pendingIff : ∀ key, pending' key ↔ pending key)
      (holdsIff : ∀ agent key, holds' agent key ↔ holds agent key)
  | claim (agent : Agent) (key : Key) (free : ¬pending key)
      (pendingIff : ∀ other, pending' other ↔ other = key ∨ pending other)
      (holdsIff : ∀ holder other,
        holds' holder other ↔ (holder = agent ∧ other = key) ∨ holds holder other)
  | settle (agent : Agent) (key : Key) (held : holds agent key)
      (pendingIff : ∀ other, pending' other ↔ other ≠ key ∧ pending other)
      (holdsIff : ∀ holder other,
        holds' holder other ↔ ¬(holder = agent ∧ other = key) ∧ holds holder other)

theorem Exclusive.claim (exclusive : Exclusive pending holds) {agent : Agent} {key : Key}
    (free : ¬pending key) (pendingIff : ∀ other, pending' other ↔ other = key ∨ pending other)
    (holdsIff : ∀ holder other,
      holds' holder other ↔ (holder = agent ∧ other = key) ∨ holds holder other) :
    Exclusive pending' holds' where
  pending_of_holds := by
    intro holder other held
    rw [pendingIff]
    rcases (holdsIff holder other).mp held with ⟨_, rfl⟩ | old
    · exact Or.inl rfl
    · exact Or.inr (exclusive.pending_of_holds old)
  holder := by
    intro other isPending
    rcases (pendingIff other).mp isPending with rfl | old
    · exact ⟨agent, (holdsIff _ _).mpr (Or.inl ⟨rfl, rfl⟩)⟩
    · rcases exclusive.holder old with ⟨holder, held⟩
      exact ⟨holder, (holdsIff _ _).mpr (Or.inr held)⟩
  unique := by
    intro left right other leftHolds rightHolds
    rcases (holdsIff left other).mp leftHolds with ⟨rfl, rfl⟩ | leftOld
    · rcases (holdsIff right other).mp rightHolds with ⟨rfl, _⟩ | rightOld
      · rfl
      · exact absurd (exclusive.pending_of_holds rightOld) free
    · rcases (holdsIff right other).mp rightHolds with ⟨rfl, rfl⟩ | rightOld
      · exact absurd (exclusive.pending_of_holds leftOld) free
      · exact exclusive.unique leftOld rightOld

theorem Exclusive.settle (exclusive : Exclusive pending holds) {agent : Agent} {key : Key}
    (held : holds agent key) (pendingIff : ∀ other, pending' other ↔ other ≠ key ∧ pending other)
    (holdsIff : ∀ holder other,
      holds' holder other ↔ ¬(holder = agent ∧ other = key) ∧ holds holder other) :
    Exclusive pending' holds' where
  pending_of_holds := by
    intro holder other stillHeld
    rcases (holdsIff holder other).mp stillHeld with ⟨kept, old⟩
    refine (pendingIff other).mpr ⟨?_, exclusive.pending_of_holds old⟩
    rintro rfl
    exact kept ⟨exclusive.unique old held, rfl⟩
  holder := by
    intro other isPending
    rcases (pendingIff other).mp isPending with ⟨otherKey, old⟩
    rcases exclusive.holder old with ⟨holder, oldHeld⟩
    exact ⟨holder, (holdsIff _ _).mpr ⟨fun same => otherKey same.2, oldHeld⟩⟩
  unique := by
    intro left right other leftHolds rightHolds
    exact exclusive.unique ((holdsIff _ _).mp leftHolds).2 ((holdsIff _ _).mp rightHolds).2

/-- Every move keeps ownership exclusive. -/
theorem Exclusive.move (exclusive : Exclusive pending holds)
    (move : Move pending pending' holds holds') : Exclusive pending' holds' := by
  cases move with
  | idle pendingIff holdsIff =>
    refine ⟨?_, ?_, ?_⟩
    · intro agent key held
      exact (pendingIff key).mpr (exclusive.pending_of_holds ((holdsIff agent key).mp held))
    · intro key isPending
      rcases exclusive.holder ((pendingIff key).mp isPending) with ⟨agent, held⟩
      exact ⟨agent, (holdsIff agent key).mpr held⟩
    · intro agent other key left right
      exact exclusive.unique ((holdsIff _ _).mp left) ((holdsIff _ _).mp right)
  | claim agent key free pendingIff holdsIff => exact exclusive.claim free pendingIff holdsIff
  | settle agent key held pendingIff holdsIff => exact exclusive.settle held pendingIff holdsIff

/-! ### Waiting -/

/-- An agent waits for another when it waits for a key the other holds. -/
def WaitsFor (holds waits : Agent → Key → Prop) (agent other : Agent) : Prop :=
  ∃ key, waits agent key ∧ holds other key

/-- Agents that hold nothing while they wait do not wait for each other in a cycle. -/
theorem not_transGen_waitsFor_self {holds waits : Agent → Key → Prop}
    (idle : ∀ {agent awaited held}, waits agent awaited → ¬holds agent held) (agent : Agent) :
    ¬Relation.TransGen (WaitsFor holds waits) agent agent := by
  intro cycle
  rcases Relation.TransGen.head'_iff.mp cycle with ⟨_, ⟨awaited, waits, _⟩, _⟩
  rcases Relation.TransGen.tail'_iff.mp cycle with ⟨_, _, ⟨held, _, holds⟩⟩
  exact idle waits holds

end Ownership
