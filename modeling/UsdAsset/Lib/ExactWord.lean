import Mathlib.Algebra.Ring.Nat

/-!
# Word arithmetic that must not wrap around

The operations of a machine on unsigned words of some width reduce their results.  Here
each is made only where the reduced result is the exact one, and stops the computation
where it is not: a computation that comes to its end made no operation that wraps.
-/

namespace ExactWord

variable (width : ℕ)

/-- The result a machine leaves, if it is the exact one. -/
def exactly (reduced : ℕ) (isExact : Bool) : Option ℕ := if isExact then some reduced else none

def add (first second : ℕ) : Option ℕ :=
  let sum := (first + second) % 2 ^ width
  exactly sum (sum = first + second)

/-- Subtraction adds the complement. -/
def sub (first second : ℕ) : Option ℕ :=
  let difference := (first + (2 ^ width - second)) % 2 ^ width
  exactly difference (difference + second = first)

def mul (first second : ℕ) : Option ℕ :=
  let product := (first * second) % 2 ^ width
  exactly product (product = first * second)

variable {width}

@[simp]
theorem add_of_lt {first second : ℕ} (fits : first + second < 2 ^ width) :
    add width first second = some (first + second) := by
  simp [add, exactly, Nat.mod_eq_of_lt fits]

@[simp]
theorem mul_of_lt {first second : ℕ} (fits : first * second < 2 ^ width) :
    mul width first second = some (first * second) := by
  simp [mul, exactly, Nat.mod_eq_of_lt fits]

@[simp]
theorem sub_of_le {first second : ℕ} (ordered : second ≤ first) (fits : first < 2 ^ width) :
    sub width first second = some (first - second) := by
  have shape : first + (2 ^ width - second) = first - second + 2 ^ width := by omega
  have reduced : (first + (2 ^ width - second)) % 2 ^ width = first - second := by
    rw [shape, Nat.add_mod_right, Nat.mod_eq_of_lt (by omega)]
  simp [sub, exactly, reduced, Nat.sub_add_cancel ordered]

end ExactWord
