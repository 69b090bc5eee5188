import Mathlib.Data.List.GetD
import UsdAsset.Lib.ByteString

/-!
# Memory seen through a pointer

A destination buffer is the memory behind a pointer, addressed from that
pointer on and without an end.  A program that writes where it must not is then
visible as a changed byte, and a write is exactly a run of bytes put down at a
position.
-/

/-- The memory behind a pointer. -/
abbrev Buffer := ℕ → UInt8

namespace Buffer

variable {start position : ℕ} {data : Bytes} {buffer : Buffer}

/-- Puts a run of bytes down at a position. -/
def write (buffer : Buffer) (start : ℕ) (data : Bytes) : Buffer := fun position =>
  if start ≤ position ∧ position < start + data.length then data.getD (position - start) 0
  else buffer position

def Covers (start : ℕ) (data : Bytes) (position : ℕ) : Prop :=
  start ≤ position ∧ position < start + data.length

instance (start : ℕ) (data : Bytes) (position : ℕ) : Decidable (Covers start data position) :=
  inferInstanceAs (Decidable (_ ∧ _))

theorem Covers.index_lt (covers : Covers start data position) :
    position - start < data.length := by
  have := covers.1
  have := covers.2
  omega

theorem write_of_covers (covers : Covers start data position) :
    buffer.write start data position = data.getD (position - start) 0 :=
  if_pos covers

theorem write_of_not_covers (outside : ¬Covers start data position) :
    buffer.write start data position = buffer position :=
  if_neg outside

theorem write_slice {content : Bytes} {base count : ℕ} (onward : base ≤ start)
    (reaches : start ≤ base + position) (within : base + position < start + count)
    (inside : base + position < content.length) :
    content[base + position]? =
      some (buffer.write (start - base) (ByteString.slice content start count) position) := by
  have covers : Covers (start - base) (ByteString.slice content start count) position := by
    constructor
    · omega
    · rw [ByteString.length_slice]
      omega
  have index : start + (position - (start - base)) = base + position := by omega
  have sliced : (ByteString.slice content start count)[position - (start - base)]? =
      content[base + position]? := by
    rw [ByteString.getElem?_slice (by omega), index]
  rw [write_of_covers covers, List.getD_eq_getElem?_getD, sliced,
    List.getElem?_eq_getElem inside]
  rfl

@[simp]
theorem write_nil (buffer : Buffer) (start : ℕ) : buffer.write start [] = buffer := by
  funext position
  apply write_of_not_covers
  simp [Covers]

theorem write_append (buffer : Buffer) (start : ℕ) (first second : Bytes) :
    (buffer.write start first).write (start + first.length) second =
      buffer.write start (first ++ second) := by
  funext position
  simp only [write, List.length_append]
  by_cases before : position < start + first.length
  · rw [if_neg (by omega)]
    by_cases onward : start ≤ position
    · rw [if_pos ⟨onward, before⟩, if_pos ⟨onward, by omega⟩,
        List.getD_append _ _ _ _ (by omega)]
    · rw [if_neg (by omega), if_neg (by omega)]
  · by_cases inside : position < start + first.length + second.length
    · rw [if_pos ⟨by omega, inside⟩, if_pos ⟨by omega, by omega⟩,
        List.getD_append_right _ _ _ _ (by omega), Nat.sub_add_eq]
    · rw [if_neg (by omega), if_neg (by omega), if_neg (by omega)]

end Buffer
