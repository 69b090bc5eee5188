import UsdAsset.Lib.ByteString

/-!
# Text with percent-escapes

RFC 3986 §2.1: a text is a list of pieces, each a literal byte or a `%` with two
hexadecimal digits that stand for a byte.  A `%` without two digits behind it is a
literal.  Reading a text into its pieces loses nothing of it.
-/

namespace PercentText

open ByteString

/-- The value of a hexadecimal digit, in either case. -/
def digit? (byte : UInt8) : Option ℕ := (bytes "0123456789abcdef").idxOf? (lowerAscii byte)

/-- A hexadecimal digit. -/
abbrev Digit := { byte : UInt8 // (digit? byte).isSome = true }

def Digit.value (digit : Digit) : ℕ := (digit? digit.val).get digit.property

inductive Piece where
  | literal (byte : UInt8)
  | escape (high low : Digit)
  deriving DecidableEq

namespace Piece

def text : Piece → Bytes
  | literal byte => [byte]
  | escape high low => ['%', high.val, low.val]

/-- The byte a piece stands for. -/
def meaning : Piece → UInt8
  | literal byte => byte
  | escape high low => UInt8.ofNat (high.value * 16 + low.value)

end Piece

def pieces : Bytes → List Piece
  | [] => []
  | byte :: high :: low :: rest =>
      if escaped : byte = '%' ∧ (digit? high).isSome = true ∧ (digit? low).isSome = true then
        .escape ⟨high, escaped.2.1⟩ ⟨low, escaped.2.2⟩ :: pieces rest
      else .literal byte :: pieces (high :: low :: rest)
  | byte :: rest => .literal byte :: pieces rest

/-- The bytes a text stands for. -/
def decode (text : Bytes) : Bytes := (pieces text).map Piece.meaning

@[simp]
theorem pieces_nil : pieces [] = [] := rfl

@[simp]
theorem pieces_escape (high low : Digit) (rest : Bytes) :
    pieces ((('%' : Char) : UInt8) :: high.val :: low.val :: rest) =
      .escape high low :: pieces rest :=
  dif_pos ⟨rfl, high.property, low.property⟩

/-- A byte in front of `rest` begins no escape. -/
def StandsAlone (byte : UInt8) (rest : Bytes) : Prop :=
  ∀ high low tail, rest = high :: low :: tail →
    ¬(byte = '%' ∧ (digit? high).isSome = true ∧ (digit? low).isSome = true)

theorem standsAlone_of_ne {byte : UInt8} (other : byte ≠ (('%' : Char) : UInt8)) (rest : Bytes) :
    StandsAlone byte rest :=
  fun _ _ _ _ escaped => other escaped.1

theorem pieces_literal {byte : UInt8} {rest : Bytes} (alone : StandsAlone byte rest) :
    pieces (byte :: rest) = .literal byte :: pieces rest := by
  rcases rest with _ | ⟨high, _ | ⟨low, rest⟩⟩
  · rfl
  · rfl
  · exact dif_neg (alone high low rest rfl)

/--
A text is read from its front: it is empty, or begins with an escape, or with a byte
that begins none.
-/
theorem piecewise {motive : Bytes → Prop} (nil : motive [])
    (escape : ∀ (high low : Digit) (rest : Bytes), motive rest →
      motive ((('%' : Char) : UInt8) :: high.val :: low.val :: rest))
    (literal : ∀ byte rest, StandsAlone byte rest → motive rest → motive (byte :: rest))
    (text : Bytes) : motive text := by
  induction text using pieces.induct with
  | case1 => exact nil
  | case2 byte high low rest escaped ih =>
    rcases escaped with ⟨rfl, highDigit, lowDigit⟩
    exact escape ⟨high, highDigit⟩ ⟨low, lowDigit⟩ rest ih
  | case3 byte high low rest unescaped ih =>
    refine literal byte _ ?_ ih
    rintro _ _ _ ⟨⟩
    exact unescaped
  | case4 byte rest short ih =>
    exact literal byte rest (fun _ _ _ shape => absurd shape (short _ _ _)) ih

theorem flatMap_text_pieces (text : Bytes) : (pieces text).flatMap Piece.text = text := by
  induction text using piecewise with
  | nil => rfl
  | escape high low rest ih =>
    rw [pieces_escape, List.flatMap_cons, ih]
    rfl
  | literal byte rest alone ih =>
    rw [pieces_literal alone, List.flatMap_cons, ih]
    rfl

theorem pieces_injective : Function.Injective pieces := by
  intro first second same
  rw [← flatMap_text_pieces first, same, flatMap_text_pieces second]

/--
Two pieces spell one byte and differ in the case of digits, or in that one of them
escapes a byte that need not be escaped.
-/
inductive Piece.Respells (allowed plain : UInt8 → Bool) : Piece → Piece → Prop where
  | same {byte : UInt8} (stands : allowed byte = true) :
      Respells allowed plain (.literal byte) (.literal byte)
  | recased {high low otherHigh otherLow : Digit}
      (highs : lowerAscii high.val = lowerAscii otherHigh.val)
      (lows : lowerAscii low.val = lowerAscii otherLow.val) :
      Respells allowed plain (.escape high low) (.escape otherHigh otherLow)
  | unescaped {high low : Digit} {byte : UInt8} (means : (Piece.escape high low).meaning = byte)
      (needless : plain byte = true) :
      Respells allowed plain (.escape high low) (.literal byte)
  | escaped {high low : Digit} {byte : UInt8} (means : (Piece.escape high low).meaning = byte)
      (needless : plain byte = true) :
      Respells allowed plain (.literal byte) (.escape high low)

/-- Two texts of allowed bytes and escapes, piece by piece spelled alike. -/
def Respelled (allowed plain : UInt8 → Bool) (first second : Bytes) : Prop :=
  List.Forall₂ (Piece.Respells allowed plain) (pieces first) (pieces second)

theorem Digit.value_eq_of_lowerAscii {first second : Digit}
    (same : lowerAscii first.val = lowerAscii second.val) : first.value = second.value := by
  have digits : digit? first.val = digit? second.val := by
    simp only [digit?, same]
  simp only [Digit.value, digits]

theorem Piece.Respells.meaning_eq {allowed plain : UInt8 → Bool} {first second : Piece}
    (respells : Respells allowed plain first second) : first.meaning = second.meaning := by
  cases respells with
  | same _ => rfl
  | recased highs lows =>
    simp only [meaning, Digit.value_eq_of_lowerAscii highs, Digit.value_eq_of_lowerAscii lows]
  | unescaped means _ => exact means
  | escaped means _ => exact means.symm

end PercentText
