import UsdAsset.Resolver.Normalization

/-!
# What percent-encoding a text stands for

One pass of `NormalizePercentEncoding` works on the pieces of a text one by one: every
piece of the input becomes one piece of the output, which stands for the same byte.  So
no two of them join into an escape, and no escape becomes a separator.
-/

namespace UsdAsset.Resolver

open ByteString PercentText
open Http (slash)

variable {hostSafe : Bool}

/-- The digit `AppendPercent` writes for half a byte. -/
def digitOf (nibble : UInt8) (bound : nibble < 16) : Digit :=
  ⟨hexDigit nibble, (isHex_eq_isSome _).symm.trans (hexDigit_nibble nibble bound).1⟩

/-- The escape `AppendPercent` writes. -/
def escapeOf (value : UInt8) : Piece :=
  .escape (digitOf (value >>> 4) (nibbles_roundTrip value).1)
    (digitOf (value &&& 0x0f) (nibbles_roundTrip value).2.1)

/-- What one piece becomes. -/
def normalPiece (hostSafe : Bool) : Piece → Piece
  | .literal byte => if isSafe hostSafe byte then .literal byte else escapeOf byte
  | .escape high low =>
      let value := (Piece.escape high low).meaning
      if isUnreserved value then .literal value else escapeOf value

@[simp]
theorem meaning_escapeOf (value : UInt8) : (escapeOf value).meaning = value := by
  rw [escapeOf, ← hexValue_eq_meaning]
  exact (hexDigits_roundTrip value).2.2.1

theorem pieces_percent (value : UInt8) (rest : Bytes) :
    pieces (percent value ++ rest) = escapeOf value :: pieces rest :=
  pieces_escape (digitOf (value >>> 4) (nibbles_roundTrip value).1)
    (digitOf (value &&& 0x0f) (nibbles_roundTrip value).2.1) rest

theorem pieces_encodeByte (byte : UInt8) (rest : Bytes) :
    pieces (encodeByte hostSafe byte ++ rest) =
      normalPiece hostSafe (.literal byte) :: pieces rest := by
  simp only [encodeByte, normalPiece]
  split
  · rename_i safe
    exact pieces_literal (standsAlone_of_ne (ne_percent_of_isSafe safe) rest)
  · exact pieces_percent byte rest

theorem pieces_encodeEscape (high low : Digit) (rest : Bytes) :
    pieces (encodeEscape (Piece.escape high low).meaning ++ rest) =
      normalPiece hostSafe (.escape high low) :: pieces rest := by
  simp only [encodeEscape, normalPiece]
  split
  · rename_i unreserved
    have safe := @isSafe_of_isUnreserved false _ unreserved
    exact pieces_literal (standsAlone_of_ne (ne_percent_of_isSafe safe) rest)
  · exact pieces_percent _ rest

theorem pieces_normalizePercentEncoding (text : Bytes) :
    pieces (normalizePercentEncoding hostSafe text) =
      (pieces text).map (normalPiece hostSafe) := by
  induction text using piecewise with
  | nil => rfl
  | escape high low rest ih =>
    rw [normalizePercentEncoding_digits, pieces_encodeEscape, pieces_escape, List.map_cons, ih]
  | literal byte rest alone ih =>
    rw [normalizePercentEncoding_literal alone, pieces_encodeByte, pieces_literal alone,
      List.map_cons, ih]

/-! ### One piece -/

theorem meaning_normalPiece (piece : Piece) :
    (normalPiece hostSafe piece).meaning = piece.meaning := by
  cases piece with
  | literal byte =>
    simp only [normalPiece]
    split
    · rfl
    · exact meaning_escapeOf byte
  | escape high low =>
    simp only [normalPiece]
    split
    · rfl
    · exact meaning_escapeOf _

/-- A literal that is allowed where it stands, or an escape in upper case. -/
def IsNormalPiece (hostSafe : Bool) : Piece → Prop
  | .literal byte => isSafe hostSafe byte = true
  | .escape high low =>
      high.val ∈ bytes "0123456789ABCDEF" ∧ low.val ∈ bytes "0123456789ABCDEF"

theorem hexDigit_mem {nibble : UInt8} (bound : nibble < 16) :
    hexDigit nibble ∈ bytes "0123456789ABCDEF" := by
  have within : nibble.toNat < (bytes "0123456789ABCDEF").length := UInt8.lt_iff_toNat_lt.mp bound
  rw [hexDigit, List.getD_eq_getElem?_getD, List.getElem?_eq_getElem within]
  exact List.getElem_mem within

theorem isNormalPiece_escapeOf (value : UInt8) : IsNormalPiece hostSafe (escapeOf value) :=
  ⟨hexDigit_mem (nibbles_roundTrip value).1, hexDigit_mem (nibbles_roundTrip value).2.1⟩

theorem isNormalPiece_normalPiece (piece : Piece) :
    IsNormalPiece hostSafe (normalPiece hostSafe piece) := by
  cases piece with
  | literal byte =>
    simp only [normalPiece]
    split
    · rename_i safe
      exact safe
    · exact isNormalPiece_escapeOf byte
  | escape high low =>
    simp only [normalPiece]
    split
    · rename_i unreserved
      exact isSafe_of_isUnreserved unreserved
    · exact isNormalPiece_escapeOf _

theorem normalPiece_eq_slash_iff (piece : Piece) :
    normalPiece hostSafe piece = .literal slash ↔ piece = .literal slash := by
  cases piece with
  | literal byte =>
    simp only [normalPiece]
    split
    · exact Iff.rfl
    · rename_i unsafeByte
      refine ⟨nofun, fun same => ?_⟩
      cases same
      exact absurd (by cases hostSafe <;> rfl) unsafeByte
  | escape high low =>
    -- the separator is reserved, so no escape is written as it
    refine ⟨fun same => ?_, nofun⟩
    simp only [normalPiece] at same
    split at same
    · rename_i unreserved
      rw [Piece.literal.inj same] at unreserved
      cases unreserved
    · cases same

theorem normalPiece_eq_of_respells {first second : Piece}
    (respells : Piece.Respells (isSafe hostSafe) isUnreserved first second) :
    normalPiece hostSafe first = normalPiece hostSafe second := by
  have plain : ∀ {high low : Digit} {byte : UInt8}, (Piece.escape high low).meaning = byte →
      isUnreserved byte = true →
        normalPiece hostSafe (.escape high low) = normalPiece hostSafe (.literal byte) := by
    rintro high low _ rfl unreserved
    simp only [normalPiece, if_pos unreserved, if_pos (isSafe_of_isUnreserved unreserved)]
  have meanings := respells.meaning_eq
  cases respells with
  | same _ => rfl
  | recased _ _ => simp only [normalPiece, meanings]
  | unescaped means needless => exact plain means needless
  | escaped means needless => exact (plain means needless).symm

/-! ### The whole text -/

/-- What a text and its normal form have in common, and what the normal form is made of. -/
structure KeepsMeaning (hostSafe : Bool) (text normal : Bytes) : Prop where
  written : ∀ piece ∈ pieces normal, IsNormalPiece hostSafe piece
  decoded : decode normal = decode text
  separators : ∀ index : ℕ, (pieces normal)[index]? = some (.literal slash) ↔
    (pieces text)[index]? = some (.literal slash)
  segments : normal.splitOn slash =
    (text.splitOn slash).map (normalizePercentEncoding hostSafe)

theorem keepsMeaning_normalizePercentEncoding (text : Bytes) :
    KeepsMeaning hostSafe text (normalizePercentEncoding hostSafe text) := by
  refine ⟨?_, ?_, ?_, splitOn_normalizePercentEncoding text⟩
  · intro piece pieceMem
    rw [pieces_normalizePercentEncoding] at pieceMem
    rcases List.mem_map.mp pieceMem with ⟨original, _, rfl⟩
    exact isNormalPiece_normalPiece original
  · simp only [decode, pieces_normalizePercentEncoding, List.map_map, Function.comp_def,
      meaning_normalPiece]
  · intro index
    rw [pieces_normalizePercentEncoding, List.getElem?_map, Option.map_eq_some_iff]
    simp only [normalPiece_eq_slash_iff, exists_eq_right]

theorem normalizePercentEncoding_eq_of_respelled {first second : Bytes}
    (respelled : Respelled (isSafe hostSafe) isUnreserved first second) :
    normalizePercentEncoding hostSafe first = normalizePercentEncoding hostSafe second := by
  apply pieces_injective
  rw [pieces_normalizePercentEncoding, pieces_normalizePercentEncoding]
  have alike := respelled.imp fun _ _ respells => normalPiece_eq_of_respells respells
  rw [← List.forall₂_eq_eq_eq, List.forall₂_map_left_iff, List.forall₂_map_right_iff]
  exact alike

theorem percentEncoding_preserves_meaning (hostSafe : Bool) (text : Bytes) :
    normalizePercentEncoding hostSafe (normalizePercentEncoding hostSafe text) =
        normalizePercentEncoding hostSafe text ∧
      KeepsMeaning hostSafe text (normalizePercentEncoding hostSafe text) ∧
      ∀ other, Respelled (isSafe hostSafe) isUnreserved text other →
        normalizePercentEncoding hostSafe text = normalizePercentEncoding hostSafe other := by
  refine ⟨?_, keepsMeaning_normalizePercentEncoding text, ?_⟩
  · exact (encoded_normalizePercentEncoding text).normalized
  · intro other respelled
    exact normalizePercentEncoding_eq_of_respelled respelled

theorem percentEncoding_preserves_meaning_tilde :
    Respelled (isSafe false) isUnreserved (bytes "%7Ea%2f") (bytes "~%61%2F") ∧
      normalizePercentEncoding false (bytes "%7Ea%2f") =
        normalizePercentEncoding false (bytes "~%61%2F") := by
  have respelled : Respelled (isSafe false) isUnreserved (bytes "%7Ea%2f") (bytes "~%61%2F") := by
    refine .cons ?_ (.cons ?_ (.cons ?_ .nil))
    · exact .unescaped (by decide) (by decide)
    · exact .escaped (by decide) (by decide)
    · exact .recased (by decide) (by decide)
  exact ⟨respelled, (percentEncoding_preserves_meaning false _).2.2 _ respelled⟩

end UsdAsset.Resolver
