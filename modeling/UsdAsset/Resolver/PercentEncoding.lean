import Mathlib.Data.FinEnum
import UsdAsset.Lib.PercentText
import UsdAsset.Resolver.Identifier

/-!
# Percent-encoding is normal after one pass

A normalized text is a sequence of literals that are safe where they stand and of
escapes of reserved bytes.  Such a text is not changed by another pass, nor is it
when its letters were lower-cased, up to the case of its escapes.
-/

namespace UsdAsset.Resolver

open ByteString PercentText

variable {byte : UInt8} {text : Bytes}

/-- A sequence of safe literals and of escapes of reserved bytes. -/
inductive Encoded (hostSafe : Bool) : Bytes → Prop where
  | nil : Encoded hostSafe []
  | literal {byte : UInt8} {rest : Bytes} (safe : isSafe hostSafe byte = true)
      (tail : Encoded hostSafe rest) : Encoded hostSafe (byte :: rest)
  | escape {value : UInt8} {rest : Bytes} (reserved : isUnreserved value = false)
      (tail : Encoded hostSafe rest) : Encoded hostSafe (percent value ++ rest)

variable {hostSafe : Bool}

theorem isSafe_of_isUnreserved {byte : UInt8} (unreserved : isUnreserved byte = true) :
    isSafe hostSafe byte = true := by
  simp [isSafe, isPathSafe, unreserved]

theorem ne_percent_of_isSafe (safe : isSafe hostSafe byte = true) :
    byte ≠ percentSign := by
  rintro rfl
  cases hostSafe <;> cases safe

/-! ### Bytes and their digits -/

theorem hexDigit_nibble : ∀ nibble : UInt8, nibble < 16 →
    isHex (hexDigit nibble) = true ∧ hexValue (hexDigit nibble) = nibble ∧
      isHex (lowerAscii (hexDigit nibble)) = true ∧
      hexValue (lowerAscii (hexDigit nibble)) = nibble := by
  decide +kernel

theorem nibbles_roundTrip : ∀ value : UInt8, value >>> 4 < 16 ∧ value &&& 0x0f < 16 ∧
    (value >>> 4) <<< 4 ||| (value &&& 0x0f) = value := by
  decide +kernel

theorem isHex_eq_isSome : ∀ byte : UInt8, isHex byte = (digit? byte).isSome := by
  decide +kernel

theorem hexValue_of_digit? : ∀ byte : UInt8, ∀ value ∈ digit? byte,
    value < 16 ∧ hexValue byte = UInt8.ofNat value := by
  decide +kernel

theorem ofNat_nibbles : ∀ high < 16, ∀ low < 16,
    UInt8.ofNat high <<< 4 ||| UInt8.ofNat low = UInt8.ofNat (high * 16 + low) := by
  decide +kernel

theorem hexValue_eq_meaning (high low : Digit) :
    hexValue high.val <<< 4 ||| hexValue low.val = (Piece.escape high low).meaning := by
  have ofHigh := hexValue_of_digit? high.val high.value (Option.get_mem _)
  have ofLow := hexValue_of_digit? low.val low.value (Option.get_mem _)
  rw [ofHigh.2, ofLow.2]
  exact ofNat_nibbles _ ofHigh.1 _ ofLow.1

theorem lowerAscii_cases : ∀ byte : UInt8, lowerAscii byte = byte ∨
    isAlpha byte = true ∧ isAlpha (lowerAscii byte) = true ∧
      lowerAscii (lowerAscii byte) = lowerAscii byte := by
  decide +kernel

theorem isUnreserved_of_isHex : ∀ byte : UInt8, isHex byte = true → isUnreserved byte = true := by
  decide +kernel

theorem hexDigits_roundTrip (value : UInt8) :
    isHex (hexDigit (value >>> 4)) = true ∧ isHex (hexDigit (value &&& 0x0f)) = true ∧
      hexValue (hexDigit (value >>> 4)) <<< 4 ||| hexValue (hexDigit (value &&& 0x0f)) = value ∧
      isHex (lowerAscii (hexDigit (value >>> 4))) = true ∧
      isHex (lowerAscii (hexDigit (value &&& 0x0f))) = true ∧
      hexValue (lowerAscii (hexDigit (value >>> 4))) <<< 4 |||
        hexValue (lowerAscii (hexDigit (value &&& 0x0f))) = value := by
  rcases nibbles_roundTrip value with ⟨highBound, lowBound, same⟩
  rcases hexDigit_nibble _ highBound with ⟨high, highValue, highLower, highLowerValue⟩
  rcases hexDigit_nibble _ lowBound with ⟨low, lowValue, lowLower, lowLowerValue⟩
  rw [highValue, lowValue, highLowerValue, lowLowerValue]
  exact ⟨high, low, same, highLower, lowLower, same⟩

theorem isUnreserved_hexDigit (value : UInt8) :
    isUnreserved (hexDigit (value >>> 4)) = true ∧
      isUnreserved (hexDigit (value &&& 0x0f)) = true := by
  rcases hexDigits_roundTrip value with ⟨high, low, _⟩
  exact ⟨isUnreserved_of_isHex _ high, isUnreserved_of_isHex _ low⟩

theorem isUnreserved_of_isAlpha (letter : isAlpha byte = true) :
    isUnreserved byte = true := by
  simp [isUnreserved, letter]

theorem lowerAscii_lowerAscii (byte : UInt8) : lowerAscii (lowerAscii byte) = lowerAscii byte := by
  rcases lowerAscii_cases byte with same | ⟨_, _, again⟩
  · rw [same, same]
  · exact again

theorem lowerAscii_eq_of_reserved (byte : UInt8) (reserved : isUnreserved (lowerAscii byte) = false) :
    lowerAscii byte = byte := by
  rcases lowerAscii_cases byte with same | ⟨_, letter, _⟩
  · exact same
  · rw [isUnreserved_of_isAlpha letter] at reserved
    cases reserved

theorem isSafe_lowerAscii (byte : UInt8) (safe : isSafe true byte = true) :
    isSafe true (lowerAscii byte) = true := by
  rcases lowerAscii_cases byte with same | ⟨_, letter, _⟩
  · rw [same]
    exact safe
  · exact isSafe_of_isUnreserved (isUnreserved_of_isAlpha letter)

theorem eq_bracket_of_lowerAscii (byte : UInt8)
    (bracket : lowerAscii byte = leftBracket) : byte = leftBracket := by
  have reserved : isUnreserved (lowerAscii byte) = false := by
    rw [bracket]
    decide
  rw [← lowerAscii_eq_of_reserved byte reserved, bracket]

theorem ne_bracket_of_isUnreserved (byte : UInt8) (unreserved : isUnreserved byte = true) :
    lowerAscii byte ≠ leftBracket := by
  intro bracket
  rw [eq_bracket_of_lowerAscii byte bracket] at unreserved
  revert unreserved
  decide

/-! ### One pass -/

theorem Encoded.append {first second : Bytes} (encoded : Encoded hostSafe first)
    (following : Encoded hostSafe second) : Encoded hostSafe (first ++ second) := by
  induction encoded with
  | nil => exact following
  | literal safe _ ih => exact .literal safe ih
  | escape reserved _ ih =>
    rw [List.append_assoc]
    exact .escape reserved ih

theorem encoded_encodeByte (byte : UInt8) : Encoded hostSafe (encodeByte hostSafe byte) := by
  simp only [encodeByte]
  split
  · rename_i safe
    exact .literal safe .nil
  · rename_i unsafeByte
    have reserved : isUnreserved byte = false := by
      by_contra unreserved
      exact unsafeByte (isSafe_of_isUnreserved (by simpa using unreserved))
    simpa using Encoded.escape reserved .nil

theorem encoded_encodeEscape (value : UInt8) : Encoded hostSafe (encodeEscape value) := by
  simp only [encodeEscape]
  split
  · rename_i unreserved
    exact .literal (isSafe_of_isUnreserved unreserved) .nil
  · rename_i reserved
    simpa using Encoded.escape (by simpa using reserved) .nil

@[simp]
theorem normalizePercentEncoding_nil : normalizePercentEncoding hostSafe [] = [] := rfl

theorem normalizePercentEncoding_literal {rest : Bytes} (alone : StandsAlone byte rest) :
    normalizePercentEncoding hostSafe (byte :: rest) =
      encodeByte hostSafe byte ++ normalizePercentEncoding hostSafe rest := by
  rcases rest with _ | ⟨high, _ | ⟨low, rest⟩⟩
  · rfl
  · rfl
  · have unescaped := alone high low rest rfl
    simp only [← isHex_eq_isSome] at unescaped
    exact if_neg unescaped

theorem normalizePercentEncoding_cons (rest : Bytes) (literal : byte ≠ percentSign) :
    normalizePercentEncoding hostSafe (byte :: rest) =
      encodeByte hostSafe byte ++ normalizePercentEncoding hostSafe rest :=
  normalizePercentEncoding_literal (standsAlone_of_ne literal rest)

theorem normalizePercentEncoding_escape {high low : UInt8} (rest : Bytes)
    (highHex : isHex high = true) (lowHex : isHex low = true) :
    normalizePercentEncoding hostSafe (percentSign :: high :: low :: rest) =
      encodeEscape (hexValue high <<< 4 ||| hexValue low) ++
        normalizePercentEncoding hostSafe rest :=
  if_pos ⟨rfl, highHex, lowHex⟩

theorem normalizePercentEncoding_digits (high low : Digit) (rest : Bytes) :
    normalizePercentEncoding hostSafe (percentSign :: high.val :: low.val :: rest) =
      encodeEscape (Piece.escape high low).meaning ++ normalizePercentEncoding hostSafe rest := by
  have highHex := (isHex_eq_isSome high.val).trans high.property
  have lowHex := (isHex_eq_isSome low.val).trans low.property
  rw [normalizePercentEncoding_escape rest highHex lowHex, hexValue_eq_meaning]

theorem encoded_normalizePercentEncoding (text : Bytes) :
    Encoded hostSafe (normalizePercentEncoding hostSafe text) := by
  induction text using piecewise with
  | nil => exact .nil
  | escape high low rest ih =>
    rw [normalizePercentEncoding_digits]
    exact (encoded_encodeEscape _).append ih
  | literal byte rest alone ih =>
    rw [normalizePercentEncoding_literal alone]
    exact (encoded_encodeByte _).append ih

theorem Encoded.normalized (encoded : Encoded hostSafe text) :
    normalizePercentEncoding hostSafe text = text := by
  induction encoded with
  | nil => rfl
  | @literal byte rest safe _ ih =>
    rw [normalizePercentEncoding_cons rest (ne_percent_of_isSafe safe), encodeByte, if_pos safe, ih]
    rfl
  | @escape value rest reserved _ ih =>
    rcases hexDigits_roundTrip value with ⟨high, low, same, _⟩
    simp only [percent, List.cons_append, List.nil_append]
    rw [normalizePercentEncoding_escape rest high low, same, encodeEscape, reserved, ih]
    rfl

/-! ### Which bytes a normalized text has -/

/-- A byte that no escape holds separates what is normalized before and after it. -/
theorem normalizePercentEncoding_append {separator : UInt8} (before after : Bytes)
    (notHex : isHex separator = false) :
    normalizePercentEncoding hostSafe (before ++ separator :: after) =
      normalizePercentEncoding hostSafe before ++
        normalizePercentEncoding hostSafe (separator :: after) := by
  induction before using piecewise with
  | nil => rfl
  | escape high low rest ih =>
    simp only [List.cons_append]
    rw [normalizePercentEncoding_digits, normalizePercentEncoding_digits, ih, List.append_assoc]
  | literal byte rest alone ih =>
    -- With fewer than two bytes left an escape would reach over the separator.
    have still : StandsAlone byte (rest ++ separator :: after) := by
      rw [isHex_eq_isSome] at notHex
      rintro high low tail shape ⟨isPercent, highHex, lowHex⟩
      rcases rest with _ | ⟨next, _ | ⟨second, rest⟩⟩
      · cases shape
        rw [notHex] at highHex
        cases highHex
      · cases shape
        rw [notHex] at lowHex
        cases lowHex
      · cases shape
        exact alone _ _ _ rfl ⟨isPercent, highHex, lowHex⟩
    rw [List.cons_append, normalizePercentEncoding_literal still,
      normalizePercentEncoding_literal alone, ih, List.append_assoc]

theorem notMem_percent (reserved : isUnreserved byte = false)
    (literal : byte ≠ percentSign) (value : UInt8) : byte ∉ percent value := by
  rcases isUnreserved_hexDigit value with ⟨high, low⟩
  simp only [percent, List.mem_cons, List.not_mem_nil, or_false, not_or]
  refine ⟨literal, ?_, ?_⟩
  · rintro rfl
    rw [high] at reserved
    cases reserved
  · rintro rfl
    rw [low] at reserved
    cases reserved

/-- A reserved byte is not made by normalization. -/
theorem mem_of_mem_normalizePercentEncoding (reserved : isUnreserved byte = false)
    (literal : byte ≠ percentSign)
    (byteMem : byte ∈ normalizePercentEncoding hostSafe text) : byte ∈ text := by
  have ofByte : ∀ {other : UInt8}, byte ∈ encodeByte hostSafe other → byte = other := by
    intro other otherMem
    simp only [encodeByte] at otherMem
    split at otherMem
    · simpa using otherMem
    · exact absurd otherMem (notMem_percent reserved literal other)
  have ofEscape : ∀ value : UInt8, byte ∉ encodeEscape value := by
    intro value valueMem
    simp only [encodeEscape] at valueMem
    split at valueMem
    · rename_i unreserved
      rw [List.mem_singleton] at valueMem
      rw [← valueMem, reserved] at unreserved
      cases unreserved
    · exact notMem_percent reserved literal value valueMem
  induction text using piecewise with
  | nil => exact byteMem
  | escape high low rest ih =>
    rw [normalizePercentEncoding_digits, List.mem_append] at byteMem
    have later := ih (byteMem.resolve_left (ofEscape _))
    simp [later]
  | literal first rest alone ih =>
    rw [normalizePercentEncoding_literal alone, List.mem_append] at byteMem
    rcases byteMem with here | later
    · simp [ofByte here]
    · exact List.mem_cons_of_mem _ (ih later)

theorem Encoded.safe_or_percent (encoded : Encoded hostSafe text) (byteMem : byte ∈ text) :
    isSafe hostSafe byte = true ∨ byte = percentSign := by
  induction encoded with
  | nil => cases byteMem
  | literal safe _ ih =>
    rcases List.mem_cons.mp byteMem with rfl | later
    · exact Or.inl safe
    · exact ih later
  | @escape value rest reserved _ ih =>
    rcases isUnreserved_hexDigit value with ⟨high, low⟩
    simp only [percent, List.cons_append, List.nil_append, List.mem_cons] at byteMem
    rcases byteMem with rfl | rfl | rfl | later
    · exact Or.inr rfl
    · exact Or.inl (isSafe_of_isUnreserved high)
    · exact Or.inl (isSafe_of_isUnreserved low)
    · exact ih later

/-! ### Hosts -/

theorem Encoded.normalizeHost_map (encoded : Encoded true text) :
    normalizeHost (text.map lowerAscii) = text.map lowerAscii := by
  simp only [normalizeHost]
  induction encoded with
  | nil => rfl
  | @literal byte rest safe _ ih =>
    have lowerSafe := isSafe_lowerAscii byte safe
    rw [List.map_cons, normalizePercentEncoding_cons _ (ne_percent_of_isSafe lowerSafe),
      encodeByte, if_pos lowerSafe, List.map_append, ih]
    simp [lowerAscii_lowerAscii]
  | @escape value rest reserved _ ih =>
    rcases hexDigits_roundTrip value with ⟨_, _, _, high, low, same⟩
    simp only [percent, List.cons_append, List.nil_append, List.map_cons]
    rw [show lowerAscii percentSign = percentSign from rfl,
      normalizePercentEncoding_escape _ high low, same, encodeEscape, reserved, List.map_append,
      ih]
    rfl

theorem normalizeHost_normalizeHost (host : Bytes) :
    normalizeHost (normalizeHost host) = normalizeHost host :=
  (encoded_normalizePercentEncoding host).normalizeHost_map

theorem mem_of_mem_normalizeHost (reserved : isUnreserved byte = false)
    (literal : byte ≠ percentSign) {host : Bytes} (byteMem : byte ∈ normalizeHost host) :
    byte ∈ host := by
  rcases List.mem_map.mp byteMem with ⟨original, originalMem, rfl⟩
  have same := lowerAscii_eq_of_reserved original reserved
  rw [same] at reserved literal ⊢
  exact mem_of_mem_normalizePercentEncoding reserved literal originalMem

theorem notMem_normalizeHost (unsafeByte : isSafe true byte = false)
    (literal : byte ≠ percentSign) (host : Bytes) : byte ∉ normalizeHost host := by
  intro byteMem
  rcases List.mem_map.mp byteMem with ⟨original, originalMem, rfl⟩
  rcases (encoded_normalizePercentEncoding host).safe_or_percent originalMem with safe | rfl
  · rw [isSafe_lowerAscii original safe] at unsafeByte
    cases unsafeByte
  · exact literal rfl

theorem normalizeHost_append {separator : UInt8} (before after : Bytes)
    (notHex : isHex separator = false) (safe : isSafe true separator = true)
    (unchanged : lowerAscii separator = separator) :
    normalizeHost (before ++ separator :: after) =
      normalizeHost before ++ separator :: normalizeHost after := by
  simp only [normalizeHost]
  rw [normalizePercentEncoding_append before after notHex,
    normalizePercentEncoding_cons after (ne_percent_of_isSafe safe), encodeByte, if_pos safe]
  simp [unchanged]

theorem normalizeHost_ne_nil {host : Bytes} (present : host ≠ []) : normalizeHost host ≠ [] := by
  have byteNe : ∀ byte, encodeByte true byte ≠ [] := by
    intro byte
    simp only [encodeByte]
    split <;> simp [percent]
  have escapeNe : ∀ value, encodeEscape value ≠ [] := by
    intro value
    simp only [encodeEscape]
    split <;> simp [percent]
  simp only [normalizeHost, ne_eq, List.map_eq_nil_iff]
  induction host using piecewise with
  | nil => exact absurd rfl present
  | escape high low rest _ =>
    rw [normalizePercentEncoding_digits]
    simp [escapeNe]
  | literal byte rest alone _ =>
    rw [normalizePercentEncoding_literal alone]
    simp [byteNe]

theorem head_normalizeHost {host : Bytes}
    (bracketed : (normalizeHost host).head? = some leftBracket) :
    host.head? = some leftBracket := by
  have ofByte : ∀ (byte : UInt8) (rest : Bytes),
      ((encodeByte true byte ++ rest).map lowerAscii).head? = some leftBracket →
        byte = leftBracket := by
    intro byte rest found
    simp only [encodeByte] at found
    split at found
    · exact eq_bracket_of_lowerAscii byte (by simpa using found)
    · simp [percent, lowerAscii] at found
      cases found
  have ofEscape : ∀ (value : UInt8) (rest : Bytes),
      ((encodeEscape value ++ rest).map lowerAscii).head? ≠ some leftBracket := by
    intro value rest found
    simp only [encodeEscape] at found
    split at found
    · rename_i unreserved
      exact ne_bracket_of_isUnreserved value unreserved (by simpa using found)
    · simp [percent, lowerAscii] at found
      cases found
  simp only [normalizeHost] at bracketed
  induction host using piecewise with
  | nil => cases bracketed
  | escape high low rest _ =>
    rw [normalizePercentEncoding_digits] at bracketed
    exact absurd bracketed (ofEscape _ _)
  | literal byte rest alone _ =>
    rw [normalizePercentEncoding_literal alone] at bracketed
    rw [List.head?_cons, ofByte byte _ bracketed]

end UsdAsset.Resolver
