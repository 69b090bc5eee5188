import Mathlib.Algebra.Ring.Nat
import Mathlib.Data.List.Basic
import Mathlib.Data.List.TakeWhile

/-!
# Byte strings

A character string of the programs verified here is a sequence of bytes that
nothing decodes.  This file fixes that representation and the few searching
operations the parsers are written with.  Character and string literals stand
for their ASCII bytes, so a definition can be compared with the text it models.
-/

/-- A sequence of bytes: the contents of a string, a block or a file. -/
abbrev Bytes := List UInt8

/-- A character literal stands for its byte. -/
instance coeCharUInt8 : Coe Char UInt8 := ⟨Char.toUInt8⟩

/-- The bytes of an ASCII literal. -/
def bytes (literal : String) : Bytes := literal.toList.map Char.toUInt8

namespace ByteString

variable {separator byte : UInt8} {before text after pattern content : Bytes}
  {first index fuel number start count : ℕ}

abbrev colon : UInt8 := ':'

abbrev numberSign : UInt8 := '#'

abbrev atSign : UInt8 := '@'

abbrev percentSign : UInt8 := '%'

abbrev leftBracket : UInt8 := '['

abbrev rightBracket : UInt8 := ']'

def lowerAscii (byte : UInt8) : UInt8 :=
  if 'A' ≤ byte ∧ byte ≤ 'Z' then byte - 'A' + 'a' else byte

def equalsIgnoringCase (left right : Bytes) : Bool :=
  left.map lowerAscii == right.map lowerAscii

def isDigit (byte : UInt8) : Bool := '0' ≤ byte && byte ≤ '9'

/-- The blanks a header value may be padded with. -/
def isSpace (byte : UInt8) : Bool := byte == ' ' || byte == '\t'

def trim (text : Bytes) : Bytes :=
  ((text.dropWhile isSpace).reverse.dropWhile isSpace).reverse

/-- Splits at the first occurrence of a separator, which belongs to neither half. -/
def splitFirst (separator : UInt8) : Bytes → Option (Bytes × Bytes)
  | [] => none
  | byte :: rest =>
      if byte = separator then some ([], rest)
      else (splitFirst separator rest).map fun halves => (byte :: halves.1, halves.2)

/-- Splits at the last occurrence of a separator, which belongs to neither half. -/
def splitLast (separator : UInt8) (text : Bytes) : Option (Bytes × Bytes) :=
  (splitFirst separator text.reverse).map fun halves => (halves.2.reverse, halves.1.reverse)

/-- The position of the first occurrence of a pattern. -/
def find (pattern : Bytes) : Bytes → Option ℕ
  | [] => if pattern = [] then some 0 else none
  | byte :: rest =>
      if pattern.isPrefixOf (byte :: rest) then some 0
      else (find pattern rest).map (· + 1)

def digit (value : ℕ) : UInt8 := UInt8.ofNat (48 + value)

/-- Decimal digits, least significant last, in front of those already written. -/
def decimalFrom : ℕ → ℕ → Bytes → Bytes
  | 0, _, written => written
  | fuel + 1, number, written =>
      if number < 10 then digit number :: written
      else decimalFrom fuel (number / 10) (digit (number % 10) :: written)

def decimal (number : ℕ) : Bytes := decimalFrom (number + 1) number []

def decimalInt : Int → Bytes
  | Int.ofNat number => decimal number
  | Int.negSucc number => bytes "-" ++ decimal (number + 1)

/-! ### Searching and trimming -/

theorem splitFirst_append (after : Bytes) (absent : separator ∉ before) :
    splitFirst separator (before ++ separator :: after) = some (before, after) := by
  induction before with
  | nil => simp [splitFirst]
  | cons byte before ih =>
    rw [List.mem_cons, not_or] at absent
    simp only [List.cons_append, splitFirst]
    rw [if_neg (Ne.symm absent.1), ih absent.2]
    rfl

theorem splitFirst_append_of_notMem (after : Bytes) (absent : separator ∉ before) :
    splitFirst separator (before ++ after) =
      (splitFirst separator after).map fun halves => (before ++ halves.1, halves.2) := by
  induction before with
  | nil => simp
  | cons byte before ih =>
    rw [List.mem_cons, not_or] at absent
    simp only [List.cons_append, splitFirst]
    rw [if_neg (Ne.symm absent.1), ih absent.2, Option.map_map]
    rfl

theorem splitFirst_eq_none (absent : separator ∉ text) :
    splitFirst separator text = none := by
  have alone := splitFirst_append_of_notMem [] absent
  simpa [splitFirst] using alone

theorem eq_append_of_splitFirst (found : splitFirst separator text = some (before, after)) :
    text = before ++ separator :: after ∧ separator ∉ before := by
  by_cases present : separator ∈ text
  · rcases List.eq_append_cons_of_mem present with ⟨first, rest, rfl, absent⟩
    rw [splitFirst_append rest absent] at found
    cases found
    exact ⟨rfl, absent⟩
  · rw [splitFirst_eq_none present] at found
    cases found

theorem notMem_of_splitFirst (absent : splitFirst separator text = none) : separator ∉ text := by
  intro present
  rcases List.eq_append_cons_of_mem present with ⟨first, rest, rfl, before⟩
  rw [splitFirst_append rest before] at absent
  cases absent

theorem splitLast_append (before : Bytes) (absent : separator ∉ after) :
    splitLast separator (before ++ separator :: after) = some (before, after) := by
  have found := splitFirst_append before.reverse (List.mem_reverse.not.mpr absent)
  simp [splitLast, found]

theorem eq_append_of_splitLast (found : splitLast separator text = some (before, after)) :
    text = before ++ separator :: after ∧ separator ∉ after := by
  simp only [splitLast, Option.map_eq_some_iff, Prod.mk.injEq] at found
  rcases found with ⟨⟨first, rest⟩, split, rfl, rfl⟩
  rcases eq_append_of_splitFirst split with ⟨shape, absent⟩
  refine ⟨?_, by simpa using absent⟩
  simpa using congrArg List.reverse shape

theorem splitLast_eq_none (absent : separator ∉ text) :
    splitLast separator text = none := by
  rw [splitLast, splitFirst_eq_none (List.mem_reverse.not.mpr absent)]
  rfl

theorem notMem_of_splitLast (absent : splitLast separator text = none) : separator ∉ text := by
  rw [splitLast, Option.map_eq_none_iff] at absent
  simpa using notMem_of_splitFirst absent

/-- A pattern is not found where the byte it begins with is not. -/
theorem find_append_of_notMem {first : UInt8} (after : Bytes) (absent : first ∉ before) :
    find (first :: pattern) (before ++ after) =
      (find (first :: pattern) after).map (· + before.length) := by
  induction before with
  | nil => simp
  | cons byte before ih =>
    rw [List.mem_cons, not_or] at absent
    have different : (first :: pattern).isPrefixOf (byte :: (before ++ after)) = false := by
      simp [List.isPrefixOf, absent.1]
    rw [List.cons_append, find, different, if_neg Bool.false_ne_true, ih absent.2, Option.map_map]
    rfl

theorem find_append {first : UInt8} (after : Bytes) (absent : first ∉ before) :
    find (first :: pattern) (before ++ (first :: pattern) ++ after) = some before.length := by
  have here : find (first :: pattern) (first :: pattern ++ after) = some 0 := by
    simp [find, List.isPrefixOf]
  rw [List.append_assoc, find_append_of_notMem _ absent, here]
  simp

theorem eq_append_of_find (found : find pattern text = some index) :
    text = text.take index ++ pattern ++ text.drop (index + pattern.length) := by
  induction text generalizing index with
  | nil =>
    simp only [find] at found
    split at found
    · rename_i empty
      simp [empty]
    · cases found
  | cons byte rest ih =>
    simp only [find] at found
    split at found
    · rename_i here
      cases found
      rcases List.isPrefixOf_iff_prefix.mp here with ⟨after, shape⟩
      simp [← shape]
    · rcases Option.map_eq_some_iff.mp found with ⟨later, foundLater, rfl⟩
      have shape := ih foundLater
      rw [List.take_succ_cons, Nat.add_right_comm, List.drop_succ_cons, List.cons_append,
        List.cons_append, ← shape]

theorem takeWhile_append_of_head {test : UInt8 → Bool} {before after : Bytes}
    (taken : ∀ byte ∈ before, test byte = true) (stops : ∀ byte ∈ after.head?, test byte = false) :
    (before ++ after).takeWhile test = before ∧ (before ++ after).dropWhile test = after := by
  have nothing : after.takeWhile test = [] ∧ after.dropWhile test = after := by
    cases after with
    | nil => exact ⟨rfl, rfl⟩
    | cons first rest =>
      have stop := stops first rfl
      simp [stop]
  rw [List.takeWhile_append_of_pos taken, List.dropWhile_append_of_pos taken, nothing.1, nothing.2,
    List.append_nil]
  exact ⟨rfl, rfl⟩

theorem trim_of_ends (first : ∀ byte ∈ text.head?, isSpace byte = false)
    (last : ∀ byte ∈ text.getLast?, isSpace byte = false) : trim text = text := by
  have kept : ∀ text : Bytes, (∀ byte ∈ text.head?, isSpace byte = false) →
      text.dropWhile isSpace = text := by
    intro text head
    cases text with
    | nil => rfl
    | cons byte rest => simp [head byte rfl]
  simp only [trim]
  rw [kept text first, kept text.reverse (by simpa using last), List.reverse_reverse]

theorem trim_cons_of_isSpace (text : Bytes) (blank : isSpace byte = true) :
    trim (byte :: text) = trim text := by
  simp [trim, blank]

def IsBlank (text : Bytes) : Prop := ∀ byte ∈ text, isSpace byte = true

/-- A text that neither begins nor ends with a blank. -/
structure IsTrimmed (text : Bytes) : Prop where
  present : text ≠ []
  head : ∀ byte ∈ text.head?, isSpace byte = false
  foot : ∀ byte ∈ text.getLast?, isSpace byte = false

theorem IsTrimmed.trim_padded {lead core trail : Bytes} (trimmed : IsTrimmed core)
    (leads : IsBlank lead) (trails : IsBlank trail) : trim (lead ++ core ++ trail) = core := by
  have first := @takeWhile_append_of_head isSpace lead (core ++ trail) leads (by
    rw [List.head?_append_of_ne_nil _ trimmed.present]
    exact trimmed.head)
  have second := @takeWhile_append_of_head isSpace trail.reverse core.reverse
    (fun byte byteMem => trails byte (List.mem_reverse.mp byteMem)) (by
      rw [List.head?_reverse]
      exact trimmed.foot)
  rw [trim, List.append_assoc, first.2, List.reverse_append, second.2, List.reverse_reverse]

/-- Trimming removes blanks at both ends and nothing else. -/
theorem exists_padding (text : Bytes) :
    ∃ lead trail, IsBlank lead ∧ IsBlank trail ∧ text = lead ++ trim text ++ trail := by
  refine ⟨text.takeWhile isSpace, ((text.dropWhile isSpace).reverse.takeWhile isSpace).reverse,
    fun byte => List.mem_takeWhile_imp, fun byte byteMem =>
      List.mem_takeWhile_imp (List.mem_reverse.mp byteMem), ?_⟩
  rw [trim, List.append_assoc, ← List.reverse_append, List.takeWhile_append_dropWhile,
    List.reverse_reverse, List.takeWhile_append_dropWhile]

/-! ### Decimal renderings -/

theorem isDigit_digit : ∀ value < 10, isDigit (digit value) = true := by decide

theorem toNat_digit_sub_zero : ∀ value < 10, (digit value - '0').toNat = value := by decide

theorem isSpace_of_isDigit (digits : isDigit byte = true) :
    isSpace byte = false := by
  simp only [isSpace, Bool.or_eq_false_iff, beq_eq_false_iff_ne]
  constructor
  · rintro rfl
    cases digits
  · rintro rfl
    cases digits

theorem isDigit_of_mem_decimalFrom {written : Bytes}
    (digits : ∀ byte ∈ written, isDigit byte = true) :
    ∀ byte ∈ decimalFrom fuel number written, isDigit byte = true := by
  induction fuel generalizing number written with
  | zero => exact digits
  | succ fuel ih =>
    simp only [decimalFrom]
    split
    · rename_i small
      exact List.forall_mem_cons.mpr ⟨isDigit_digit number small, digits⟩
    · apply ih
      exact List.forall_mem_cons.mpr ⟨isDigit_digit _ (Nat.mod_lt _ (by omega)), digits⟩

theorem isDigit_of_mem_decimal (number : ℕ) :
    ∀ byte ∈ decimal number, isDigit byte = true :=
  isDigit_of_mem_decimalFrom (by simp)

theorem not_mem_decimal (number : ℕ) (notDigit : isDigit byte = false) :
    byte ∉ decimal number := by
  intro mem
  have digits := isDigit_of_mem_decimal number byte mem
  rw [notDigit] at digits
  cases digits

theorem decimalFrom_ne_nil {written : Bytes} (enough : 0 < fuel) :
    decimalFrom fuel number written ≠ [] := by
  induction fuel generalizing number written with
  | zero => omega
  | succ fuel ih =>
    simp only [decimalFrom]
    split
    · simp
    · cases fuel with
      | zero => simp [decimalFrom]
      | succ fuel => exact ih (by omega)

theorem decimal_ne_nil (number : ℕ) : decimal number ≠ [] :=
  decimalFrom_ne_nil (by omega)

theorem decimalFrom_append (written : Bytes) :
    decimalFrom fuel number written = decimalFrom fuel number [] ++ written := by
  induction fuel generalizing number written with
  | zero => rfl
  | succ fuel ih =>
    simp only [decimalFrom]
    split
    · rfl
    · rw [ih, ih [_], List.append_assoc]
      rfl

theorem decimalFrom_eq_decimal (enough : number < fuel) :
    decimalFrom fuel number [] = decimal number := by
  have same : ∀ (fuel other : ℕ) {number : ℕ} (written : Bytes), number < fuel → number < other →
      decimalFrom fuel number written = decimalFrom other number written := by
    intro fuel
    induction fuel with
    | zero => omega
    | succ fuel ih =>
      intro other number written within otherWithin
      cases other with
      | zero => omega
      | succ other =>
        simp only [decimalFrom]
        split
        · rfl
        · exact ih other _ (by omega) (by omega)
  exact same fuel (number + 1) [] enough (Nat.lt_succ_self number)

theorem decimal_of_lt (small : number < 10) : decimal number = [digit number] := by
  rw [decimal, decimalFrom, if_pos small]

theorem decimal_of_ge (large : 10 ≤ number) :
    decimal number = decimal (number / 10) ++ [digit (number % 10)] := by
  rw [decimal, decimalFrom, if_neg (by omega), decimalFrom_append,
    decimalFrom_eq_decimal (by omega)]

section

variable {m : Type → Type} [Monad m] [LawfulMonad m] {step : ℕ → UInt8 → m ℕ} {bound : ℕ}

theorem foldlM_decimalFrom (reads : ∀ value last, last < 10 → value * 10 + last ≤ bound →
      step value (digit last) = pure (value * 10 + last)) (written : Bytes)
    (enough : number < fuel) (fits : number ≤ bound) :
    (decimalFrom fuel number written).foldlM step 0 = written.foldlM step number := by
  induction fuel generalizing number written with
  | zero => omega
  | succ fuel ih =>
    simp only [decimalFrom]
    split
    · rename_i small
      rw [List.foldlM_cons, reads 0 number small (by omega), pure_bind, Nat.zero_mul,
        Nat.zero_add]
    · rename_i large
      have last : number / 10 * 10 + number % 10 = number := by omega
      rw [ih (digit (number % 10) :: written) (by omega) (by omega), List.foldlM_cons,
        reads _ _ (Nat.mod_lt _ (by omega)) (by omega), pure_bind, last]

/-- A reader of digits that admits every number up to a bound reads back what was written. -/
theorem foldlM_decimal (reads : ∀ value last, last < 10 → value * 10 + last ≤ bound →
      step value (digit last) = pure (value * 10 + last)) (fits : number ≤ bound) :
    (decimal number).foldlM step 0 = pure number := by
  rw [decimal, foldlM_decimalFrom reads [] (Nat.lt_succ_self number) fits, List.foldlM_nil]

end

theorem decimal_injective {second : ℕ} (same : decimal first = decimal second) :
    first = second := by
  have read : ∀ number, (decimal number).foldlM
      (fun value (byte : UInt8) => some (value * 10 + (byte - '0').toNat)) 0 = some number := by
    intro number
    refine foldlM_decimal ?_ (Nat.le_refl number)
    intro value last small _
    simp [toNat_digit_sub_zero last small]
  have both := read first
  rw [same, read second] at both
  exact (Option.some.inj both).symm

/-! ### Slices -/

/-- The bytes from a position on, at most `count` of them. -/
def slice (content : Bytes) (start count : ℕ) : Bytes := (content.drop start).take count

@[simp]
theorem length_slice (content : Bytes) (start count : ℕ) :
    (slice content start count).length = min count (content.length - start) := by
  simp [slice]

theorem getElem?_slice (within : index < count) :
    (slice content start count)[index]? = content[start + index]? := by
  rw [slice, List.getElem?_take_of_lt within, List.getElem?_drop]

theorem slice_slice (content : Bytes) (start : ℕ) {length : ℕ} (inside : first + length ≤ count) :
    slice (slice content start count) first length = slice content (start + first) length := by
  rw [slice, slice, slice, List.drop_take, List.take_take, List.drop_drop,
    Nat.min_eq_left (by omega)]

theorem slice_of_isPrefix {whole : Bytes} (isPrefix : content <+: whole)
    (inside : start + count ≤ content.length) :
    slice content start count = slice whole start count := by
  rcases isPrefix with ⟨rest, rfl⟩
  rw [slice, slice, List.drop_append_of_le_length (by omega), List.take_append_of_le_length]
  rw [List.length_drop]
  omega

theorem slice_field {field : Bytes} (starts : before.length = start)
    (counts : field.length = count) : slice (before ++ (field ++ after)) start count = field := by
  rw [slice, ← starts, List.drop_left, ← counts, List.take_left]

/-- A field of a text that is one field after the other. -/
theorem slice_flatten {fields : List Bytes} {field : Bytes} (found : fields[index]? = some field)
    (starts : ((fields.take index).map List.length).sum = start) (counts : field.length = count) :
    slice fields.flatten start count = field := by
  rcases List.getElem?_eq_some_iff.mp found with ⟨within, here⟩
  have split : fields.take index ++ field :: fields.drop (index + 1) = fields := by
    rw [← here, ← List.drop_eq_getElem_cons within, List.take_append_drop]
  rw [← split, List.flatten_append, List.flatten_cons]
  exact slice_field (by rw [List.length_flatten, starts]) counts

theorem slice_append_slice (content : Bytes) {next more : ℕ} (follows : start + count = next) :
    slice content start count ++ slice content next more = slice content start (count + more) := by
  rw [slice, slice, slice, List.take_add, List.drop_drop, follows]

theorem slice_set_of_outside {position : ℕ} (byte : UInt8)
    (outside : position < start ∨ start + count ≤ position) :
    slice (content.set position byte) start count = slice content start count := by
  rw [slice, slice, List.drop_set]
  split
  · rfl
  · rw [List.take_set, List.set_eq_of_length_le]
    rw [List.length_take]
    omega

theorem slice_set_of_inside {position : ℕ} (count : ℕ) (byte : UInt8) (starts : start ≤ position) :
    slice (content.set position byte) start count =
      (slice content start count).set (position - start) byte := by
  rw [slice, slice, List.drop_set, if_neg (Nat.not_lt.mpr starts), List.take_set]

theorem getElem?_of_prefix_window {data : Bytes}
    (window : data <+: (content.drop first).take count) (within : index < data.length) :
    content[first + index]? = some (data.getD index 0) := by
  have sameByte := window.getElem within
  have bound : index < ((content.drop first).take count).length :=
    Nat.lt_of_lt_of_le within window.length_le
  rw [List.getElem_take, List.getElem_drop] at sameByte
  rw [List.length_take, List.length_drop] at bound
  rw [List.getElem?_eq_getElem (by omega), ← sameByte]
  simp [List.getElem?_eq_getElem within]

/-! ### Lengths that were changed -/

/-- One text begins with the other: one of them was cut, or something was put behind it. -/
def Comparable (content whole : Bytes) : Prop := content <+: whole ∨ whole <+: content

namespace Comparable

variable {whole : Bytes}

section

variable (comparable : Comparable content whole)

include comparable

theorem slice_eq (inside : start + count ≤ content.length)
    (insideWhole : start + count ≤ whole.length) :
    slice content start count = slice whole start count := by
  rcases comparable with isPrefix | isPrefix
  · exact slice_of_isPrefix isPrefix inside
  · exact (slice_of_isPrefix isPrefix insideWhole).symm

theorem eq_of_length (length : content.length = whole.length) : content = whole := by
  rcases comparable with isPrefix | isPrefix
  · exact isPrefix.eq_of_length length
  · exact (isPrefix.eq_of_length length.symm).symm

theorem take (count : ℕ) : Comparable (content.take count) whole := by
  rcases comparable with isPrefix | isPrefix
  · exact Or.inl ((List.take_prefix count content).trans isPrefix)
  · exact (List.prefix_or_prefix_of_prefix (List.take_prefix count content) isPrefix)

theorem append (complete : whole.length ≤ content.length)
    (data : Bytes) : Comparable (content ++ data) whole := by
  right
  rcases comparable with isPrefix | isPrefix
  · rw [isPrefix.eq_of_length (Nat.le_antisymm isPrefix.length_le complete)]
    exact List.prefix_append whole data
  · exact isPrefix.trans (List.prefix_append content data)

end

/-- A text that is read piece by piece while its length changes. -/
theorem read {buffer : Bytes} (read : Comparable buffer whole)
    (comparable : Comparable content whole) (count : ℕ) :
    Comparable (buffer ++ slice content buffer.length count) whole := by
  rcases Nat.lt_or_ge buffer.length whole.length with short | long
  · rcases Nat.lt_or_ge buffer.length content.length with more | ended
    · -- What was read so far is still what the text begins with.
      have kept : content.take buffer.length = buffer := by
        have same : slice content 0 buffer.length = slice buffer 0 buffer.length := by
          rw [comparable.slice_eq (by omega) (by omega), read.slice_eq (by omega) (by omega)]
        simpa [slice] using same
      have longer : buffer ++ slice content buffer.length count =
          content.take (buffer.length + count) := by
        rw [List.take_add, kept, slice]
      rw [longer]
      exact comparable.take _
    · rw [slice, List.drop_of_length_le ended, List.take_nil, List.append_nil]
      exact read
  · exact read.append long _

end Comparable

/-! ### Little-endian numbers -/

/-- The lowest bytes of a number, the lowest one first. -/
def littleEndian : ℕ → ℕ → Bytes
  | 0, _ => []
  | width + 1, value => UInt8.ofNat (value % 256) :: littleEndian width (value / 256)

def readLittleEndian : Bytes → ℕ
  | [] => 0
  | byte :: rest => byte.toNat + 256 * readLittleEndian rest

@[simp]
theorem length_littleEndian (width value : ℕ) : (littleEndian width value).length = width := by
  induction width generalizing value with
  | zero => rfl
  | succ width ih => simp [littleEndian, ih]

theorem readLittleEndian_littleEndian {width value : ℕ} (fits : value < 256 ^ width) :
    readLittleEndian (littleEndian width value) = value := by
  induction width generalizing value with
  | zero =>
    rw [Nat.pow_zero, Nat.lt_one_iff] at fits
    exact fits.symm
  | succ width ih =>
    have lowest : (UInt8.ofNat (value % 256)).toNat = value % 256 := by
      rw [UInt8.toNat_ofNat']
      omega
    have higher : value / 256 < 256 ^ width := by
      rw [Nat.div_lt_iff_lt_mul (by decide), ← Nat.pow_succ]
      exact fits
    simp only [littleEndian, readLittleEndian, ih higher, lowest]
    omega

theorem littleEndian_readLittleEndian {width : ℕ} {data : Bytes} (length : data.length = width) :
    littleEndian width (readLittleEndian data) = data := by
  induction data generalizing width with
  | nil =>
    subst length
    rfl
  | cons byte rest ih =>
    subst length
    have small := byte.toNat_lt
    have lowest : UInt8.ofNat ((byte.toNat + 256 * readLittleEndian rest) % 256) = byte := by
      rw [Nat.add_mul_mod_self_left, Nat.mod_eq_of_lt (by omega), UInt8.ofNat_toNat]
    have higher : (byte.toNat + 256 * readLittleEndian rest) / 256 = readLittleEndian rest := by
      omega
    simp only [List.length_cons, littleEndian, readLittleEndian, lowest, higher, ih rfl]

theorem readLittleEndian_injective {first second : Bytes} (length : first.length = second.length)
    (same : readLittleEndian first = readLittleEndian second) : first = second := by
  rw [← littleEndian_readLittleEndian length, same, littleEndian_readLittleEndian rfl]

theorem littleEndian_injective {width first second : ℕ} (firstFits : first < 256 ^ width)
    (secondFits : second < 256 ^ width)
    (same : littleEndian width first = littleEndian width second) : first = second := by
  rw [← readLittleEndian_littleEndian firstFits, same, readLittleEndian_littleEndian secondFits]

end ByteString
