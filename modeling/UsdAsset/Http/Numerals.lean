import Mathlib.Data.List.Induction
import Mathlib.Data.Nat.Digits.Defs
import UsdAsset.Http.Framing
import UsdAsset.Http.Uri

/-!
# Decimal numerals

The numerals of a header value and of a port are read digit by digit, and a value that
leaves the range is refused rather than wrapped.  What is read is the number that the
numeral stands for, whatever its length.
-/

namespace UsdAsset.Http

open ByteString

variable {byte : UInt8} {text : Bytes} {number : ℕ}

def digitValue (byte : UInt8) : ℕ := (byte - '0').toNat

def IsDecimal (text : Bytes) (number : ℕ) : Prop :=
  text ≠ [] ∧ (∀ byte ∈ text, isDigit byte = true) ∧
    Nat.ofDigits 10 (text.reverse.map digitValue) = number

theorem digitValue_le (digits : isDigit byte = true) : digitValue byte ≤ 9 := by
  simp only [isDigit, Bool.and_eq_true, decide_eq_true_eq] at digits
  rw [digitValue, UInt8.toNat_sub_of_le _ _ digits.1]
  have upper : byte.toNat ≤ 57 := digits.2
  change byte.toNat - 48 ≤ 9
  omega

/-- The value of a numeral behind a value that is read already. -/
def readDigits (text : Bytes) (value : ℕ) : ℕ :=
  text.foldl (fun value byte => value * 10 + digitValue byte) value

theorem readDigits_cons (byte : UInt8) (rest : Bytes) (value : ℕ) :
    readDigits (byte :: rest) value = readDigits rest (value * 10 + digitValue byte) := rfl

theorem le_readDigits (text : Bytes) (value : ℕ) : value ≤ readDigits text value := by
  induction text generalizing value with
  | nil => exact Nat.le_refl value
  | cons byte rest ih =>
    have := ih (value * 10 + digitValue byte)
    rw [readDigits_cons]
    omega

theorem readDigits_zero (text : Bytes) :
    readDigits text 0 = Nat.ofDigits 10 (text.reverse.map digitValue) := by
  rw [Nat.ofDigits_eq_foldr, List.foldr_map, List.foldr_reverse, readDigits]
  congr 1
  funext value byte
  simp only [Nat.cast_id]
  omega

theorem isDecimal_iff :
    IsDecimal text number ↔
      text ≠ [] ∧ (∀ byte ∈ text, isDigit byte = true) ∧ readDigits text 0 = number := by
  rw [IsDecimal, readDigits_zero]

/-! ### Readers with a bound -/

section Readers

variable {m : Type → Type} [Monad m] {yields : m ℕ → ℕ → Prop}
  {step : ℕ → UInt8 → m ℕ} {bound : ℕ}

/-- A reader that refuses what is no digit and what exceeds a bound reads the numerals below it. -/
theorem yields_foldlM_iff (pure_iff : ∀ {value number : ℕ}, yields (pure value) number ↔ value = number)
    (bind_iff : ∀ {first : m ℕ} {next : ℕ → m ℕ} {number : ℕ},
      yields (first >>= next) number ↔ ∃ value, yields first value ∧ yields (next value) number)
    (reads : ∀ {value next : ℕ} {byte : UInt8}, yields (step value byte) next ↔
      isDigit byte = true ∧ value * 10 + digitValue byte = next ∧ next ≤ bound)
    {text : Bytes} {value number : ℕ} (fits : value ≤ bound) :
    yields (text.foldlM step value) number ↔
      (∀ byte ∈ text, isDigit byte = true) ∧ readDigits text value = number ∧ number ≤ bound := by
  induction text generalizing value with
  | nil =>
    rw [List.foldlM_nil, pure_iff]
    constructor
    · rintro rfl
      exact ⟨nofun, rfl, fits⟩
    · rintro ⟨_, same, _⟩
      exact same
  | cons byte rest ih =>
    rw [List.foldlM_cons, bind_iff]
    simp only [reads, List.forall_mem_cons, readDigits_cons]
    constructor
    · rintro ⟨next, ⟨digits, rfl, small⟩, parsed⟩
      rcases (ih small).mp parsed with ⟨allDigits, numberEq, numberFits⟩
      exact ⟨⟨digits, allDigits⟩, numberEq, numberFits⟩
    · rintro ⟨⟨digits, allDigits⟩, numberEq, numberFits⟩
      -- No prefix of the digits exceeds the number they all make.
      have small : value * 10 + digitValue byte ≤ bound :=
        (le_readDigits rest _).trans (numberEq.trans_le numberFits)
      exact ⟨_, ⟨digits, rfl, small⟩, (ih small).mpr ⟨allDigits, numberEq, numberFits⟩⟩

end Readers

theorem parseDigit_eq_some_iff {value next : ℕ} :
    parseDigit value byte = some next ↔
      isDigit byte = true ∧ value * 10 + digitValue byte = next ∧ next ≤ maxU64 := by
  have bound : maxU64 = 2 ^ 64 - 1 := rfl
  rw [parseDigit]
  change (if isDigit byte = true then
    if value > (maxU64 - digitValue byte) / 10 then none
    else some (value * 10 + digitValue byte) else none) = some next ↔ _
  constructor
  · intro parsed
    split at parsed
    · rename_i digits
      have := digitValue_le digits
      split at parsed
      · cases parsed
      · cases parsed
        exact ⟨digits, rfl, by omega⟩
    · cases parsed
  · rintro ⟨digits, rfl, fits⟩
    have := digitValue_le digits
    rw [if_pos digits, if_neg (by omega)]

theorem parseUnsigned_eq_some_iff :
    parseUnsigned text = some number ↔ IsDecimal text number ∧ number < 2 ^ 64 := by
  have bound : maxU64 = 2 ^ 64 - 1 := rfl
  by_cases empty : text = []
  · simp [parseUnsigned, IsDecimal, empty]
  · have read := @yields_foldlM_iff Option _ (fun result number => result = some number) parseDigit
      maxU64 Option.some_inj Option.bind_eq_some_iff parseDigit_eq_some_iff text 0 number
      (Nat.zero_le _)
    rw [parseUnsigned, if_neg empty, read, isDecimal_iff]
    constructor
    · rintro ⟨digits, numberEq, fits⟩
      exact ⟨⟨empty, digits, numberEq⟩, by omega⟩
    · rintro ⟨⟨_, digits, numberEq⟩, fits⟩
      exact ⟨digits, numberEq, by omega⟩

def portStep (port : ℕ) (byte : UInt8) : Except Bytes ℕ :=
  if isDigit byte then
    if port * 10 + digitValue byte > 65535 then .error (bytes "URI port is out of range")
    else .ok (port * 10 + digitValue byte)
  else .error (bytes "URI port is not a number")

theorem portStep_eq_ok_iff {port next : ℕ} :
    portStep port byte = .ok next ↔
      isDigit byte = true ∧ port * 10 + digitValue byte = next ∧ next ≤ 65535 := by
  simp only [portStep]
  split
  · rename_i digits
    split
    · rename_i large
      simp only [reduceCtorEq, digits, true_and, false_iff, not_and, Nat.not_le]
      rintro rfl
      exact large
    · rename_i small
      simp only [Except.ok.injEq, digits, true_and]
      constructor
      · rintro rfl
        exact ⟨rfl, Nat.le_of_not_lt small⟩
      · exact And.left
  · rename_i other
    simp [other]

theorem bind_eq_ok_iff {ε α β : Type} {first : Except ε α} {next : α → Except ε β} {result : β} :
    first >>= next = .ok result ↔ ∃ value, first = .ok value ∧ next value = .ok result := by
  constructor
  · exact exists_of_bind_ok
  · rintro ⟨value, rfl, succeeds⟩
    exact succeeds

theorem parsePort_eq_ok_iff {port : ℕ} :
    parsePort text = .ok port ↔ IsDecimal text port ∧ 1 ≤ port ∧ port ≤ 65535 := by
  have read := @yields_foldlM_iff (Except Bytes) _ (fun result number => result = .ok number)
    portStep 65535 (by simp [pure, Except.pure]) bind_eq_ok_iff portStep_eq_ok_iff text 0
  have split : parsePort text = text.foldlM portStep 0 >>= fun port =>
      if port = 0 then .error (bytes "URI port is out of range") else .ok port := rfl
  rw [split, bind_eq_ok_iff, isDecimal_iff]
  simp only [read (Nat.zero_le _)]
  constructor
  · rintro ⟨value, ⟨digits, valueEq, fits⟩, nonzero⟩
    split at nonzero
    · cases nonzero
    · rename_i positive
      cases nonzero
      refine ⟨⟨?_, digits, valueEq⟩, by omega, fits⟩
      rintro rfl
      exact positive valueEq.symm
  · rintro ⟨⟨_, digits, portEq⟩, positive, fits⟩
    exact ⟨port, ⟨digits, portEq, fits⟩, if_neg (by omega)⟩

theorem isDecimal_decimal (number : ℕ) : IsDecimal (decimal number) number := by
  refine isDecimal_iff.mpr ⟨decimal_ne_nil number, isDigit_of_mem_decimal number, ?_⟩
  have read : (decimal number).foldlM (m := Option)
      (fun value byte => pure (value * 10 + digitValue byte)) 0 = some number := by
    refine foldlM_decimal ?_ (Nat.le_refl number)
    intro value last small _
    simp [digitValue, toNat_digit_sub_zero last small]
  rw [List.foldlM_pure] at read
  exact Option.some.inj read

theorem digit_digitValue (digits : isDigit byte = true) :
    digit (digitValue byte) = byte := by
  simp only [isDigit, Bool.and_eq_true, decide_eq_true_eq] at digits
  have lower : 48 ≤ byte.toNat := digits.1
  have value : digitValue byte = byte.toNat - 48 := by
    rw [digitValue, UInt8.toNat_sub_of_le _ _ digits.1]
    rfl
  rw [digit, value, Nat.add_sub_cancel' lower, UInt8.ofNat_toNat]

theorem eq_decimal_of_isDecimal (isDecimal : IsDecimal text number)
    (canonical : text.length = 1 ∨ text.head? ≠ some (('0' : Char) : UInt8)) :
    text = decimal number := by
  rcases isDecimal_iff.mp isDecimal with ⟨present, digits, value⟩
  clear isDecimal
  induction text using List.reverseRecOn generalizing number with
  | nil => exact absurd rfl present
  | append_singleton front last ih =>
    rcases List.forall_mem_append.mp digits with ⟨frontDigits, lastDigit⟩
    have lastDigit := lastDigit last (List.mem_singleton.mpr rfl)
    have small := digitValue_le lastDigit
    have split : readDigits front 0 * 10 + digitValue last = number := by
      rw [← value]
      simp [readDigits]
    cases front with
    | nil =>
      have single : digitValue last = number := by simpa [readDigits] using split
      rw [← single, decimal_of_lt (by omega), digit_digitValue lastDigit, List.nil_append]
    | cons first front =>
      have leading : first ≠ (('0' : Char) : UInt8) := by
        rintro rfl
        simp at canonical
      -- The number is not below ten, since its first digit is not zero.
      have positive : 1 ≤ readDigits (first :: front) 0 := by
        have grown := le_readDigits front (0 * 10 + digitValue first)
        rw [readDigits_cons]
        by_contra zero
        have nothing : digitValue first = 0 := by omega
        have same := digit_digitValue (frontDigits first List.mem_cons_self)
        rw [nothing] at same
        exact leading same.symm
      have step := ih (Or.inr (by simpa using leading)) (List.cons_ne_nil _ _) frontDigits rfl
      rw [decimal_of_ge (by omega), ← split, Nat.mul_comm, Nat.mul_add_div (by omega),
        Nat.div_eq_of_lt (by omega), Nat.mul_add_mod, Nat.mod_eq_of_lt (by omega),
        digit_digitValue lastDigit, Nat.add_zero, ← step]

end UsdAsset.Http
