import Mathlib.Data.FinEnum
import Mathlib.Data.Nat.Digits.Lemmas
import UsdAsset.Lib.ByteString

/-!
# The text forms of addresses

RFC 4291 §2.2: an IPv6 address is written as eight groups of hexadecimal digits, the last
two of which may be a dotted quad, and one run of groups that are zero may be left out
at a `::`.  A dotted quad is written in its one canonical form.
-/

namespace Rfc4291

open ByteString

/-- Four decimal numbers, without leading zeros. -/
def dottedQuad (address : Vector UInt8 4) : Bytes :=
  decimal (address.get 0).toNat ++ (bytes "." ++ (decimal (address.get 1).toNat ++ (bytes "." ++
    (decimal (address.get 2).toNat ++ (bytes "." ++ decimal (address.get 3).toNat)))))

def IsHexDigit (byte : UInt8) (digit : ℕ) : Prop :=
  (bytes "0123456789abcdef")[digit]? = some byte ∨ (bytes "0123456789ABCDEF")[digit]? = some byte

/-- One to four hexadecimal digits stand for a group. -/
structure WritesGroup (part : Bytes) (value : ℕ) : Prop where
  present : part ≠ []
  short : part.length ≤ 4
  digits : ∃ digits, List.Forall₂ IsHexDigit part digits ∧ Nat.ofDigits 16 digits.reverse = value

/-- The two groups of a dotted quad. -/
def quadGroups (address : Vector UInt8 4) : List ℕ :=
  [(address.get 0).toNat * 256 + (address.get 1).toNat,
    (address.get 2).toNat * 256 + (address.get 3).toNat]

/-- The parts between the colons; the last may be a dotted quad where that is admitted. -/
inductive WritesParts (trailing : Bool) : List Bytes → List ℕ → Prop where
  | nil : WritesParts trailing [] []
  | quad (admitted : trailing = true) (address : Vector UInt8 4) :
      WritesParts trailing [dottedQuad address] (quadGroups address)
  | cons {part : Bytes} {value : ℕ} {parts : List Bytes} {groups : List ℕ}
      (group : WritesGroup part value) (rest : WritesParts trailing parts groups) :
      WritesParts trailing (part :: parts) (value :: groups)

def groupsOf (address : Vector UInt8 16) : List ℕ :=
  List.ofFn fun index : Fin 8 =>
    address[2 * index.val].toNat * 256 + address[2 * index.val + 1].toNat

def joined (parts : List Bytes) : Bytes := (bytes ":").intercalate parts

/-- A `::` stands for at least one group. -/
inductive WritesAddress (address : Vector UInt8 16) : Bytes → Prop where
  | full {parts : List Bytes} (writes : WritesParts true parts (groupsOf address)) :
      WritesAddress address (joined parts)
  | compressed {front back : List Bytes} {head tail : List ℕ} {zeros : ℕ}
      (writesHead : WritesParts false front head) (writesTail : WritesParts true back tail)
      (omitted : 0 < zeros) (whole : groupsOf address = head ++ List.replicate zeros 0 ++ tail) :
      WritesAddress address (joined front ++ bytes "::" ++ joined back)

/-! ### Digits and groups -/

theorem IsHexDigit.lt {byte : UInt8} {digit : ℕ} (isDigit : IsHexDigit byte digit) : digit < 16 := by
  rcases isDigit with found | found
  · exact (List.getElem?_eq_some_iff.mp found).1
  · exact (List.getElem?_eq_some_iff.mp found).1

theorem WritesGroup.lt {part : Bytes} {value : ℕ} (group : WritesGroup part value) :
    value < 65536 := by
  rcases group.digits with ⟨digits, matched, rfl⟩
  have small : ∀ digit ∈ digits.reverse, digit < 16 := by
    intro digit digitMem
    rcases List.forall₂_iff_get.mp matched with ⟨lengths, each⟩
    rcases List.get_of_mem (List.mem_reverse.mp digitMem) with ⟨index, rfl⟩
    have within := index.isLt
    exact (each index.val (by omega) within).lt
  have below := Nat.ofDigits_lt_base_pow_length (by omega : 1 < 16) small
  rw [List.length_reverse, ← matched.length_eq] at below
  exact below.trans_le (Nat.pow_le_pow_right (by omega) group.short)

/-- A byte of a part: a hexadecimal digit or a dot. -/
def inPart (byte : UInt8) : Bool := (bytes "0123456789abcdefABCDEF.").contains byte

theorem IsHexDigit.inPart {byte : UInt8} {digit : ℕ} (isDigit : IsHexDigit byte digit) :
    inPart byte = true ∧ byte ≠ (('.' : Char) : UInt8) := by
  have lower : ∀ byte ∈ bytes "0123456789abcdef",
      Rfc4291.inPart byte = true ∧ byte ≠ (('.' : Char) : UInt8) := by decide +kernel
  have upper : ∀ byte ∈ bytes "0123456789ABCDEF",
      Rfc4291.inPart byte = true ∧ byte ≠ (('.' : Char) : UInt8) := by decide +kernel
  rcases isDigit with found | found
  · exact lower byte (List.mem_of_getElem? found)
  · exact upper byte (List.mem_of_getElem? found)

theorem WritesGroup.inPart {part : Bytes} {value : ℕ} (group : WritesGroup part value) :
    ∀ byte ∈ part, inPart byte = true ∧ byte ≠ (('.' : Char) : UInt8) := by
  rcases group.digits with ⟨digits, matched, _⟩
  intro byte byteMem
  rcases List.forall₂_iff_get.mp matched with ⟨lengths, each⟩
  rcases List.get_of_mem byteMem with ⟨index, rfl⟩
  have within := index.isLt
  exact (each index.val within (by omega)).inPart

theorem inPart_of_isDigit : ∀ byte : UInt8, isDigit byte = true → inPart byte = true := by
  decide +kernel

/-! ### Parts -/

section Parts

variable {trailing : Bool} {parts : List Bytes} {groups : List ℕ}

theorem inPart_of_mem_dottedQuad (address : Vector UInt8 4) :
    ∀ byte ∈ dottedQuad address, inPart byte = true := by
  have dot : ∀ byte ∈ bytes ".", inPart byte = true := by decide +kernel
  have number : ∀ value, ∀ byte ∈ decimal value, inPart byte = true :=
    fun value byte byteMem => inPart_of_isDigit byte (isDigit_of_mem_decimal value byte byteMem)
  simp only [dottedQuad, List.forall_mem_append]
  exact ⟨number _, dot, number _, dot, number _, dot, number _⟩

theorem WritesParts.part (writes : WritesParts trailing parts groups) :
    ∀ part ∈ parts, part ≠ [] ∧ ∀ byte ∈ part, inPart byte = true := by
  induction writes with
  | nil => exact nofun
  | quad _ address =>
    intro part partMem
    rw [List.mem_singleton.mp partMem]
    refine ⟨?_, inPart_of_mem_dottedQuad address⟩
    simp [dottedQuad, decimal_ne_nil]
  | cons group _ ih =>
    refine List.forall_mem_cons.mpr ⟨⟨group.present, fun byte byteMem => ?_⟩, ih⟩
    exact (group.inPart byte byteMem).1

theorem WritesParts.lt (writes : WritesParts trailing parts groups) :
    ∀ group ∈ groups, group < 65536 := by
  induction writes with
  | nil => exact nofun
  | quad _ address =>
    have bound : ∀ high low : UInt8, high.toNat * 256 + low.toNat < 65536 := by
      intro high low
      have := high.toNat_lt
      have := low.toNat_lt
      omega
    simp [quadGroups, bound]
  | cons group _ ih => exact List.forall_mem_cons.mpr ⟨group.lt, ih⟩

theorem WritesParts.colon_notMem (writes : WritesParts trailing parts groups) :
    ∀ part ∈ parts, colon ∉ part := by
  intro part partMem colonMem
  cases (writes.part part partMem).2 _ colonMem

theorem joined_cons_cons (part next : Bytes) (parts : List Bytes) :
    joined (part :: next :: parts) = part ++ (colon :: joined (next :: parts)) := by
  rw [joined, List.intercalate_cons_cons, List.append_assoc]
  rfl

theorem WritesParts.joined_ne_nil (writes : WritesParts trailing parts groups)
    (present : parts ≠ []) : joined parts ≠ [] := by
  rcases parts with _ | ⟨part, _ | ⟨next, parts⟩⟩
  · exact absurd rfl present
  · rw [joined, List.intercalate_singleton]
    exact (writes.part part List.mem_cons_self).1
  · rw [joined_cons_cons]
    simp

theorem WritesParts.head_joined (writes : WritesParts trailing parts groups) :
    ∀ byte ∈ (joined parts).head?, byte ≠ colon := by
  have ofPart : ∀ {part : Bytes} (after : Bytes), part ≠ [] → colon ∉ part →
      ∀ byte ∈ (part ++ after).head?, byte ≠ colon := by
    intro part after present absent
    cases part with
    | nil => exact absurd rfl present
    | cons first part =>
      rintro _ ⟨⟩ rfl
      exact absent List.mem_cons_self
  have plain := writes.colon_notMem
  have present := fun part partMem => (writes.part part partMem).1
  rcases parts with _ | ⟨part, _ | ⟨next, parts⟩⟩
  · exact nofun
  · have alone := ofPart [] (present part List.mem_cons_self) (plain part List.mem_cons_self)
    rw [List.append_nil] at alone
    rw [joined, List.intercalate_singleton]
    exact alone
  · rw [joined_cons_cons]
    exact ofPart _ (present part List.mem_cons_self) (plain part List.mem_cons_self)

theorem find_colon {rest : Bytes} (head : ∀ byte ∈ rest.head?, byte ≠ colon) :
    find (bytes "::") (colon :: rest) = (find (bytes "::") rest).map (· + 1) := by
  have single : (bytes "::").isPrefixOf (colon :: rest) = false := by
    cases rest with
    | nil => rfl
    | cons first rest =>
      have other : colon ≠ first := (head first rfl).symm
      simp [bytes, List.isPrefixOf, other]
  rw [find, single, if_neg Bool.false_ne_true]

theorem WritesParts.find_joined (writes : WritesParts trailing parts groups) (after : Bytes) :
    find (bytes "::") (joined parts ++ after) =
      (find (bytes "::") after).map (· + (joined parts).length) := by
  induction writes with
  | nil => simp [joined]
  | quad admitted address =>
    rw [joined, List.intercalate_singleton]
    exact find_append_of_notMem after
      ((WritesParts.quad admitted address).colon_notMem _ List.mem_cons_self)
  | @cons part value parts groups group rest ih =>
    have absent := (WritesParts.cons group rest).colon_notMem part List.mem_cons_self
    cases parts with
    | nil =>
      rw [joined, List.intercalate_singleton]
      exact find_append_of_notMem after absent
    | cons next parts =>
      have head : ∀ byte ∈ (joined (next :: parts) ++ after).head?,
          byte ≠ colon := by
        rw [List.head?_append_of_ne_nil _ (rest.joined_ne_nil (List.cons_ne_nil _ _))]
        exact rest.head_joined
      rw [joined_cons_cons, List.append_assoc, List.cons_append]
      have skipped : find (bytes "::") (part ++ colon ::
          (joined (next :: parts) ++ after)) = _ := find_append_of_notMem _ absent
      rw [skipped]
      change Option.map _ (find (bytes "::") _) = _
      rw [find_colon head, ih, Option.map_map, Option.map_map]
      congr 1
      funext index
      simp only [Function.comp_apply, List.length_append, List.length_cons]
      omega

theorem WritesParts.mem_joined (writes : WritesParts trailing parts groups) :
    ∀ byte ∈ joined parts, inPart byte = true ∨ byte = colon := by
  induction writes with
  | nil => exact nofun
  | quad _ address =>
    rw [joined, List.intercalate_singleton]
    exact fun byte byteMem => Or.inl (inPart_of_mem_dottedQuad address byte byteMem)
  | @cons part value parts groups group rest ih =>
    have inside := fun byte byteMem => (group.inPart byte byteMem).1
    cases parts with
    | nil =>
      rw [joined, List.intercalate_singleton]
      exact fun byte byteMem => Or.inl (inside byte byteMem)
    | cons next parts =>
      rw [joined_cons_cons]
      simp only [List.mem_append, List.mem_cons]
      rintro byte (inPart | colon | later)
      · exact Or.inl (inside byte inPart)
      · exact Or.inr colon
      · exact ih byte later

/-- No text of an address holds the byte a zone begins with. -/
theorem WritesAddress.percent_notMem {address : Vector UInt8 16} {text : Bytes}
    (writes : WritesAddress address text) : (('%' : Char) : UInt8) ∉ text := by
  have absent : ∀ {trailing : Bool} {parts : List Bytes} {groups : List ℕ},
      WritesParts trailing parts groups → percentSign ∉ joined parts := by
    intro trailing parts groups writes percentMem
    rcases writes.mem_joined _ percentMem with inside | colon
    · cases inside
    · cases colon
  cases writes with
  | full writes => exact absent writes
  | compressed writesHead writesTail =>
    simp only [List.mem_append, not_or]
    exact ⟨⟨absent writesHead, by decide⟩, absent writesTail⟩

end Parts

end Rfc4291
