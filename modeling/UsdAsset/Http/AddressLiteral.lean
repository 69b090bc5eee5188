import Mathlib.Data.List.GetD
import UsdAsset.Http.Destination
import UsdAsset.Http.Numerals
import UsdAsset.Lib.Rfc4291

/-!
# Address literals

A host is read as an address where it is one of the texts of an address, and then as that
address, whichever of its texts it is.
-/

namespace UsdAsset.Http

open ByteString Rfc4291

variable {value : UInt8} {text rest part : Bytes} {trailing : Bool} {groups : List ℕ}

/-! ### Dotted quads -/

def octetStep (value : ℕ) (byte : UInt8) : Option ℕ :=
  if value * 10 + digitValue byte > 255 then none else some (value * 10 + digitValue byte)

theorem foldlM_octetStep_iff {digits : Bytes} {value number : ℕ} (fits : value ≤ 255) :
    digits.foldlM octetStep value = some number ↔
      readDigits digits value = number ∧ number ≤ 255 := by
  induction digits generalizing value with
  | nil =>
    rw [List.foldlM_nil]
    constructor
    · rintro ⟨⟩
      exact ⟨rfl, fits⟩
    · rintro ⟨rfl, _⟩
      rfl
  | cons byte rest ih =>
    rw [List.foldlM_cons, readDigits_cons, octetStep]
    split
    · rename_i large
      have grown := le_readDigits rest (value * 10 + digitValue byte)
      simp only [Option.bind_eq_bind, Option.bind_none, reduceCtorEq, false_iff]
      rintro ⟨rfl, small⟩
      omega
    · rename_i small
      exact ih (by omega)

theorem length_decimal_octet : ∀ value < 256, (decimal value).length ≤ 3 := by
  decide +kernel

theorem head_decimal_octet : ∀ value < 256, (decimal value).length = 1 ∨
    (decimal value).head? ≠ some (('0' : Char) : UInt8) := by
  decide +kernel

theorem parseIPv4Part_eq (text : Bytes) : parseIPv4Part text =
    match (text.takeWhile isDigit).foldlM octetStep 0 with
    | none => none
    | some value =>
      if (text.takeWhile isDigit).length = 0 ∨ (text.takeWhile isDigit).length > 3 then none
      else if (text.takeWhile isDigit).length > 1 ∧
          (text.takeWhile isDigit).head? = some (('0' : Char) : UInt8) then none
      else some (UInt8.ofNat value, text.dropWhile isDigit) :=
  rfl

theorem parseIPv4Part_of_decimal (digits : text.takeWhile isDigit = decimal value.toNat) :
    parseIPv4Part text = some (value, text.dropWhile isDigit) := by
  have bound := value.toNat_lt
  rcases isDecimal_iff.mp (isDecimal_decimal value.toNat) with ⟨present, _, read⟩
  have folded : (decimal value.toNat).foldlM octetStep 0 = some value.toNat :=
    (foldlM_octetStep_iff (Nat.zero_le _)).mpr ⟨read, by omega⟩
  have short := length_decimal_octet _ bound
  have long : (decimal value.toNat).length ≠ 0 := List.length_eq_zero_iff.not.mpr present
  rw [parseIPv4Part_eq, digits, folded]
  dsimp only
  rw [if_neg (by omega), if_neg, UInt8.ofNat_toNat]
  rintro ⟨several, zero⟩
  rcases head_decimal_octet _ bound with single | other
  · omega
  · exact other zero

theorem decimal_of_parseIPv4Part (parsed : parseIPv4Part text = some (value, rest)) :
    text.takeWhile isDigit = decimal value.toNat ∧ text.dropWhile isDigit = rest := by
  rw [parseIPv4Part_eq] at parsed
  split at parsed
  · cases parsed
  · rename_i number folded
    rcases (foldlM_octetStep_iff (Nat.zero_le _)).mp folded with ⟨read, small⟩
    split at parsed
    · cases parsed
    · rename_i lengths
      split at parsed
      · cases parsed
      · rename_i canonical
        cases parsed
        refine ⟨?_, rfl⟩
        have same : (UInt8.ofNat number).toNat = number :=
          UInt8.toNat_ofNat_of_lt (Nat.lt_of_le_of_lt small (by decide))
        rw [same]
        refine eq_decimal_of_isDecimal (isDecimal_iff.mpr ⟨?_, fun byte => List.mem_takeWhile_imp,
          read⟩) ?_
        · intro empty
          exact lengths (Or.inl (List.length_eq_zero_iff.mpr empty))
        · by_cases single : (text.takeWhile isDigit).length = 1
          · exact Or.inl single
          · exact Or.inr fun zero => canonical ⟨by omega, zero⟩

theorem parseIPv4Part_eq_some_iff :
    parseIPv4Part text = some (value, rest) ↔
      text = decimal value.toNat ++ rest ∧ ∀ byte ∈ rest.head?, isDigit byte = false := by
  constructor
  · intro parsed
    rcases decimal_of_parseIPv4Part parsed with ⟨digits, rfl⟩
    refine ⟨?_, ?_⟩
    · rw [← digits]
      exact List.takeWhile_append_dropWhile.symm
    · intro byte head
      have stopped := List.head?_dropWhile_not isDigit text
      rw [head] at stopped
      simpa using stopped
  · rintro ⟨rfl, stops⟩
    have cut := takeWhile_append_of_head (isDigit_of_mem_decimal value.toNat) stops
    have parsed := parseIPv4Part_of_decimal cut.1
    rw [cut.2] at parsed
    exact parsed

theorem parseIPv4Next_eq_some_iff :
    parseIPv4Next text = some (value, rest) ↔
      text = bytes "." ++ (decimal value.toNat ++ rest) ∧
        ∀ byte ∈ rest.head?, isDigit byte = false := by
  cases text with
  | nil => simp [parseIPv4Next, bytes]
  | cons first text =>
    rw [parseIPv4Next]
    split
    · rename_i dotted
      rw [parseIPv4Part_eq_some_iff, dotted]
      simp [bytes]
    · rename_i other
      simp [bytes, other]

theorem parseIPv4_eq_some_iff {address : IPv4} :
    parseIPv4 text = some address ↔ text = dottedQuad address := by
  have stops : ∀ rest : Bytes, ∀ byte ∈ (bytes "." ++ rest).head?, isDigit byte = false := by
    rintro rest byte ⟨⟩
    rfl
  simp only [parseIPv4, Option.bind_eq_bind, Option.bind_eq_some_iff, Prod.exists,
    parseIPv4Part_eq_some_iff, parseIPv4Next_eq_some_iff]
  constructor
  · rintro ⟨a, _, ⟨rfl, _⟩, b, _, ⟨rfl, _⟩, c, _, ⟨rfl, _⟩, d, afterD, ⟨rfl, _⟩, parsed⟩
    split at parsed
    · rename_i ended
      cases parsed
      rw [ended, List.append_nil]
      rfl
    · cases parsed
  · rintro rfl
    refine ⟨address.get 0, _, ⟨rfl, stops _⟩, address.get 1, _, ⟨rfl, stops _⟩, address.get 2, _,
      ⟨rfl, stops _⟩, address.get 3, [], ⟨by rw [List.append_nil], nofun⟩, ?_⟩
    rw [if_pos rfl, Option.some.injEq]
    ext index within
    interval_cases index <;> rfl

/-! ### Groups -/

theorem isHexDigit_of_hexValue : ∀ byte : UInt8, ∀ digit ∈ hexValue byte,
    (bytes "0123456789abcdef")[digit]? = some byte ∨
      (bytes "0123456789ABCDEF")[digit]? = some byte := by
  decide +kernel

theorem hexValue_of_digit : ∀ digit < 16,
    hexValue ((bytes "0123456789abcdef").getD digit 0) = some digit ∧
      hexValue ((bytes "0123456789ABCDEF").getD digit 0) = some digit := by
  decide +kernel

theorem hexValue_eq_some_iff {byte : UInt8} {digit : ℕ} :
    hexValue byte = some digit ↔ IsHexDigit byte digit := by
  constructor
  · exact isHexDigit_of_hexValue byte digit
  · intro isDigit
    have values := hexValue_of_digit digit isDigit.lt
    rcases isDigit with found | found
    · have byteEq : (bytes "0123456789abcdef").getD digit 0 = byte := by
        rw [List.getD_eq_getElem?_getD, found]
        rfl
      rw [← byteEq]
      exact values.1
    · have byteEq : (bytes "0123456789ABCDEF").getD digit 0 = byte := by
        rw [List.getD_eq_getElem?_getD, found]
        rfl
      rw [← byteEq]
      exact values.2

theorem foldlM_hexValue_iff {value number : ℕ} :
    part.foldlM (fun value byte => (hexValue byte).map (value * 16 + ·)) value = some number ↔
      ∃ digits, List.Forall₂ IsHexDigit part digits ∧
        digits.foldl (fun value digit => value * 16 + digit) value = number := by
  induction part generalizing value with
  | nil => simp
  | cons byte rest ih =>
    rw [List.foldlM_cons]
    simp only [Option.bind_eq_bind, Option.bind_eq_some_iff, Option.map_eq_some_iff,
      hexValue_eq_some_iff, ih]
    constructor
    · rintro ⟨_, ⟨digit, isDigit, rfl⟩, digits, matched, rfl⟩
      exact ⟨digit :: digits, .cons isDigit matched, rfl⟩
    · rintro ⟨_, matched, numberEq⟩
      cases matched with
      | cons isDigit matched => exact ⟨_, ⟨_, isDigit, rfl⟩, _, matched, numberEq⟩

theorem parseGroup_eq_some_iff {value : ℕ} :
    parseGroup part = some value ↔ WritesGroup part value := by
  have folded : ∀ digits : List ℕ, digits.foldl (fun value digit => value * 16 + digit) 0 =
      Nat.ofDigits 16 digits.reverse := by
    intro digits
    rw [Nat.ofDigits_eq_foldr, List.foldr_reverse]
    congr 1
    funext value digit
    simp only [Nat.cast_id]
    omega
  rw [parseGroup]
  split
  · rename_i outside
    simp only [reduceCtorEq, false_iff]
    intro group
    rcases outside with empty | long
    · exact group.present empty
    · have := group.short
      omega
  · rename_i inside
    rw [not_or, Nat.not_lt] at inside
    simp only [foldlM_hexValue_iff, folded]
    exact ⟨fun digits => ⟨inside.1, inside.2, digits⟩, fun group => group.digits⟩

theorem dot_mem_dottedQuad (address : IPv4) : (('.' : Char) : UInt8) ∈ dottedQuad address :=
  List.mem_append_right _ (List.mem_append_left _ List.mem_cons_self)

theorem writesParts_nil_iff :
    WritesParts trailing [] groups ↔ groups = [] := by
  constructor
  · rintro ⟨⟩
    rfl
  · rintro rfl
    exact .nil

theorem writesParts_cons_iff {rest : List Bytes} :
    WritesParts trailing (part :: rest) groups ↔
      if part.contains (('.' : Char) : UInt8) then
        trailing = true ∧ rest = [] ∧ ∃ quad, part = dottedQuad quad ∧ groups = quadGroups quad
      else ∃ value more, WritesGroup part value ∧ WritesParts trailing rest more ∧
        groups = value :: more := by
  split
  · rename_i dotted
    rw [List.contains_iff_mem] at dotted
    constructor
    · intro writes
      cases writes with
      | quad admitted quad => exact ⟨admitted, rfl, quad, rfl, rfl⟩
      | cons group _ => exact absurd rfl (group.inPart _ dotted).2
    · rintro ⟨admitted, rfl, quad, rfl, rfl⟩
      exact .quad admitted quad
  · rename_i plain
    rw [List.contains_iff_mem] at plain
    constructor
    · intro writes
      cases writes with
      | quad _ quad => exact absurd (dot_mem_dottedQuad quad) plain
      | cons group rest => exact ⟨_, _, group, rest, rfl⟩
    · rintro ⟨value, more, group, rest, rfl⟩
      exact .cons group rest

theorem parseGroupParts_eq_some_iff {parts : List Bytes} {result : List ℕ}
    (fits : groups.length ≤ 8) :
    parseGroupParts trailing parts groups = some result ↔
      ∃ more, result = groups ++ more ∧ WritesParts trailing parts more ∧ result.length ≤ 8 := by
  induction parts generalizing groups with
  | nil =>
    simp only [parseGroupParts, Option.some.injEq, writesParts_nil_iff]
    constructor
    · rintro rfl
      exact ⟨[], (List.append_nil groups).symm, rfl, fits⟩
    · rintro ⟨_, rfl, rfl, _⟩
      exact (List.append_nil groups).symm
  | cons part rest ih =>
    simp only [writesParts_cons_iff]
    rw [parseGroupParts]
    split
    · split
      · rename_i refused
        simp only [reduceCtorEq, false_iff]
        rintro ⟨_, _, ⟨admitted, ended, _⟩, _⟩
        simp [admitted, ended] at refused
      · rename_i admitted
        rw [not_or, not_not] at admitted
        have admitted : trailing = true ∧ rest = [] := by simpa using admitted
        cases parsed : parseIPv4 part with
        | none =>
          simp only [reduceCtorEq, false_iff]
          rintro ⟨_, _, ⟨_, _, quad, written, _⟩, _⟩
          rw [parseIPv4_eq_some_iff.mpr written] at parsed
          cases parsed
        | some quad =>
          have only : ∀ more, (trailing = true ∧ rest = [] ∧ ∃ quad, part = dottedQuad quad ∧
              more = quadGroups quad) ↔ more = quadGroups quad := by
            intro more
            refine ⟨?_, fun same =>
              ⟨admitted.1, admitted.2, quad, parseIPv4_eq_some_iff.mp parsed, same⟩⟩
            rintro ⟨_, _, other, written, same⟩
            rw [parseIPv4_eq_some_iff.mpr written] at parsed
            cases parsed
            exact same
          have two : (groups ++ quadGroups quad).length = groups.length + 2 :=
            List.length_append
          simp only [only]
          split
          · rename_i full
            simp only [reduceCtorEq, false_iff]
            rintro ⟨_, rfl, rfl, short⟩
            omega
          · rename_i room
            constructor
            · rintro ⟨⟩
              exact ⟨quadGroups quad, rfl, rfl, two.trans_le (by omega)⟩
            · rintro ⟨_, rfl, rfl, _⟩
              rfl
    · cases parsed : parseGroup part with
      | none =>
        simp only [reduceCtorEq, false_iff]
        rintro ⟨_, _, ⟨value, _, group, _⟩, _⟩
        rw [parseGroup_eq_some_iff.mpr group] at parsed
        cases parsed
      | some value =>
        have group := parseGroup_eq_some_iff.mp parsed
        dsimp only
        split
        · rename_i full
          simp only [reduceCtorEq, false_iff]
          rintro ⟨_, rfl, ⟨_, more, _, _, rfl⟩, short⟩
          simp only [List.length_append, List.length_cons] at short
          omega
        · rename_i room
          rw [ih (by simpa using room)]
          constructor
          · rintro ⟨more, rfl, writes, short⟩
            exact ⟨value :: more, by simp, ⟨value, more, group, writes, rfl⟩, short⟩
          · rintro ⟨_, rfl, ⟨other, more, otherGroup, writes, rfl⟩, short⟩
            rw [parseGroup_eq_some_iff.mpr otherGroup] at parsed
            cases parsed
            exact ⟨more, by simp, writes, short⟩

theorem parseGroups_eq_some_iff :
    parseGroups text trailing = some groups ↔
      ∃ parts, text = joined parts ∧ WritesParts trailing parts groups ∧ groups.length ≤ 8 := by
  rw [parseGroups]
  split
  · rename_i empty
    subst empty
    constructor
    · rintro ⟨⟩
      exact ⟨[], rfl, .nil, Nat.zero_le 8⟩
    · rintro ⟨parts, shape, writes, _⟩
      have none : parts = [] := by
        by_contra present
        exact writes.joined_ne_nil present shape.symm
      subst none
      rw [writesParts_nil_iff.mp writes]
  · rename_i present
    have none : ([] : List ℕ).length ≤ 8 := Nat.zero_le 8
    rw [parseGroupParts_eq_some_iff none]
    have whole : joined (text.splitOn colon) = text := List.intercalate_splitOn _
    constructor
    · rintro ⟨_, rfl, writes, short⟩
      exact ⟨_, whole.symm, writes, short⟩
    · rintro ⟨parts, rfl, writes, short⟩
      have some : parts ≠ [] := by
        rintro rfl
        exact present rfl
      have split : (joined parts).splitOn colon = parts :=
        List.splitOn_intercalate _ writes.colon_notMem some
      rw [split]
      exact ⟨groups, rfl, writes, short⟩

/-! ### Addresses -/

theorem length_groupsOf (address : IPv6) : (groupsOf address).length = 8 := List.length_ofFn

theorem getElem_bytesOfGroups (groups : List ℕ) {index : ℕ} (within : index < 16) :
    (bytesOfGroups groups)[index] = UInt8.ofNat
      (if index % 2 = 0 then groups.getD (index / 2) 0 / 256 else groups.getD (index / 2) 0 % 256) :=
  Vector.getElem_ofFn within

theorem groupsOf_bytesOfGroups (eight : groups.length = 8)
    (small : ∀ group ∈ groups, group < 65536) : groupsOf (bytesOfGroups groups) = groups := by
  refine List.ext_getElem ((length_groupsOf _).trans eight.symm) fun index _ within => ?_
  have bound := small _ (List.getElem_mem within)
  have even : 2 * index / 2 = index ∧ 2 * index % 2 = 0 := by omega
  have odd : (2 * index + 1) / 2 = index ∧ ¬(2 * index + 1) % 2 = 0 := by omega
  have high : (UInt8.ofNat (groups[index] / 256)).toNat = groups[index] / 256 :=
    UInt8.toNat_ofNat_of_lt (Nat.div_lt_of_lt_mul bound)
  have low : (UInt8.ofNat (groups[index] % 256)).toNat = groups[index] % 256 :=
    UInt8.toNat_ofNat_of_lt (Nat.mod_lt _ (by decide))
  simp only [groupsOf, List.getElem_ofFn]
  rw [getElem_bytesOfGroups, getElem_bytesOfGroups, if_pos even.2, if_neg odd.2, even.1, odd.1,
    List.getD_eq_getElem _ _ within, high, low]
  exact Nat.div_add_mod' _ _

theorem bytesOfGroups_groupsOf (address : IPv6) : bytesOfGroups (groupsOf address) = address := by
  refine Vector.ext fun index within => ?_
  have half : index / 2 < (groupsOf address).length := by
    rw [length_groupsOf]
    omega
  have high := (address[2 * (index / 2)]).toNat_lt
  have low := (address[2 * (index / 2) + 1]).toNat_lt
  have group : (groupsOf address)[index / 2] =
      address[2 * (index / 2)].toNat * 256 + address[2 * (index / 2) + 1].toNat :=
    List.getElem_ofFn _
  rw [getElem_bytesOfGroups, List.getD_eq_getElem _ _ half, group]
  split
  · rename_i even
    have place : 2 * (index / 2) = index := by omega
    have first : (address[2 * (index / 2)].toNat * 256 + address[2 * (index / 2) + 1].toNat) / 256 =
        address[2 * (index / 2)].toNat := by omega
    rw [first, UInt8.ofNat_toNat]
    simp only [place]
  · rename_i odd
    have place : 2 * (index / 2) + 1 = index := by omega
    have second : (address[2 * (index / 2)].toNat * 256 + address[2 * (index / 2) + 1].toNat) % 256 =
        address[2 * (index / 2) + 1].toNat := by omega
    rw [second, UInt8.ofNat_toNat]
    simp only [place]

theorem parseIPv6_eq_some_iff {address : IPv6} :
    parseIPv6 text = some address ↔ WritesAddress address text := by
  constructor
  · intro parsed
    rw [parseIPv6] at parsed
    split at parsed
    · split at parsed
      · rename_i groups read
        split at parsed
        · rename_i eight
          cases parsed
          rcases parseGroups_eq_some_iff.mp read with ⟨parts, rfl, writes, _⟩
          refine .full ?_
          rw [groupsOf_bytesOfGroups eight writes.lt]
          exact writes
        · cases parsed
      · cases parsed
    · rename_i gap found
      split at parsed
      · cases parsed
      · split at parsed
        · rename_i head tail readHead readTail
          split at parsed
          · cases parsed
          · rename_i room
            cases parsed
            rcases parseGroups_eq_some_iff.mp readHead with ⟨front, frontEq, writesHead, _⟩
            rcases parseGroups_eq_some_iff.mp readTail with ⟨back, backEq, writesTail, _⟩
            have shape := eq_append_of_find found
            have two : (bytes "::").length = 2 := rfl
            rw [two, frontEq, backEq] at shape
            rw [shape]
            refine .compressed writesHead writesTail (by omega :
              0 < 8 - head.length - tail.length) (groupsOf_bytesOfGroups ?_ ?_)
            · simp only [List.length_append, List.length_replicate]
              omega
            · simp only [List.mem_append, List.mem_replicate]
              rintro group ((inHead | ⟨_, rfl⟩) | inTail)
              · exact writesHead.lt group inHead
              · decide
              · exact writesTail.lt group inTail
        · cases parsed
  · intro writes
    rw [parseIPv6]
    cases writes with
    | full writes =>
      have absent := writes.find_joined []
      rw [List.append_nil] at absent
      have read := parseGroups_eq_some_iff.mpr
        ⟨_, rfl, writes, (length_groupsOf address).le⟩
      rw [absent, read]
      change (if (groupsOf address).length = 8 then _ else _) = _
      rw [if_pos (length_groupsOf address), bytesOfGroups_groupsOf]
    | @compressed front back head tail zeros writesHead writesTail omitted whole =>
      have counted : head.length + zeros + tail.length = 8 := by
        rw [← length_groupsOf address, whole, List.length_append, List.length_append,
          List.length_replicate]
      have found : find (bytes "::") (joined front ++ bytes "::" ++ joined back) =
          some (joined front).length := by
        have here : find (bytes "::") (bytes "::" ++ joined back) = some 0 := by
          simp [bytes, find, List.isPrefixOf]
        rw [List.append_assoc, writesHead.find_joined, here]
        simp
      have before : (joined front ++ bytes "::" ++ joined back).take (joined front).length =
          joined front := by
        rw [List.append_assoc, List.take_left]
      have behind : ∀ count, (joined front ++ bytes "::" ++ joined back).drop
          ((joined front).length + count) = (bytes "::" ++ joined back).drop count := by
        intro count
        rw [List.append_assoc, ← List.drop_drop, List.drop_left]
      have once : find (bytes "::") ((bytes "::" ++ joined back).drop 1) = none := by
        have absent := writesTail.find_joined []
        rw [List.append_nil] at absent
        change find (bytes "::") (colon :: joined back) = none
        rw [find_colon writesTail.head_joined, absent]
        rfl
      have readHead := parseGroups_eq_some_iff.mpr
        ⟨front, rfl, writesHead, (by omega : head.length ≤ 8)⟩
      have readTail := parseGroups_eq_some_iff.mpr
        ⟨back, rfl, writesTail, (by omega : tail.length ≤ 8)⟩
      rw [found]
      dsimp only
      rw [behind, behind, once, before]
      have count : 8 - head.length - tail.length = zeros := by omega
      have rest : (bytes "::" ++ joined back).drop 2 = joined back := rfl
      rw [rest, readHead, readTail, if_neg (by simp)]
      dsimp only
      rw [if_neg (by omega), count, ← whole, bytesOfGroups_groupsOf]

/-! ### Hosts -/

/-- A host that is an address, with the class of that address. -/
inductive IsAddressLiteral : Bytes → AddressClass → Prop where
  | bracketed {address : IPv6} {text zone : Bytes} (writes : WritesAddress address text)
      (zoned : zone = [] ∨ zone.head? = some (('%' : Char) : UInt8)) :
      IsAddressLiteral (bytes "[" ++ (text ++ zone) ++ bytes "]") (classifyIPv6 address)
  | quad (address : IPv4) : IsAddressLiteral (dottedQuad address) (classifyIPv4 address)
  | qualified (address : IPv4) :
      IsAddressLiteral (dottedQuad address ++ bytes ".") (classifyIPv4 address)

theorem classifyHostLiteral_bracketed (inner : Bytes) :
    classifyHostLiteral (bytes "[" ++ inner ++ bytes "]") =
      (parseIPv6 (inner.takeWhile fun byte => byte != '%')).map classifyIPv6 := by
  have opened : (bytes "[" ++ inner ++ bytes "]").head? = some leftBracket := rfl
  have closed : (bytes "[" ++ inner ++ bytes "]").getLast? = some rightBracket :=
    List.getLast?_concat
  have long : ¬(bytes "[" ++ inner ++ bytes "]").length < 2 := by
    simp [bytes]
  have inside : (bytes "[" ++ inner ++ bytes "]").tail.dropLast = inner := by
    change (inner ++ bytes "]").dropLast = inner
    exact List.dropLast_concat
  rw [classifyHostLiteral, if_pos opened, if_neg (not_or.mpr ⟨long, not_not.mpr closed⟩), inside]

theorem exists_of_bracketed {host : Bytes} (opened : host.head? = some leftBracket)
    (long : ¬host.length < 2) (closed : host.getLast? = some rightBracket) :
    ∃ inner, host = bytes "[" ++ inner ++ bytes "]" := by
  rcases List.head?_eq_some_iff.mp opened with ⟨rest, rfl⟩
  cases rest using List.reverseRecOn with
  | nil => exact absurd (by decide) long
  | append_singleton inner last =>
    rw [← List.cons_append, List.getLast?_concat] at closed
    cases closed
    exact ⟨inner, rfl⟩

theorem dottedQuad_ends (address : IPv4) :
    (∀ byte ∈ (dottedQuad address).head?, isDigit byte = true) ∧
      ∀ byte ∈ (dottedQuad address).getLast?, isDigit byte = true := by
  have number : ∀ value, ∃ first last, (decimal value).head? = some first ∧
      (decimal value).getLast? = some last ∧ isDigit first = true ∧ isDigit last = true := by
    intro value
    have present := decimal_ne_nil value
    exact ⟨_, _, List.head?_eq_some_head present, List.getLast?_eq_some_getLast present,
      isDigit_of_mem_decimal value _ (List.head_mem present),
      isDigit_of_mem_decimal value _ (List.getLast_mem present)⟩
  refine ⟨?_, ?_⟩
  · rcases number (address.get 0).toNat with ⟨first, _, head, _, digits, _⟩
    rw [dottedQuad, List.head?_append, head]
    rintro byte ⟨⟩
    exact digits
  · rcases number (address.get 3).toNat with ⟨_, last, _, foot, _, digits⟩
    simp only [dottedQuad, List.getLast?_append, foot, Option.some_or]
    rintro byte ⟨⟩
    exact digits

theorem classifyHostLiteral_unbracketed {host : Bytes}
    (unopened : host.head? ≠ some leftBracket) :
    classifyHostLiteral host =
      (parseIPv4 (if host.getLast? = some (('.' : Char) : UInt8) then host.dropLast
        else host)).map classifyIPv4 := by
  rw [classifyHostLiteral, if_neg unopened]

/-- The hosts that are classified are the texts of addresses, by the address. -/
theorem classifyHostLiteral_eq_some_iff {host : Bytes} {addressClass : AddressClass} :
    classifyHostLiteral host = some addressClass ↔ IsAddressLiteral host addressClass := by
  constructor
  · intro classified
    by_cases opened : host.head? = some leftBracket
    · have bracketed := classified
      rw [classifyHostLiteral, if_pos opened] at bracketed
      split at bracketed
      · cases bracketed
      · rename_i closed
        rw [not_or, not_not] at closed
        rcases exists_of_bracketed opened closed.1 closed.2 with ⟨inner, rfl⟩
        rw [classifyHostLiteral_bracketed, Option.map_eq_some_iff] at classified
        rcases classified with ⟨address, parsed, rfl⟩
        have whole : (inner.takeWhile fun (byte : UInt8) => byte != '%') ++
            (inner.dropWhile fun (byte : UInt8) => byte != '%') = inner :=
          List.takeWhile_append_dropWhile
        rw [← whole]
        refine .bracketed (parseIPv6_eq_some_iff.mp parsed) ?_
        cases zone : inner.dropWhile fun (byte : UInt8) => byte != '%' with
        | nil => exact Or.inl rfl
        | cons first rest =>
          have stopped := List.head?_dropWhile_not (fun byte : UInt8 => byte != '%') inner
          rw [zone] at stopped
          right
          simpa using stopped
    · rw [classifyHostLiteral_unbracketed opened, Option.map_eq_some_iff] at classified
      rcases classified with ⟨address, parsed, rfl⟩
      have written := parseIPv4_eq_some_iff.mp parsed
      split at written
      · rename_i dotted
        rcases List.getLast?_eq_some_iff.mp dotted with ⟨front, rfl⟩
        rw [List.dropLast_concat] at written
        rw [written]
        exact .qualified address
      · rw [written]
        exact .quad address
  · intro literal
    cases literal with
    | @bracketed address text zone writes zoned =>
      have cut := @takeWhile_append_of_head (fun byte => byte != '%') text zone
        (fun byte byteMem => bne_iff_ne.mpr fun same => writes.percent_notMem (same ▸ byteMem)) (by
          rcases zoned with rfl | zoned
          · exact nofun
          · rw [zoned]
            rintro byte ⟨⟩
            rfl)
      rw [classifyHostLiteral_bracketed, cut.1, parseIPv6_eq_some_iff.mpr writes]
      rfl
    | quad address =>
      rcases dottedQuad_ends address with ⟨head, foot⟩
      have unopened : (dottedQuad address).head? ≠ some leftBracket := by
        intro opened
        cases head _ opened
      have undotted : (dottedQuad address).getLast? ≠ some (('.' : Char) : UInt8) := by
        intro dotted
        cases foot _ dotted
      rw [classifyHostLiteral_unbracketed unopened, if_neg undotted,
        parseIPv4_eq_some_iff.mpr rfl]
      rfl
    | qualified address =>
      have unopened : (dottedQuad address ++ bytes ".").head? ≠ some leftBracket := by
        intro opened
        have present : dottedQuad address ≠ [] := by simp [dottedQuad, decimal_ne_nil]
        rw [List.head?_append_of_ne_nil _ present] at opened
        cases (dottedQuad_ends address).1 _ opened
      have dotted : (dottedQuad address ++ bytes ".").getLast? = some (('.' : Char) : UInt8) :=
        List.getLast?_concat
      have shortened : (dottedQuad address ++ bytes ".").dropLast = dottedQuad address :=
        List.dropLast_concat
      rw [classifyHostLiteral_unbracketed unopened, if_pos dotted, shortened,
        parseIPv4_eq_some_iff.mpr rfl]
      rfl

/-! ### Embedded addresses -/

theorem eq_of_get (quad : IPv4) : #v[quad.get 0, quad.get 1, quad.get 2, quad.get 3] = quad := by
  ext index within
  interval_cases index <;> rfl

theorem classifyIPv6_mapped (quad : IPv4) : classifyIPv6 (mapped quad) = classifyIPv4 quad := by
  have embedded : trailingIPv4 (mapped quad) = quad := eq_of_get quad
  rw [classifyIPv6, embedded]
  rfl

theorem classifyIPv6_translated (quad : IPv4) :
    classifyIPv6 (translated quad) = classifyIPv4 quad := by
  have embedded : trailingIPv4 (translated quad) = quad := eq_of_get quad
  rw [classifyIPv6, embedded]
  rfl

theorem classifyIPv6_compatible {quad : IPv4} (specified : quad ≠ #v[0, 0, 0, 0])
    (other : quad ≠ #v[0, 0, 0, 1]) : classifyIPv6 (compatible quad) = classifyIPv4 quad := by
  have embedded : trailingIPv4 (compatible quad) = quad := eq_of_get quad
  have zeros : allZero (compatible quad) 0 12 = true := rfl
  rw [classifyIPv6, embedded, if_pos zeros, if_neg]
  rintro ⟨first, second, third, fourth⟩
  change quad.get 0 = 0 at first
  change quad.get 1 = 0 at second
  change quad.get 2 = 0 at third
  change quad.get 3 = 0 ∨ quad.get 3 = 1 at fourth
  have shape := eq_of_get quad
  rw [first, second, third] at shape
  rcases fourth with fourth | fourth
  · rw [fourth] at shape
    exact specified shape.symm
  · rw [fourth] at shape
    exact other shape.symm

/--
A host is classified exactly where it is a text of an address, by the address and not by
the text, and an address that carries an IPv4 address by that one.
-/
theorem address_literals_classified :
    (∀ host addressClass, classifyHostLiteral host = some addressClass ↔
      IsAddressLiteral host addressClass) ∧
    ∀ quad, classifyIPv6 (mapped quad) = classifyIPv4 quad ∧
      classifyIPv6 (translated quad) = classifyIPv4 quad ∧
      (quad ≠ #v[0, 0, 0, 0] → quad ≠ #v[0, 0, 0, 1] →
        classifyIPv6 (compatible quad) = classifyIPv4 quad) :=
  ⟨fun _ _ => classifyHostLiteral_eq_some_iff,
    fun quad => ⟨classifyIPv6_mapped quad, classifyIPv6_translated quad, classifyIPv6_compatible⟩⟩

/-- The metadata endpoint, mapped, in upper case and with a zone. -/
theorem address_literals_classified_mapped :
    IsAddressLiteral (bytes "[::FFFF:169.254.169.254%25eth0]") .metadata ∧
      classifyIPv6 (mapped #v[169, 254, 169, 254]) = .metadata := by
  refine ⟨(address_literals_classified.1 _ _).mp (by decide +kernel), ?_⟩
  rw [(address_literals_classified.2 _).1]
  decide +kernel

end UsdAsset.Http
