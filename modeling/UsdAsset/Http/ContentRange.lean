import UsdAsset.Http.Numerals

/-!
# The grammar of a content range

What is read from a `Content-Range` value is what the value says, by the numbers its
numerals stand for, and a value that says nothing consistent is refused.  The range of a
request that a server echoes is read back as it was asked for.
-/

namespace UsdAsset.Http

open ByteString

variable {text part value : Bytes} {range : ContentRange}

/-! ### What a value says -/

/-- What a range part and a length stand for. -/
inductive WritesRange : Bytes → Bytes → ContentRange → Prop where
  | unknownLength {a b : Bytes} {first last : ℕ} (readsFirst : IsDecimal a first)
      (readsLast : IsDecimal b last) (ordered : first ≤ last) (fits : last < 2 ^ 64) :
      WritesRange (a ++ bytes "-" ++ b) (bytes "*") { first, last }
  | ofLength {a b c : Bytes} {first last completeLength : ℕ} (readsFirst : IsDecimal a first)
      (readsLast : IsDecimal b last) (readsLength : IsDecimal c completeLength)
      (ordered : first ≤ last) (within : last < completeLength) (fits : completeLength < 2 ^ 64) :
      WritesRange (a ++ bytes "-" ++ b) c
        { first, last, hasCompleteLength := true, completeLength }
  | unsatisfied {c : Bytes} {completeLength : ℕ} (readsLength : IsDecimal c completeLength)
      (fits : completeLength < 2 ^ 64) :
      WritesRange (bytes "*") c
        { unsatisfied := true, hasCompleteLength := true, completeLength }

/-- A range of bytes, with blanks wherever they are allowed, and one after the unit at least. -/
def WritesContentRange (value : Bytes) (range : ContentRange) : Prop :=
  ∃ part length, WritesRange part length range ∧
    ∃ lead gap before after trail, IsBlank lead ∧ IsBlank gap ∧ gap ≠ [] ∧ IsBlank before ∧
      IsBlank after ∧ IsBlank trail ∧
      value = lead ++ (bytes "bytes" ++ (gap ++ (part ++ (before ++ (bytes "/" ++
        (after ++ (length ++ trail)))))))

theorem IsDecimal.isTrimmed {number : ℕ} (isDecimal : IsDecimal text number) :
    IsTrimmed text := by
  refine ⟨isDecimal.1, fun byte head => ?_, fun byte foot => ?_⟩
  · exact isSpace_of_isDigit (isDecimal.2.1 byte (List.mem_of_mem_head? head))
  · exact isSpace_of_isDigit (isDecimal.2.1 byte (List.mem_of_mem_getLast? foot))

theorem IsDecimal.notMem {number : ℕ} (isDecimal : IsDecimal text number) {byte : UInt8}
    (other : isDigit byte = false) : byte ∉ text := by
  intro byteMem
  rw [isDecimal.2.1 byte byteMem] at other
  cases other

theorem isTrimmed_star : IsTrimmed (bytes "*") := by
  refine ⟨by decide, ?_, ?_⟩ <;>
  · rintro byte ⟨⟩
    rfl

section WritesRange

variable {length : Bytes}

theorem isTrimmed_bounds {a b : Bytes} {first last : ℕ} (readsFirst : IsDecimal a first)
    (readsLast : IsDecimal b last) : IsTrimmed (a ++ bytes "-" ++ b) := by
  refine ⟨by simp [bytes], ?_, ?_⟩
  · rw [List.append_assoc, List.head?_append_of_ne_nil _ readsFirst.1]
    exact readsFirst.isTrimmed.head
  · rw [List.getLast?_append_of_ne_nil _ readsLast.1]
    exact readsLast.isTrimmed.foot

theorem WritesRange.isTrimmed (writes : WritesRange part length range) :
    IsTrimmed part ∧ IsTrimmed length := by
  cases writes with
  | unknownLength readsFirst readsLast => exact ⟨isTrimmed_bounds readsFirst readsLast, isTrimmed_star⟩
  | ofLength readsFirst readsLast readsLength =>
    exact ⟨isTrimmed_bounds readsFirst readsLast, readsLength.isTrimmed⟩
  | unsatisfied readsLength => exact ⟨isTrimmed_star, readsLength.isTrimmed⟩

theorem WritesRange.slash_notMem (writes : WritesRange part length range) : slash ∉ part := by
  have bounds : ∀ {a b : Bytes} {first last : ℕ}, IsDecimal a first → IsDecimal b last →
      slash ∉ a ++ bytes "-" ++ b := by
    intro a b first last readsFirst readsLast
    simp only [List.mem_append, not_or]
    exact ⟨⟨readsFirst.notMem rfl, by decide⟩, readsLast.notMem rfl⟩
  cases writes with
  | unknownLength readsFirst readsLast => exact bounds readsFirst readsLast
  | ofLength readsFirst readsLast => exact bounds readsFirst readsLast
  | unsatisfied => decide

end WritesRange

/-! ### Reading -/

def rangeOf (part length : Bytes) : Option ContentRange :=
  match parseCompleteLength length with
  | none => none
  | some range =>
      if part = bytes "*" then
        if range.hasCompleteLength then some { range with unsatisfied := true } else none
      else parseBounds part range

theorem parseCompleteLength_eq_some_iff {length : Bytes} :
    parseCompleteLength length = some range ↔
      (length = bytes "*" ∧ range = {}) ∨ ∃ completeLength, IsDecimal length completeLength ∧
        completeLength < 2 ^ 64 ∧ range = { hasCompleteLength := true, completeLength } := by
  rw [parseCompleteLength]
  split
  · rename_i star
    subst star
    have notDecimal : ∀ number, ¬IsDecimal (bytes "*") number :=
      fun number isDecimal => isDecimal.notMem (by decide : isDigit '*' = false) (by decide)
    simp [notDecimal, eq_comm]
  · rename_i other
    simp only [Option.map_eq_some_iff, parseUnsigned_eq_some_iff, other, false_and, false_or,
      and_assoc]
    refine exists_congr fun completeLength => and_congr_right fun _ => and_congr_right fun _ => ?_
    exact eq_comm

theorem parseBounds_eq_some_iff {result : ContentRange} :
    parseBounds part range = some result ↔
      ∃ a b first last, part = a ++ bytes "-" ++ b ∧ IsDecimal a first ∧ IsDecimal b last ∧
        first ≤ last ∧ last < 2 ^ 64 ∧
        (range.hasCompleteLength = true → last < range.completeLength) ∧
        result = { range with first, last } := by
  constructor
  · intro parsed
    rw [parseBounds] at parsed
    split at parsed
    · cases parsed
    · rename_i a b found
      split at parsed
      · rename_i first last firstRead lastRead
        split at parsed
        · cases parsed
        · rename_i ordered
          split at parsed
          · cases parsed
          · rename_i consistent
            cases parsed
            rcases parseUnsigned_eq_some_iff.mp firstRead with ⟨firstDecimal, _⟩
            rcases parseUnsigned_eq_some_iff.mp lastRead with ⟨lastDecimal, fits⟩
            refine ⟨a, b, first, last, ?_, firstDecimal, lastDecimal, Nat.le_of_not_lt ordered, fits,
              fun known => Nat.lt_of_not_le fun beyond => consistent ⟨known, beyond⟩, rfl⟩
            rw [(eq_append_of_splitFirst found).1, List.append_assoc]
            rfl
      · cases parsed
  · rintro ⟨a, b, first, last, rfl, firstDecimal, lastDecimal, ordered, fits, consistent, rfl⟩
    have found : splitFirst '-' (a ++ bytes "-" ++ b) = some (a, b) := by
      rw [List.append_assoc]
      exact splitFirst_append b (firstDecimal.notMem rfl)
    rw [parseBounds, found]
    dsimp only
    rw [parseUnsigned_eq_some_iff.mpr ⟨firstDecimal, by omega⟩,
      parseUnsigned_eq_some_iff.mpr ⟨lastDecimal, fits⟩]
    dsimp only
    rw [if_neg (by omega), if_neg]
    rintro ⟨known, beyond⟩
    have := consistent known
    omega

theorem rangeOf_eq_some_iff {length : Bytes} :
    rangeOf part length = some range ↔ WritesRange part length range := by
  constructor
  · intro made
    rw [rangeOf] at made
    split at made
    · cases made
    · rename_i stated read
      rcases parseCompleteLength_eq_some_iff.mp read with ⟨rfl, rfl⟩ |
        ⟨completeLength, isDecimal, fits, rfl⟩
      · split at made
        · cases made
        · rcases parseBounds_eq_some_iff.mp made with
            ⟨a, b, first, last, rfl, firstDecimal, lastDecimal, ordered, fits, _, rfl⟩
          exact .unknownLength firstDecimal lastDecimal ordered fits
      · split at made
        · rename_i star
          cases made
          rw [star]
          exact .unsatisfied isDecimal fits
        · rcases parseBounds_eq_some_iff.mp made with
            ⟨a, b, first, last, rfl, firstDecimal, lastDecimal, ordered, _, within, rfl⟩
          exact .ofLength firstDecimal lastDecimal isDecimal ordered (within rfl) fits
  · intro writes
    have bounded : ∀ {a b : Bytes}, a ++ bytes "-" ++ b ≠ bytes "*" := by
      intro a b star
      have dash : (('-' : Char) : UInt8) ∈ a ++ bytes "-" ++ b := by simp [bytes]
      rw [star] at dash
      exact absurd dash (by decide)
    cases writes with
    | unknownLength readsFirst readsLast ordered fits =>
      have read := parseCompleteLength_eq_some_iff.mpr (Or.inl ⟨rfl, rfl⟩)
      rw [rangeOf, read]
      dsimp only
      rw [if_neg bounded]
      exact parseBounds_eq_some_iff.mpr
        ⟨_, _, _, _, rfl, readsFirst, readsLast, ordered, fits, by simp, rfl⟩
    | ofLength readsFirst readsLast readsLength ordered within fits =>
      have read := parseCompleteLength_eq_some_iff.mpr (Or.inr ⟨_, readsLength, fits, rfl⟩)
      rw [rangeOf, read]
      dsimp only
      rw [if_neg bounded]
      exact parseBounds_eq_some_iff.mpr ⟨_, _, _, _, rfl, readsFirst, readsLast, ordered,
        within.trans fits, fun _ => within, rfl⟩
    | unsatisfied readsLength fits =>
      have read := parseCompleteLength_eq_some_iff.mpr (Or.inr ⟨_, readsLength, fits, rfl⟩)
      rw [rangeOf, read]
      rfl

theorem parseContentRange_unfold (value : Bytes) :
    parseContentRange value =
      if (trim value).length ≤ 5 then none
      else if (trim value).take 5 ≠ bytes "bytes" then none
      else if !isSpace ((trim value).getD 5 0) then none
      else
        match splitFirst '/' (trim ((trim value).drop 5)) with
        | none => none
        | some (before, after) => rangeOf (trim before) (trim after) := rfl

theorem getD_zero_eq_of_head? {rest : Bytes} (present : text ≠ []) :
    (text ++ rest).head? = some ((text ++ rest).getD 0 0) ∧ (text ++ rest).head? = text.head? := by
  cases text with
  | nil => exact absurd rfl present
  | cons first text => exact ⟨rfl, rfl⟩

theorem exists_of_behind_unit {behind x y : Bytes}
    (found : splitFirst '/' (trim behind) = some (x, y)) :
    ∃ gap before after trail, IsBlank gap ∧ IsBlank before ∧ IsBlank after ∧ IsBlank trail ∧
      behind = gap ++ (trim x ++ (before ++ (bytes "/" ++ (after ++ (trim y ++ trail))))) := by
  rcases exists_padding behind with ⟨gap, trail, gaps, trails, behindEq⟩
  rcases exists_padding x with ⟨lead, before, leads, befores, xEq⟩
  rcases exists_padding y with ⟨after, close, afters, closes, yEq⟩
  refine ⟨gap ++ lead, before, after, close ++ trail, List.forall_mem_append.mpr ⟨gaps, leads⟩,
    befores, afters, List.forall_mem_append.mpr ⟨closes, trails⟩, ?_⟩
  rw [(eq_append_of_splitFirst found).1] at behindEq
  calc behind = gap ++ (x ++ slash :: y) ++ trail := behindEq
    _ = gap ++ ((lead ++ trim x ++ before) ++ slash :: (after ++ trim y ++ close)) ++ trail := by
        rw [← xEq, ← yEq]
    _ = _ := by simp [bytes, slash]

theorem gap_ne_nil {behind gap rest : Bytes} (trimmed : IsTrimmed part)
    (behindEq : behind = gap ++ (part ++ rest)) (spaced : isSpace (behind.getD 0 0) = true) :
    gap ≠ [] := by
  rintro rfl
  rcases getD_zero_eq_of_head? trimmed.present with ⟨head, same⟩
  rw [List.nil_append] at behindEq
  rw [behindEq, trimmed.head _ (same.symm.trans head)] at spaced
  cases spaced

theorem writesContentRange_of_parse (parsed : parseContentRange value = some range) :
    WritesContentRange value range := by
  rw [parseContentRange_unfold] at parsed
  split at parsed
  · cases parsed
  · split at parsed
    · cases parsed
    · rename_i unit
      rw [not_not] at unit
      split at parsed
      · cases parsed
      · rename_i spaced
        split at parsed
        · cases parsed
        · rename_i x y found
          have writes := rangeOf_eq_some_iff.mp parsed
          rcases exists_of_behind_unit found with
            ⟨gap, before, after, trail, gaps, befores, afters, trails, behindEq⟩
          rcases exists_padding value with ⟨lead, close, leads, closes, valueEq⟩
          have halves : trim value = bytes "bytes" ++ (trim value).drop 5 := by
            rw [← unit, List.take_append_drop]
          have blank : isSpace (((trim value).drop 5).getD 0 0) = true := by
            rw [List.getD_eq_getElem?_getD, List.getElem?_drop, ← List.getD_eq_getElem?_getD]
            simpa using spaced
          refine ⟨trim x, trim y, writes, lead, gap, before, after, trail ++ close, leads, gaps,
            gap_ne_nil writes.isTrimmed.1 behindEq blank, befores, afters,
            List.forall_mem_append.mpr ⟨trails, closes⟩, ?_⟩
          rw [halves, behindEq] at valueEq
          rw [valueEq]
          simp only [List.append_assoc]

theorem isTrimmed_append {first last : Bytes} (front : IsTrimmed first) (middle : Bytes)
    (back : IsTrimmed last) : IsTrimmed (first ++ (middle ++ last)) := by
  refine ⟨by simp [front.present], ?_, ?_⟩
  · rw [List.head?_append_of_ne_nil _ front.present]
    exact front.head
  · rw [← List.append_assoc, List.getLast?_append_of_ne_nil _ back.present]
    exact back.foot

theorem parse_of_writesContentRange (writes : WritesContentRange value range) :
    parseContentRange value = some range := by
  rcases writes with ⟨part, length, writes, lead, gap, before, after, trail, leads, gaps, apart,
    befores, afters, trails, rfl⟩
  rcases writes.isTrimmed with ⟨partTrimmed, lengthTrimmed⟩
  have unitTrimmed : IsTrimmed (bytes "bytes") := by
    refine ⟨by decide, ?_, ?_⟩ <;>
    · rintro byte ⟨⟩
      rfl
  have nothing : IsBlank [] := nofun
  have whole : trim (lead ++ (bytes "bytes" ++ (gap ++ (part ++ (before ++ (bytes "/" ++
      (after ++ (length ++ trail)))))))) =
        bytes "bytes" ++ (gap ++ (part ++ (before ++ (bytes "/" ++ (after ++ length))))) := by
    have trimmed := isTrimmed_append unitTrimmed
      (gap ++ (part ++ (before ++ (bytes "/" ++ after)))) lengthTrimmed
    have padded := trimmed.trim_padded leads trails
    simp only [List.append_assoc] at padded ⊢
    exact padded
  have body : trim (gap ++ (part ++ (before ++ (bytes "/" ++ (after ++ length))))) =
      part ++ (before ++ (bytes "/" ++ (after ++ length))) := by
    have trimmed := isTrimmed_append partTrimmed (before ++ (bytes "/" ++ after)) lengthTrimmed
    have padded := trimmed.trim_padded gaps nothing
    simp only [List.append_assoc, List.append_nil] at padded ⊢
    exact padded
  have halves : splitFirst '/' (part ++ (before ++ (bytes "/" ++ (after ++ length)))) =
      some (part ++ before, after ++ length) := by
    have absent : slash ∉ part ++ before := by
      rw [List.mem_append, not_or]
      refine ⟨writes.slash_notMem, fun slashMem => ?_⟩
      cases befores _ slashMem
    rw [← List.append_assoc]
    exact splitFirst_append (after ++ length) absent
  have partEq : trim (part ++ before) = part := partTrimmed.trim_padded nothing befores
  have lengthEq : trim (after ++ length) = length := by
    have padded := lengthTrimmed.trim_padded afters nothing
    rwa [List.append_nil] at padded
  rcases List.exists_cons_of_ne_nil apart with ⟨blank, more, rfl⟩
  have spaced : isSpace blank = true := gaps blank List.mem_cons_self
  rw [parseContentRange_unfold, whole]
  generalize tail : part ++ (before ++ (bytes "/" ++ (after ++ length))) = rest at body halves ⊢
  have long : ¬(bytes "bytes" ++ (blank :: more ++ rest)).length ≤ 5 := by
    simp [bytes]
  have unit : ¬(bytes "bytes" ++ (blank :: more ++ rest)).take 5 ≠ bytes "bytes" := not_not.mpr rfl
  have separated : ¬(!isSpace ((bytes "bytes" ++ (blank :: more ++ rest)).getD 5 0)) = true := by
    change ¬(!isSpace blank) = true
    simp [spaced]
  have behind : (bytes "bytes" ++ (blank :: more ++ rest)).drop 5 = blank :: more ++ rest := rfl
  rw [if_neg long, if_neg unit, if_neg separated, behind, body, halves]
  dsimp only
  rw [partEq, lengthEq]
  exact rangeOf_eq_some_iff.mpr writes

theorem parseContentRange_eq_some_iff :
    parseContentRange value = some range ↔ WritesContentRange value range :=
  ⟨writesContentRange_of_parse, parse_of_writesContentRange⟩

/-! ### What is echoed -/

def requestedBounds (offset length : ℕ) : Bytes := (formatByteRange offset length).drop 6

theorem requestedBounds_eq (offset length : ℕ) :
    requestedBounds offset length =
      decimal offset ++ bytes "-" ++ decimal (offset + length - 1) := by
  rw [requestedBounds, formatByteRange, List.append_assoc, List.append_assoc, List.append_assoc]
  rfl

theorem length_of_bounds {length : ℕ} (bounds : range.last + 1 = range.first + length)
    (fits : range.last + 1 < 2 ^ 64) :
    range.length = length := by
  have sum : range.last + 2 ^ 64 - range.first + 1 = length + 2 ^ 64 := by omega
  rw [ContentRange.length, sum, Nat.add_mod_right, Nat.mod_eq_of_lt (by omega)]

theorem parseContentRange_echo {offset length complete : ℕ} {stated : Bytes} (present : 1 ≤ length)
    (within : offset + length ≤ complete) (fits : complete < 2 ^ 64)
    (states : stated = decimal complete ∨ stated = bytes "*") :
    ∃ range, parseContentRange (bytes "bytes " ++ requestedBounds offset length ++ bytes "/" ++
        stated) = some range ∧
      range.first = offset ∧ range.last + 1 = offset + length ∧ range.length = length := by
  have firstDecimal := isDecimal_decimal offset
  have lastDecimal := isDecimal_decimal (offset + length - 1)
  have writes : ∃ range, WritesRange (requestedBounds offset length) stated range ∧
      range.first = offset ∧ range.last = offset + length - 1 := by
    rw [requestedBounds_eq]
    rcases states with rfl | rfl
    · exact ⟨_, .ofLength firstDecimal lastDecimal (isDecimal_decimal complete) (by omega)
        (by omega) fits, rfl, rfl⟩
    · exact ⟨_, .unknownLength firstDecimal lastDecimal (by omega) (by omega), rfl, rfl⟩
  rcases writes with ⟨range, writes, firstEq, lastEq⟩
  have nothing : IsBlank [] := nofun
  have blank : IsBlank (bytes " ") := by
    intro byte byteMem
    rw [List.mem_singleton.mp byteMem]
    rfl
  refine ⟨range, parseContentRange_eq_some_iff.mpr ⟨_, _, writes, [], bytes " ", [], [], [], nothing,
    blank, by decide, nothing, nothing, nothing, ?_⟩, firstEq, by omega,
    length_of_bounds (by omega) (by omega)⟩
  simp [bytes]

/--
A content range is read exactly where a value says one, by the numbers it says, and the
range of a request that is echoed is read back without overflow.
-/
theorem contentRange_exact :
    (∀ value range, parseContentRange value = some range ↔ WritesContentRange value range) ∧
      ∀ offset length complete, 1 ≤ length → offset + length ≤ complete → complete < 2 ^ 64 →
        ∀ stated, stated = decimal complete ∨ stated = bytes "*" →
          ∃ range, parseContentRange (bytes "bytes " ++ requestedBounds offset length ++ bytes "/" ++
              stated) = some range ∧
            range.first = offset ∧ range.last + 1 = offset + length ∧ range.length = length :=
  ⟨fun _ _ => parseContentRange_eq_some_iff,
    fun _ _ _ present within fits _ states => parseContentRange_echo present within fits states⟩

/-- Leading zeros, blanks and the last offset there is. -/
theorem contentRange_exact_last :
    WritesContentRange (bytes "bytes  007-18446744073709551614 / 18446744073709551615 ")
        { first := 7, last := 18446744073709551614, hasCompleteLength := true
          completeLength := 18446744073709551615 } ∧
      ∃ range, parseContentRange (bytes "bytes " ++ requestedBounds 7 18446744073709551608 ++
          bytes "/" ++ bytes "*") = some range ∧
        range.first = 7 ∧ range.last + 1 = 7 + 18446744073709551608 ∧
        range.length = 18446744073709551608 :=
  ⟨(contentRange_exact.1 _ _).mp (by decide +kernel),
    contentRange_exact.2 7 18446744073709551608 18446744073709551615 (by decide) (by decide)
      (by decide) _ (Or.inr rfl)⟩

end UsdAsset.Http
