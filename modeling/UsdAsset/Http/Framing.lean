import UsdAsset.Http.Transport

/-!
# Response framing

Models `Framing.h` and `Framing.cpp`: the headers a range backend is required to
read, and the rules for reading them.  Every value here is untrusted input from
a remote server, so a parser returns nothing for whatever it does not accept.
-/

namespace UsdAsset.Http

open ByteString

/-- One more digit of a 64-bit value, refusing overflow rather than wrapping. -/
def parseDigit (value : ℕ) (byte : UInt8) : Option ℕ :=
  if isDigit byte then
    let digitValue := (byte - '0').toNat
    if value > (maxU64 - digitValue) / 10 then none else some (value * 10 + digitValue)
  else none

def parseUnsigned (text : Bytes) : Option ℕ :=
  if text = [] then none else text.foldlM parseDigit 0

def comma : UInt8 := ','

def listContainsToken (list token : Bytes) : Bool :=
  (list.splitOn comma).any fun item => equalsIgnoringCase (trim item) token

/-- A parsed `Content-Range`; `last` is inclusive, as the header is. -/
structure ContentRange where
  unsatisfied : Bool := false
  first : ℕ := 0
  last : ℕ := 0
  hasCompleteLength : Bool := false
  completeLength : ℕ := 0
  deriving DecidableEq, Repr

/-- The length of the range in 64-bit arithmetic, which wraps for the whole address space. -/
def ContentRange.length (range : ContentRange) : ℕ :=
  (range.last + 2 ^ 64 - range.first + 1) % 2 ^ 64

/-- The complete length of a `Content-Range`: stated, or left open by `*`. -/
def parseCompleteLength (complete : Bytes) : Option ContentRange :=
  if complete = bytes "*" then some {}
  else (parseUnsigned complete).map fun length =>
    { hasCompleteLength := true, completeLength := length }

/-- The bounds `<first>-<last>`, checked against each other and the complete length. -/
def parseBounds (spec : Bytes) (range : ContentRange) : Option ContentRange :=
  match splitFirst '-' spec with
  | none => none
  | some (firstText, lastText) =>
      match parseUnsigned firstText, parseUnsigned lastText with
      | some first, some last =>
          if last < first then none
          else if range.hasCompleteLength ∧ last ≥ range.completeLength then none
          else some { range with first, last }
      | _, _ => none

/-- Parses a `Content-Range` value, the unsatisfied form `bytes */<length>` included. -/
def parseContentRange (value : Bytes) : Option ContentRange :=
  let value := trim value
  if value.length ≤ 5 then none
  else if value.take 5 ≠ bytes "bytes" then none
  else if !isSpace (value.getD 5 0) then none
  else
    match splitFirst '/' (trim (value.drop 5)) with
    | none => none
    | some (before, after) =>
        match parseCompleteLength (trim after) with
        | none => none
        | some range =>
            let spec := trim before
            if spec = bytes "*" then
              if range.hasCompleteLength then some { range with unsatisfied := true } else none
            else parseBounds spec range

def parseContentLength (value : Bytes) : Option ℕ := parseUnsigned (trim value)

/-- Whether the response advertises byte ranges; absence is no. -/
def advertisesByteRanges (headers : HeaderTable) : Bool :=
  match headers.find (bytes "Accept-Ranges") with
  | none => false
  | some value => listContainsToken value (bytes "bytes")

/-- The identity to bind to, and the `If-Range` value that may be sent for it. -/
structure CapturedValidator where
  validator : Validator := {}
  ifRangeValue : Bytes := []
  deriving DecidableEq, Repr

/-- Captures a date, which is weak as an identity and still legal in `If-Range`. -/
def captureLastModified (headers : HeaderTable) : CapturedValidator :=
  match headers.find (bytes "Last-Modified") with
  | none => {}
  | some modified =>
      let value := trim modified
      if value = [] then {}
      else
        { validator := { value, kind := .httpDate, strength := .weak }
          ifRangeValue := value }

/-- Captures identity: a strong `ETag`, then a weak one, then `Last-Modified`, then nothing. -/
def captureValidator (headers : HeaderTable) : CapturedValidator :=
  match headers.find (bytes "ETag") with
  | none => captureLastModified headers
  | some etag =>
      let value := trim etag
      if value = [] then captureLastModified headers
      else if (bytes "W/").isPrefixOf value then
        { validator := { value, kind := .entityTag, strength := .weak } }
      else
        { validator := { value, kind := .entityTag, strength := .strong }
          ifRangeValue := value }

/--
Whether a later response contradicts the identity captured at open.  Only
positive evidence counts: a response without the captured kind of validator
proves nothing.
-/
def contradictsCapturedValidator (headers : HeaderTable) (captured : Validator) : Bool :=
  match captured.kind with
  | .entityTag =>
      match headers.find (bytes "ETag") with
      | none => false
      | some etag => trim etag != captured.value
  | .httpDate =>
      match headers.find (bytes "Last-Modified") with
      | none => false
      | some modified => trim modified != captured.value
  | .none | .derived => false

def formatByteRange (offset length : ℕ) : Bytes :=
  bytes "bytes=" ++ decimal offset ++ bytes "-" ++ decimal (offset + length - 1)

/-! ### What a server writes is what is read -/

theorem parseDigit_digit (value last : ℕ) (isDigit : last < 10)
    (fits : value * 10 + last ≤ maxU64) :
    parseDigit value (digit last) = some (value * 10 + last) := by
  simp only [parseDigit, isDigit_digit last isDigit, toNat_digit_sub_zero last isDigit, if_true]
  rw [if_neg (by omega)]

theorem parseUnsigned_decimal {number : ℕ} (fits : number ≤ maxU64) :
    parseUnsigned (decimal number) = some number := by
  rw [parseUnsigned, if_neg (decimal_ne_nil number)]
  exact foldlM_decimal parseDigit_digit fits

/-- The `Content-Range` a server writes for the bytes from `first` to `last` of `size`. -/
def contentRangeText (first last size : ℕ) : Bytes :=
  bytes "bytes " ++ (decimal first ++ bytes "-" ++ decimal last) ++ bytes "/" ++ decimal size

theorem trim_decimal_ends (first last : ℕ) (middle : Bytes) :
    trim (decimal first ++ middle ++ decimal last) = decimal first ++ middle ++ decimal last := by
  apply trim_of_ends
  · intro byte found
    rw [List.append_assoc, List.head?_append_of_ne_nil _ (decimal_ne_nil first)] at found
    exact isSpace_of_isDigit (isDigit_of_mem_decimal first byte (List.mem_of_mem_head? found))
  · intro byte found
    rw [List.getLast?_append_of_ne_nil _ (decimal_ne_nil last)] at found
    exact isSpace_of_isDigit (isDigit_of_mem_decimal last byte (List.mem_of_mem_getLast? found))

theorem trim_decimal (number : ℕ) : trim (decimal number) = decimal number := by
  apply trim_of_ends
  · intro byte found
    exact isSpace_of_isDigit (isDigit_of_mem_decimal number byte (List.mem_of_mem_head? found))
  · intro byte found
    exact isSpace_of_isDigit (isDigit_of_mem_decimal number byte (List.mem_of_mem_getLast? found))

theorem parseCompleteLength_decimal {size : ℕ} (fits : size ≤ maxU64) :
    parseCompleteLength (decimal size) =
      some { hasCompleteLength := true, completeLength := size } := by
  have notStar : decimal size ≠ bytes "*" := by
    intro star
    have isStar := isDigit_of_mem_decimal size 42 (by rw [star]; decide)
    cases isStar
  simp only [parseCompleteLength, if_neg notStar, parseUnsigned_decimal fits]
  rfl

theorem parseBounds_decimal {first last size : ℕ} (ordered : first ≤ last) (within : last < size)
    (fits : size ≤ maxU64) :
    parseBounds (decimal first ++ bytes "-" ++ decimal last)
        { hasCompleteLength := true, completeLength := size } =
      some { first, last, hasCompleteLength := true, completeLength := size } := by
  have halves : splitFirst '-' (decimal first ++ bytes "-" ++ decimal last) =
      some (decimal first, decimal last) := by
    rw [List.append_assoc]
    exact splitFirst_append _ (not_mem_decimal first (by decide))
  simp only [parseBounds, halves, parseUnsigned_decimal (by omega : first ≤ maxU64),
    parseUnsigned_decimal (by omega : last ≤ maxU64)]
  rw [if_neg (by omega), if_neg (by simp; omega)]

theorem parseContentRange_contentRangeText {first last size : ℕ} (ordered : first ≤ last)
    (within : last < size) (fits : size ≤ maxU64) :
    parseContentRange (contentRangeText first last size) =
      some { first, last, hasCompleteLength := true, completeLength := size } := by
  have spaced : trim (contentRangeText first last size) = contentRangeText first last size := by
    apply trim_of_ends
    · intro byte found
      cases found
      decide
    · intro byte found
      rw [contentRangeText, List.getLast?_append_of_ne_nil _ (decimal_ne_nil size)] at found
      exact isSpace_of_isDigit (isDigit_of_mem_decimal size byte (List.mem_of_mem_getLast? found))
  have long : ¬(contentRangeText first last size).length ≤ 5 := by
    simp [contentRangeText, bytes]
  have unit : (contentRangeText first last size).take 5 = bytes "bytes" := rfl
  have blank : isSpace ((contentRangeText first last size).getD 5 0) = true := rfl
  have body : trim ((contentRangeText first last size).drop 5) =
      decimal first ++ bytes "-" ++ decimal last ++ bytes "/" ++ decimal size := by
    have dropped : (contentRangeText first last size).drop 5 = (' ' : UInt8) ::
        (decimal first ++ (bytes "-" ++ decimal last ++ bytes "/") ++ decimal size) := by
      simp only [contentRangeText, List.append_assoc]
      rfl
    rw [dropped, trim_cons_of_isSpace _ (by decide), trim_decimal_ends]
    simp only [List.append_assoc]
  have halves : splitFirst '/' (decimal first ++ bytes "-" ++ decimal last ++ bytes "/" ++
      decimal size) = some (decimal first ++ bytes "-" ++ decimal last, decimal size) := by
    rw [List.append_assoc _ (bytes "/")]
    apply splitFirst_append
    simp only [List.mem_append, not_or]
    exact ⟨⟨not_mem_decimal first (by decide), by decide⟩, not_mem_decimal last (by decide)⟩
  have notStar : decimal first ++ bytes "-" ++ decimal last ≠ bytes "*" := by
    intro star
    have lengths := congrArg List.length star
    have := List.length_pos_iff.mpr (decimal_ne_nil first)
    have := List.length_pos_iff.mpr (decimal_ne_nil last)
    simp [bytes] at lengths
    omega
  simp only [parseContentRange, spaced, if_neg long, unit, blank, body, halves, trim_decimal,
    parseCompleteLength_decimal fits, trim_decimal_ends]
  rw [if_neg (by simp), if_neg (by simp), if_neg notStar]
  exact parseBounds_decimal ordered within fits

end UsdAsset.Http
