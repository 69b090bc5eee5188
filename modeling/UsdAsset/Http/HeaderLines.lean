import Mathlib.Data.FinEnum
import Mathlib.Data.List.Nodup
import UsdAsset.Http.Interception

/-!
# The header lines of a request

Models the header list of `CurlTransport::Perform`: the lines a request is given, those an
interceptor added behind those of the backend.  What was admitted is read back from its
lines as it was, and replaces no line of the backend.  A value of blanks alone is admitted
too, and its line is one the client takes for the removal of a header.
-/

namespace UsdAsset.Http

open ByteString

def carriageReturn : UInt8 := '\r'

def lineFeed : UInt8 := '\n'

/-- A text that is handed on as a C string ends before its first NUL. -/
def cString (text : Bytes) : Bytes := text.takeWhile fun byte => byte != 0

def RequestHeader.line (header : RequestHeader) : Bytes :=
  cString (header.name ++ bytes ": " ++ header.value)

def ownLines (request : TransportRequest) : List Bytes :=
  (if request.range = [] then [] else [cString (bytes "Range: " ++ request.range)]) ++
    (if request.ifRange = [] then [] else [cString (bytes "If-Range: " ++ request.ifRange)]) ++
    [cString (bytes "Accept-Encoding: identity")]

/-- The lines of a request, the interceptor's after the backend's own. -/
def requestLines (request : TransportRequest) : List Bytes :=
  ownLines request ++ request.headers.map RequestHeader.line

/-! ### Reading lines -/

def onTheWire (lines : List Bytes) : Bytes :=
  lines.flatMap fun line => line ++ [carriageReturn, lineFeed]

/-- The lines between the line ends; the last one has none behind it. -/
def splitLines : Bytes → List Bytes
  | [] => [[]]
  | [byte] => [[byte]]
  | first :: second :: rest =>
      if first = carriageReturn ∧ second = lineFeed then [] :: splitLines rest
      else (splitLines (second :: rest)).modifyHead (first :: ·)

/-- The name and the value of a line, split at its first colon and the blank behind it. -/
def fieldOf (line : Bytes) : Option RequestHeader :=
  (splitFirst ':' line).map fun halves =>
    ⟨halves.1, if halves.2.head? = some ((' ' : Char) : UInt8) then halves.2.tail else halves.2⟩

/-- A line with nothing but blanks after its colon removes a header. -/
def removesHeader (line : Bytes) : Bool :=
  match splitFirst ':' line with
  | none => false
  | some (_, rest) => rest.all isSpace

theorem splitLines_cons {line : Bytes} (whole : carriageReturn ∉ line) (rest : Bytes) :
    splitLines (line ++ carriageReturn :: lineFeed :: rest) = line :: splitLines rest := by
  induction line with
  | nil => rw [List.nil_append, splitLines, if_pos ⟨rfl, rfl⟩]
  | cons byte line ih =>
    rw [List.mem_cons, not_or] at whole
    have other : ∀ second, ¬(byte = carriageReturn ∧ second = lineFeed) :=
      fun _ ended => whole.1 ended.1.symm
    have later := ih whole.2
    cases line with
    | nil =>
      rw [List.nil_append] at later
      rw [List.cons_append, List.nil_append, splitLines, if_neg (other _), later]
      rfl
    | cons second line =>
      rw [List.cons_append] at later
      rw [List.cons_append, List.cons_append, splitLines, if_neg (other _), later,
        List.modifyHead_cons]

theorem splitLines_onTheWire {lines : List Bytes} (whole : ∀ line ∈ lines, carriageReturn ∉ line) :
    splitLines (onTheWire lines) = lines ++ [[]] := by
  induction lines with
  | nil => rfl
  | cons line lines ih =>
    rcases List.forall_mem_cons.mp whole with ⟨first, others⟩
    rw [onTheWire, List.flatMap_cons, List.append_assoc]
    change splitLines (line ++ carriageReturn :: lineFeed :: onTheWire lines) = _
    rw [splitLines_cons first, ih others, List.cons_append]

/-! ### What is admitted -/

structure Admitted (headers : List RequestHeader) (seen : List Bytes) (total : ℕ) : Prop where
  interceptable : ∀ header ∈ headers, isInterceptableHeader header.name header.value = true
  distinct : (seen ++ headers.map fun header => header.name.map lowerAscii).Nodup
  bounded : total + (headers.map RequestHeader.wireBytes).sum ≤ maxInterceptedHeaderBytes

variable {headers : List RequestHeader}

theorem admitted_of_admitHeaders {uri : Uri} {seen : List Bytes}
    {total : ℕ} (distinct : seen.Nodup) (bounded : total ≤ maxInterceptedHeaderBytes)
    (accepted : admitHeaders uri headers seen total = .ok ()) : Admitted headers seen total := by
  induction headers generalizing seen total with
  | nil => exact ⟨nofun, by simpa using distinct, by simpa using bounded⟩
  | cons header rest ih =>
    simp only [admitHeaders] at accepted
    split at accepted
    · cases accepted
    · rename_i interceptable
      split at accepted
      · cases accepted
      · rename_i unseen
        split at accepted
        · cases accepted
        · rename_i small
          have fresh : (seen ++ [header.name.map lowerAscii]).Nodup := by
            refine List.nodup_append.mpr ⟨distinct, List.nodup_singleton _, ?_⟩
            rintro name nameMem _ otherMem rfl
            rw [List.mem_singleton.mp otherMem] at nameMem
            exact unseen (List.contains_iff_mem.mpr nameMem)
          have later := ih fresh (Nat.le_of_not_lt small) accepted
          refine ⟨List.forall_mem_cons.mpr ⟨by simpa using interceptable, later.interceptable⟩,
            ?_, ?_⟩
          · simpa using later.distinct
          · have bounded := later.bounded
            rw [List.map_cons, List.sum_cons]
            omega

theorem admitted_of_intercept {interceptor : RequestInterceptor} {time redirectHop attempt : ℕ}
    {method : Method} {uri : Uri}
    (accepted : intercept interceptor time method uri redirectHop attempt = .ok headers) :
    Admitted headers [] 0 := by
  rw [intercept] at accepted
  split at accepted
  · cases accepted
  · rename_i answered _
    cases judged : admitHeaders uri answered [] 0 with
    | error _ =>
      rw [judged] at accepted
      cases accepted
    | ok _ =>
      rw [judged] at accepted
      cases accepted
      exact admitted_of_admitHeaders List.nodup_nil (Nat.zero_le _) judged

theorem tokenChar_plain : ∀ byte : UInt8, isTokenChar byte = true →
    byte ≠ colon ∧ byte ≠ carriageReturn ∧ byte ≠ 0 := by
  decide +kernel

theorem fieldByte_plain : ∀ byte : UInt8,
    (!((byte < 0x20 && byte != '\t') || byte == 0x7f)) = true → byte ≠ carriageReturn ∧ byte ≠ 0 := by
  decide +kernel

section

variable {header : RequestHeader}

variable (interceptable : isInterceptableHeader header.name header.value = true)

include interceptable

theorem name_plain :
    ∀ byte ∈ header.name, byte ≠ colon ∧ byte ≠ carriageReturn ∧ byte ≠ 0 := by
  simp only [isInterceptableHeader, isToken, Bool.and_eq_true, List.all_eq_true] at interceptable
  exact fun byte byteMem => tokenChar_plain byte (interceptable.1.1.2 byte byteMem)

theorem value_plain : ∀ byte ∈ header.value, byte ≠ carriageReturn ∧ byte ≠ 0 := by
  simp only [isInterceptableHeader, isSafeFieldValue, Bool.and_eq_true, List.all_eq_true]
    at interceptable
  exact fun byte byteMem => fieldByte_plain byte (interceptable.2.2 byte byteMem)

theorem line_eq : header.line = header.name ++ bytes ": " ++ header.value := by
  refine List.takeWhile_eq_self_iff.mpr ?_
  simp only [List.mem_append]
  rintro byte ((inName | separator) | inValue)
  · exact bne_iff_ne.mpr (name_plain interceptable byte inName).2.2
  · revert separator
    revert byte
    decide +kernel
  · exact bne_iff_ne.mpr (value_plain interceptable byte inValue).2

theorem carriageReturn_notMem_line : carriageReturn ∉ header.line := by
  rw [line_eq interceptable]
  simp only [List.mem_append, not_or]
  refine ⟨⟨fun inName => ?_, by decide⟩, fun inValue => ?_⟩
  · exact (name_plain interceptable _ inName).2.1 rfl
  · exact (value_plain interceptable _ inValue).1 rfl

theorem splitFirst_line :
    splitFirst ':' header.line = some (header.name, ((' ' : Char) : UInt8) :: header.value) := by
  rw [line_eq interceptable, List.append_assoc]
  exact splitFirst_append _ fun inName => (name_plain interceptable _ inName).1 rfl

theorem fieldOf_line : fieldOf header.line = some header := by
  rw [fieldOf, splitFirst_line interceptable]
  rfl

theorem removesHeader_line : removesHeader header.line = header.value.all isSpace := by
  rw [removesHeader, splitFirst_line interceptable]
  rfl

end

theorem cString_append {front : Bytes} (whole : ∀ byte ∈ front, (byte != 0) = true) (rest : Bytes) :
    cString (front ++ rest) = front ++ cString rest :=
  List.takeWhile_append_of_pos whole

theorem ownNames_reserved : isReservedHeader (bytes "Range") = true ∧
    isReservedHeader (bytes "If-Range") = true ∧
    isReservedHeader (bytes "Accept-Encoding") = true := by
  decide +kernel

theorem reserved_of_mem_ownLines {request : TransportRequest} {line : Bytes}
    (own : line ∈ ownLines request) :
    ∃ field, fieldOf line = some field ∧ isReservedHeader field.name = true := by
  simp only [ownLines, List.mem_append, List.mem_ite_nil_left, List.mem_singleton] at own
  rcases own with (⟨_, rfl⟩ | ⟨_, rfl⟩) | rfl
  · rw [cString_append (by decide +kernel)]
    exact ⟨⟨bytes "Range", cString request.range⟩, rfl, ownNames_reserved.1⟩
  · rw [cString_append (by decide +kernel)]
    exact ⟨⟨bytes "If-Range", cString request.ifRange⟩, rfl, ownNames_reserved.2.1⟩
  · exact ⟨⟨bytes "Accept-Encoding", bytes "identity"⟩, by decide +kernel, ownNames_reserved.2.2⟩

/-- What an interceptor added cannot rewrite the request. -/
structure Harmless (headers : List RequestHeader) : Prop where
  distinct : (headers.map fun header => header.name.map lowerAscii).Nodup
  unreserved : ∀ header ∈ headers, isReservedHeader header.name = false
  unowned : ∀ request : TransportRequest, request.headers = headers →
    ∀ line ∈ requestLines request, line ∈ headers.map RequestHeader.line ∨
      ∃ field, fieldOf line = some field ∧
        ∀ header ∈ headers, equalsIgnoringCase field.name header.name = false
  bounded : (headers.map RequestHeader.wireBytes).sum ≤ 16 * 1024
  readBack : splitLines (onTheWire (headers.map RequestHeader.line)) =
    headers.map RequestHeader.line ++ [[]] ∧
      (headers.map RequestHeader.line).map fieldOf = headers.map some
  kept : ∀ line ∈ headers.map RequestHeader.line, removesHeader line = false

theorem Admitted.unreserved {seen : List Bytes} {total : ℕ}
    (admitted : Admitted headers seen total) :
    ∀ header ∈ headers, isReservedHeader header.name = false := by
  intro header headerMem
  have interceptable := admitted.interceptable header headerMem
  simp only [isInterceptableHeader, Bool.and_eq_true, Bool.not_eq_true'] at interceptable
  exact interceptable.1.2

theorem not_same_of_reserved {name other : Bytes} (reserved : isReservedHeader name = true)
    (unreserved : isReservedHeader other = false) : equalsIgnoringCase name other = false := by
  rw [equalsIgnoringCase, beq_eq_false_iff_ne]
  intro same
  rw [isReservedHeader, same] at reserved
  rw [isReservedHeader, reserved] at unreserved
  cases unreserved

/--
Headers that were admitted cannot rewrite the request exactly where none has a value of
blanks alone.
-/
theorem intercepted_headers_harmless_iff {interceptor : RequestInterceptor}
    {time redirectHop attempt : ℕ} {method : Method} {uri : Uri} {headers : List RequestHeader}
    (accepted : intercept interceptor time method uri redirectHop attempt = .ok headers) :
    Harmless headers ↔ ∀ header ∈ headers, header.value.all isSpace = false := by
  have admitted := admitted_of_intercept accepted
  have removal : (∀ line ∈ headers.map RequestHeader.line, removesHeader line = false) ↔
      ∀ header ∈ headers, header.value.all isSpace = false := by
    rw [List.forall_mem_map]
    refine forall₂_congr fun header headerMem => ?_
    rw [removesHeader_line (admitted.interceptable header headerMem)]
  refine ⟨fun harmless => removal.mp harmless.kept, fun kept => ?_⟩
  refine ⟨by simpa using admitted.distinct, admitted.unreserved, ?_,
    (Nat.zero_add _).symm.trans_le admitted.bounded, ⟨?_, ?_⟩, removal.mpr kept⟩
  · rintro request rfl line lineMem
    rcases List.mem_append.mp lineMem with own | added
    · rcases reserved_of_mem_ownLines own with ⟨field, found, reserved⟩
      exact Or.inr ⟨field, found, fun header headerMem =>
        not_same_of_reserved reserved (admitted.unreserved header headerMem)⟩
    · exact Or.inl added
  · refine splitLines_onTheWire ?_
    rw [List.forall_mem_map]
    exact fun header headerMem =>
      carriageReturn_notMem_line (admitted.interceptable header headerMem)
  · rw [List.map_map]
    exact List.map_congr_left fun header headerMem =>
      fieldOf_line (admitted.interceptable header headerMem)

/-- A credential is harmless. -/
theorem intercepted_headers_harmless_bearer :
    Harmless [⟨bytes "Authorization", bytes "Bearer a: b"⟩] := by
  have accepted : intercept (fun _ _ => some [⟨bytes "Authorization", bytes "Bearer a: b"⟩]) 0 .get
      { scheme := bytes "https", host := bytes "example.org", path := bytes "/a" } 0 0 =
        .ok [⟨bytes "Authorization", bytes "Bearer a: b"⟩] := by
    rfl
  refine (intercepted_headers_harmless_iff accepted).mpr ?_
  decide +kernel

/-- A blank is admitted as the value of a header that the client sends by itself. -/
theorem intercepted_blank_removes_header :
    intercept (fun _ _ => some [⟨bytes "Accept", bytes " "⟩]) 0 .get
        { scheme := bytes "https", host := bytes "example.org", path := bytes "/a" } 0 0 =
        .ok [⟨bytes "Accept", bytes " "⟩] ∧
      RequestHeader.line ⟨bytes "Accept", bytes " "⟩ = bytes "Accept:  " ∧
      removesHeader (bytes "Accept:  ") = true := by
  refine ⟨rfl, by decide +kernel, by decide +kernel⟩

end UsdAsset.Http
