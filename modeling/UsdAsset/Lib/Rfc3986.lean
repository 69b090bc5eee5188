import UsdAsset.Lib.ByteString

/-!
# References of RFC 3986

A reference splits into a scheme, an authority, a path and a query, per appendix B; its
fragment is not carried.  A target is made of a base and a reference by the strict
transform of section 5.2.2, with the merge of 5.2.3 and the removal of dot segments of
5.2.4, and it is written as section 5.3 says.

What an authority is made of is left open: the transform passes it on as a whole.
-/

namespace Rfc3986

open ByteString

/-- The parts of a reference that are defined; a path always is. -/
structure Parts (Authority : Type) where
  scheme : Option Bytes := none
  authority : Option Authority := none
  path : Bytes := []
  query : Option Bytes := none

/-! ### Appendix B -/

def withoutFragment (text : Bytes) : Bytes := text.takeWhile fun byte => byte != '#'

def inScheme (byte : UInt8) : Bool := byte != ':' && byte != '/' && byte != '?'

def inAuthority (byte : UInt8) : Bool := byte != '/' && byte != '?'

def splitScheme (text : Bytes) : Option Bytes × Bytes :=
  if text.takeWhile inScheme ≠ [] ∧ (text.dropWhile inScheme).head? = some ((':' : Char) : UInt8) then
    (some (text.takeWhile inScheme), (text.dropWhile inScheme).tail)
  else (none, text)

def splitAuthority (text : Bytes) : Option Bytes × Bytes :=
  if (bytes "//").isPrefixOf text then
    (some ((text.drop 2).takeWhile inAuthority), (text.drop 2).dropWhile inAuthority)
  else (none, text)

def splitQuery (text : Bytes) : Bytes × Option Bytes :=
  match splitFirst '?' text with
  | none => (text, none)
  | some (path, query) => (path, some query)

def split (text : Bytes) : Parts Bytes :=
  let (scheme, afterScheme) := splitScheme (withoutFragment text)
  let (authority, afterAuthority) := splitAuthority afterScheme
  let (path, query) := splitQuery afterAuthority
  { scheme, authority, path, query }

/-- The parts of a reference that is known to have no scheme: a colon belongs to its path. -/
def splitRelative (text : Bytes) : Parts Bytes :=
  let (authority, afterAuthority) := splitAuthority (withoutFragment text)
  let (path, query) := splitQuery afterAuthority
  { authority, path, query }

/-! ### Section 3.1 -/

def isLetter (byte : UInt8) : Bool := ('a' ≤ byte && byte ≤ 'z') || ('A' ≤ byte && byte ≤ 'Z')

def IsScheme (scheme : Bytes) : Prop :=
  ∃ first rest, scheme = first :: rest ∧ isLetter first = true ∧
    ∀ byte ∈ rest, (isLetter byte || isDigit byte || (bytes "+-.").contains byte) = true

def HasScheme (text : Bytes) : Prop := ∃ scheme rest, text = scheme ++ bytes ":" ++ rest ∧ IsScheme scheme

/-! ### Section 5.2 -/

/-- Removes the last segment of a path, and the separator before it if there is one. -/
def withoutLastSegment (path : Bytes) : Bytes :=
  match splitLast '/' path with
  | none => []
  | some (before, _) => before

/-- The first segment of a path, with the separator it may begin with. -/
def leadingSegment : Bytes → Bytes
  | [] => []
  | first :: rest =>
      if first = (('/' : Char) : UInt8) then first :: rest.takeWhile fun byte => byte != '/'
      else (first :: rest).takeWhile fun byte => byte != '/'

/-- Section 5.2.4, steps A to E, over an input and an output buffer. -/
def removeDots : ℕ → Bytes → Bytes → Bytes
  | 0, _, output => output
  | fuel + 1, input, output =>
      if input = [] then output
      else if (bytes "../").isPrefixOf input then removeDots fuel (input.drop 3) output
      else if (bytes "./").isPrefixOf input then removeDots fuel (input.drop 2) output
      else if (bytes "/./").isPrefixOf input then
        removeDots fuel (bytes "/" ++ input.drop 3) output
      else if input = bytes "/." then removeDots fuel (bytes "/") output
      else if (bytes "/../").isPrefixOf input then
        removeDots fuel (bytes "/" ++ input.drop 4) (withoutLastSegment output)
      else if input = bytes "/.." then removeDots fuel (bytes "/") (withoutLastSegment output)
      else if input = bytes "." ∨ input = bytes ".." then removeDots fuel [] output
      else
        removeDots fuel (input.drop (leadingSegment input).length)
          (output ++ leadingSegment input)

/-- Every step shortens the input, so its length bounds their number. -/
def removeDotSegments (path : Bytes) : Bytes := removeDots path.length path []

section Transform

variable {Authority : Type}

/-- Section 5.2.3. -/
def merge (base : Parts Authority) (path : Bytes) : Bytes :=
  if base.authority.isSome ∧ base.path = [] then bytes "/" ++ path
  else
    match splitLast '/' base.path with
    | none => path
    | some (before, _) => before ++ bytes "/" ++ path

/--
The path of a reference without scheme and authority, per section 5.2.2, before the
dot segments of it are removed.
-/
def targetPath (base reference : Parts Authority) : Bytes :=
  if reference.path = [] then base.path
  else if reference.path.head? = some (('/' : Char) : UInt8) then reference.path
  else merge base reference.path

/-- Section 5.2.2, strict. -/
def transform (base reference : Parts Authority) : Parts Authority :=
  if reference.scheme.isSome then
    { reference with path := removeDotSegments reference.path }
  else if reference.authority.isSome then
    { reference with scheme := base.scheme, path := removeDotSegments reference.path }
  else if reference.path = [] then
    { base with query := reference.query.or base.query }
  else if reference.path.head? = some (('/' : Char) : UInt8) then
    { base with path := removeDotSegments reference.path, query := reference.query }
  else
    { base with path := removeDotSegments (merge base reference.path), query := reference.query }

end Transform

/-! ### Section 5.3 -/

def recompose (parts : Parts Bytes) : Bytes :=
  (parts.scheme.elim [] fun scheme => scheme ++ bytes ":") ++
    (parts.authority.elim [] fun authority => bytes "//" ++ authority) ++
    parts.path ++ (parts.query.elim [] fun query => bytes "?" ++ query)

section Recompose

variable {scheme authority path : Bytes} {query : Option Bytes}

theorem splitScheme_append (named : scheme ≠ []) (plain : ∀ byte ∈ scheme, inScheme byte = true)
    (rest : Bytes) : splitScheme (scheme ++ bytes ":" ++ rest) = (some scheme, rest) := by
  have cut := @takeWhile_append_of_head inScheme scheme (bytes ":" ++ rest) plain (by
    rintro byte ⟨⟩
    rfl)
  rw [List.append_assoc, splitScheme, cut.1, cut.2, if_pos ⟨named, rfl⟩]
  rfl

theorem splitAuthority_append (plain : ∀ byte ∈ authority, inAuthority byte = true) {rest : Bytes}
    (stops : ∀ byte ∈ rest.head?, inAuthority byte = false) :
    splitAuthority (bytes "//" ++ authority ++ rest) = (some authority, rest) := by
  have cut := takeWhile_append_of_head plain stops
  rw [List.append_assoc, splitAuthority, if_pos (List.isPrefixOf_iff_prefix.mpr ⟨_, rfl⟩)]
  have rest_eq : (bytes "//" ++ (authority ++ rest)).drop 2 = authority ++ rest := rfl
  rw [rest_eq, cut.1, cut.2]

theorem splitQuery_append (plain : (('?' : Char) : UInt8) ∉ path) :
    splitQuery (path ++ query.elim [] fun query => bytes "?" ++ query) = (path, query) := by
  cases query with
  | none =>
    rw [splitQuery, Option.elim_none, List.append_nil, splitFirst_eq_none plain]
  | some query =>
    have found : splitFirst (('?' : Char) : UInt8) (path ++ (bytes "?" ++ query)) =
        some (path, query) := splitFirst_append query plain
    rw [splitQuery, Option.elim_some, found]

/-- What is written from a scheme, an authority, a rooted path and a query splits into them. -/
theorem split_recompose (named : scheme ≠ []) (schemePlain : ∀ byte ∈ scheme, inScheme byte = true)
    (authorityPlain : ∀ byte ∈ authority, inAuthority byte = true)
    (rooted : path.head? = some (('/' : Char) : UInt8)) (pathPlain : (('?' : Char) : UInt8) ∉ path)
    (whole : numberSign ∉ recompose ⟨some scheme, some authority, path, query⟩) :
    split (recompose ⟨some scheme, some authority, path, query⟩) =
      ⟨some scheme, some authority, path, query⟩ := by
  have kept : withoutFragment (recompose ⟨some scheme, some authority, path, query⟩) =
      recompose ⟨some scheme, some authority, path, query⟩ := by
    refine List.takeWhile_eq_self_iff.mpr fun byte byteMem => ?_
    rw [bne_iff_ne]
    rintro rfl
    exact whole byteMem
  have first : recompose ⟨some scheme, some authority, path, query⟩ =
      scheme ++ bytes ":" ++ (bytes "//" ++ authority ++
        (path ++ query.elim [] fun query => bytes "?" ++ query)) := by
    simp [recompose]
  have stops : ∀ byte ∈ (path ++ query.elim [] fun query => bytes "?" ++ query).head?,
      inAuthority byte = false := by
    intro byte head
    rw [List.head?_append, rooted] at head
    cases head
    rfl
  rw [split, kept, first]
  dsimp only
  rw [splitScheme_append named schemePlain, splitAuthority_append authorityPlain stops,
    splitQuery_append pathPlain]

end Recompose

theorem eq_append_of_splitScheme {text scheme rest : Bytes}
    (found : splitScheme text = (some scheme, rest)) :
    text = scheme ++ bytes ":" ++ rest ∧ scheme ≠ [] ∧ ∀ byte ∈ scheme, inScheme byte = true := by
  simp only [splitScheme] at found
  split at found
  · rename_i named
    cases found
    refine ⟨?_, named.1, fun byte => List.mem_takeWhile_imp⟩
    rcases List.head?_eq_some_iff.mp named.2 with ⟨rest, shape⟩
    have whole : text.takeWhile inScheme ++ text.dropWhile inScheme = text :=
      List.takeWhile_append_dropWhile
    rw [shape] at whole ⊢
    rw [List.append_assoc]
    exact whole.symm
  · cases found

theorem splitAuthority_append_rest (text : Bytes) :
    ((splitAuthority text).1.elim [] fun authority => bytes "//" ++ authority) ++
      (splitAuthority text).2 = text := by
  simp only [splitAuthority]
  split
  · rename_i slashes
    rcases List.isPrefixOf_iff_prefix.mp slashes with ⟨rest, rfl⟩
    rw [Option.elim_some, List.append_assoc, List.takeWhile_append_dropWhile]
    rfl
  · rfl

theorem splitQuery_append_rest (text : Bytes) :
    (splitQuery text).1 ++ ((splitQuery text).2.elim [] fun query => bytes "?" ++ query) = text := by
  simp only [splitQuery]
  split
  · exact List.append_nil text
  · rename_i found
    exact (eq_append_of_splitFirst found).1.symm

theorem splitScheme_append_rest (text : Bytes) :
    ((splitScheme text).1.elim [] fun scheme => scheme ++ bytes ":") ++ (splitScheme text).2 =
      text := by
  cases found : (splitScheme text).1 with
  | none =>
    simp only [splitScheme] at found ⊢
    split at found
    · cases found
    · rename_i unnamed
      rw [if_neg unnamed]
      rfl
  | some scheme => exact (eq_append_of_splitScheme (Prod.ext found rfl)).1.symm

theorem recompose_split (text : Bytes) : recompose (split text) = withoutFragment text := by
  have scheme := splitScheme_append_rest (withoutFragment text)
  have authority := splitAuthority_append_rest (splitScheme (withoutFragment text)).2
  have query := splitQuery_append_rest (splitAuthority (splitScheme (withoutFragment text)).2).2
  simp only [recompose, split, List.append_assoc]
  rw [query, authority, scheme]

theorem path_rooted_of_authority {text authority : Bytes}
    (found : (splitAuthority text).1 = some authority) :
    (splitQuery (splitAuthority text).2).1 = [] ∨
      (splitQuery (splitAuthority text).2).1.head? = some (('/' : Char) : UInt8) := by
  simp only [splitAuthority] at found ⊢
  split at found
  · rename_i slashes
    rw [if_pos slashes]
    cases rest : (text.drop 2).dropWhile inAuthority with
    | nil => exact Or.inl rfl
    | cons first after =>
      have stopped : inAuthority first = false := by
        have := List.head?_dropWhile_not inAuthority (text.drop 2)
        simpa [rest] using this
      by_cases question : first = (('?' : Char) : UInt8)
      · subst question
        exact Or.inl rfl
      · have slash : first = (('/' : Char) : UInt8) := by
          simpa [inAuthority, question] using stopped
        subst slash
        right
        simp only [splitQuery, splitFirst]
        split
        · rfl
        · rename_i path query cut
          rw [if_neg (by decide), Option.map_eq_some_iff] at cut
          rcases cut with ⟨halves, _, same⟩
          cases same
          rfl
  · cases found

/-! ### The bytes of the parts -/

theorem splitScheme_subset (text : Bytes) : (splitScheme text).2 ⊆ text := by
  simp only [splitScheme]
  split
  · exact ((List.tail_suffix _).trans (List.dropWhile_suffix inScheme)).subset
  · exact List.Subset.refl text

theorem splitAuthority_subset (text : Bytes) :
    (splitAuthority text).2 ⊆ text ∧ ∀ authority ∈ (splitAuthority text).1,
      authority ⊆ text ∧ ∀ byte ∈ authority, inAuthority byte = true := by
  simp only [splitAuthority]
  split
  · refine ⟨((List.dropWhile_suffix inAuthority).trans (List.drop_suffix 2 text)).subset, ?_⟩
    rintro authority ⟨⟩
    exact ⟨List.Subset.trans (List.takeWhile_prefix inAuthority).subset (List.drop_subset 2 text),
      fun byte => List.mem_takeWhile_imp⟩
  · exact ⟨List.Subset.refl text, nofun⟩

theorem splitQuery_subset (text : Bytes) :
    (splitQuery text).1 ⊆ text ∧ (('?' : Char) : UInt8) ∉ (splitQuery text).1 ∧
      ∀ query ∈ (splitQuery text).2, query ⊆ text := by
  simp only [splitQuery]
  split
  · rename_i absent
    exact ⟨List.Subset.refl text, notMem_of_splitFirst absent, nofun⟩
  · rename_i path query found
    rcases eq_append_of_splitFirst found with ⟨shape, absent⟩
    rw [shape]
    refine ⟨List.subset_append_left _ _, absent, ?_⟩
    rintro _ ⟨⟩
    exact List.Subset.trans (List.subset_cons_self _ _) (List.subset_append_right _ _)

theorem notMem_withoutFragment (text : Bytes) : numberSign ∉ withoutFragment text := by
  intro mem
  have kept := List.mem_takeWhile_imp mem
  simp at kept

theorem splitRelative_bytes (text : Bytes) :
    ∀ query ∈ (splitRelative text).query, numberSign ∉ query := by
  have second := splitAuthority_subset (withoutFragment text)
  have third := splitQuery_subset (splitAuthority (withoutFragment text)).2
  exact fun query found mem =>
    notMem_withoutFragment text (second.1 (third.2.2 query found mem))

theorem split_bytes (text : Bytes) :
    (∀ authority ∈ (split text).authority, ∀ byte ∈ authority,
      inAuthority byte = true ∧ byte ≠ numberSign) ∧
    (('?' : Char) : UInt8) ∉ (split text).path ∧ numberSign ∉ (split text).path ∧
    ∀ query ∈ (split text).query, numberSign ∉ query := by
  have whole := notMem_withoutFragment text
  have first := splitScheme_subset (withoutFragment text)
  have second := splitAuthority_subset (splitScheme (withoutFragment text)).2
  have third := splitQuery_subset (splitAuthority (splitScheme (withoutFragment text)).2).2
  refine ⟨?_, third.2.1, ?_, ?_⟩
  · intro authority found byte byteMem
    rcases second.2 authority found with ⟨inside, plain⟩
    refine ⟨plain byte byteMem, ?_⟩
    rintro rfl
    exact whole (first (inside byteMem))
  · exact fun mem => whole (first (second.1 (third.1 mem)))
  · exact fun query found mem => whole (first (second.1 (third.2.2 query found mem)))

end Rfc3986
