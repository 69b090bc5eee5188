import UsdAsset.Http.UriGrammar

/-!
# Redirect targets

What the backend makes of a `Location` is the target that the strict transform of RFC 3986
makes of it and of the URI before.
-/

namespace UsdAsset.Http

open ByteString Rfc3986

variable {uri base : Uri}

/-! ### Relative references -/

theorem Uri.WellFormed.path_ne_nil (wellFormed : uri.WellFormed) : uri.path ≠ [] := by
  intro empty
  have rooted := wellFormed.rooted
  rw [empty] at rooted
  cases rooted

theorem merge_parts (wellFormed : base.WellFormed) (path : Bytes) :
    merge base.parts path = directoryOf base.path ++ path := by
  have present : ¬(base.parts.authority.isSome ∧ base.parts.path = []) :=
    fun both => wellFormed.path_ne_nil both.2
  have same : base.parts.path = base.path := rfl
  rw [merge, if_neg present, directoryOf, same]
  cases splitLast (('/' : Char) : UInt8) base.path <;> rfl

theorem directoryOf_rooted {path : Bytes} (rooted : path.head? = some slash) (rest : Bytes) :
    (directoryOf path ++ rest).head? = some slash ∧ directoryOf path ⊆ path := by
  have present : splitLast (('/' : Char) : UInt8) path ≠ none := fun absent =>
    notMem_of_splitLast absent (List.mem_of_mem_head? rooted)
  rcases Option.ne_none_iff_exists'.mp present with ⟨⟨before, after⟩, found⟩
  rw [directoryOf, found]
  have shape := (eq_append_of_splitLast found).1
  rw [shape] at rooted ⊢
  refine ⟨?_, ?_⟩
  · cases before with
    | nil => rfl
    | cons first before => exact rooted
  · intro byte byteMem
    rcases List.mem_append.mp byteMem with inBefore | isSlash
    · exact List.mem_append_left _ inBefore
    · rw [List.mem_singleton.mp isSlash]
      exact List.mem_append_right _ List.mem_cons_self

/-- The path a relative reference leads to, before its dot segments are removed. -/
def joinedPath (base : Uri) (path : Bytes) : Bytes :=
  if path.head? = some slash then path else directoryOf base.path ++ path

section

variable (wellFormed : base.WellFormed)

include wellFormed

theorem joinedPath_rooted (path : Bytes) :
    (joinedPath base path).head? = some slash ∧ ∀ byte ∈ joinedPath base path,
      byte ∈ base.path ∨ byte ∈ path := by
  simp only [joinedPath]
  split
  · rename_i rooted
    exact ⟨rooted, fun byte => Or.inr⟩
  · rcases directoryOf_rooted wellFormed.rooted path with ⟨rooted, inside⟩
    refine ⟨rooted, fun byte byteMem => ?_⟩
    rcases List.mem_append.mp byteMem with inDirectory | inPath
    · exact Or.inl (inside inDirectory)
    · exact Or.inr inPath

theorem resolvePath_eq (path : Bytes) :
    resolvePath base path = removeDotSegments (joinedPath base path) := by
  have rooted := head?_removeDotSegments (joinedPath_rooted wellFormed path).1
  have joined : (if path.head? = some slash then removeDotSegments path
      else removeDotSegments (directoryOf base.path ++ path)) =
        removeDotSegments (joinedPath base path) := by
    rw [joinedPath]
    split <;> rfl
  rw [resolvePath, joined]
  exact if_pos rooted

theorem resolveRelative_eq {reference : Bytes} (present : reference ≠ []) :
    resolveRelative base reference =
      { base with
        path :=
          if (splitQuery reference).1 = [] then base.path
          else removeDotSegments (joinedPath base (splitQuery reference).1)
        query := (splitQuery reference).2.getD []
        hasQuery := (splitQuery reference).2.isSome } := by
  simp only [resolveRelative, resolvePath_eq wellFormed]
  split
  · rename_i asked
    rcases List.head?_eq_some_iff.mp asked with ⟨query, rfl⟩
    rfl
  · rename_i unasked
    split
    · rename_i absent
      rw [splitQuery, absent]
      dsimp only
      rw [if_neg present]
      rfl
    · rename_i path query found
      have named : path ≠ [] := by
        rintro rfl
        rw [(eq_append_of_splitFirst found).1] at unasked
        exact unasked rfl
      rw [splitQuery, found]
      dsimp only
      rw [if_neg named]
      rfl

theorem wellFormed_resolveRelative {reference : Bytes}
    (present : reference ≠ []) (whole : numberSign ∉ reference) :
    (resolveRelative base reference).WellFormed := by
  rcases splitQuery_subset reference with ⟨pathInside, noQuestion, queryInside⟩
  rcases joinedPath_rooted wellFormed (splitQuery reference).1 with ⟨rooted, from_⟩
  have plain : (('?' : Char) : UInt8) ∉ joinedPath base (splitQuery reference).1 ∧
      numberSign ∉ joinedPath base (splitQuery reference).1 := by
    refine ⟨fun mem => ?_, fun mem => ?_⟩
    · exact (from_ _ mem).elim wellFormed.path_plain.1 noQuestion
    · exact (from_ _ mem).elim wellFormed.path_plain.2 fun inPath => whole (pathInside inPath)
  have path : ∃ path, (resolveRelative base reference).path = path ∧ path.head? = some slash ∧
      ((('?' : Char) : UInt8) ∉ path ∧ numberSign ∉ path) ∧
      removeDotSegments path = path := by
    rw [resolveRelative_eq wellFormed present]
    dsimp only
    split
    · exact ⟨_, rfl, wellFormed.rooted, wellFormed.path_plain, wellFormed.settled⟩
    · exact ⟨_, rfl, settled_path rooted plain⟩
  rcases path with ⟨path, pathEq, pathRooted, pathPlain, settled⟩
  rw [← pathEq] at pathRooted pathPlain settled
  rw [resolveRelative_eq wellFormed present] at pathRooted pathPlain settled ⊢
  refine ⟨wellFormed.served, wellFormed.userinfo_plain, wellFormed.host_plain,
    wellFormed.host_lower, wellFormed.isHost, wellFormed.port_le, pathRooted, pathPlain, settled,
    ?_, ?_⟩
  · cases asked : (splitQuery reference).2 with
    | none => simp
    | some query =>
      simp only [Option.getD_some]
      exact fun mem => whole (queryInside query asked mem)
  · intro unasked
    cases asked : (splitQuery reference).2 with
    | none => simp
    | some query => simp [asked] at unasked

end

/-! ### References -/

/-- An absolute URI of a served scheme, with an authority the backend takes. -/
def IsServedUri (reference : Bytes) : Prop :=
  ∃ scheme authority parts, (Rfc3986.split reference).scheme = some scheme ∧
    IsServedScheme scheme ∧ (Rfc3986.split reference).authority = some authority ∧
    WritesAuthority authority parts

section References

variable {reference : Bytes}

theorem notMem_stripFragment (text : Bytes) : numberSign ∉ stripFragment text := by
  intro mem
  have kept := List.mem_takeWhile_imp mem
  simp at kept

theorem split_stripFragment (text : Bytes) :
    split (stripFragment text) = split text := by
  have same : withoutFragment (stripFragment text) = withoutFragment text :=
    stripFragment_idem text
  simp only [split, same]

theorem hasScheme_cons (byte : UInt8) (rest : Bytes) :
    hasScheme (byte :: rest) =
      (byte == colon || (!endsAuthority byte && hasScheme rest)) := by
  by_cases coloned : byte = colon
  · subst coloned
    have other : endsAuthority colon = false := rfl
    cases later : rest.findIdx? endsAuthority <;>
      simp [hasScheme, List.findIdx?_cons, other, later]
  · have notColon : (byte == colon) = false := beq_eq_false_iff_ne.mpr coloned
    cases ends : endsAuthority byte <;>
      cases colon : rest.findIdx? (fun byte => byte == colon) <;>
        cases later : rest.findIdx? endsAuthority <;>
          simp [hasScheme, List.findIdx?_cons, notColon, ends, colon, later]

theorem hasScheme_iff (whole : numberSign ∉ reference) :
    hasScheme reference = true ↔ ∃ before after, reference = before ++ bytes ":" ++ after ∧
      ∀ byte ∈ before, inScheme byte = true := by
  induction reference with
  | nil =>
    refine ⟨by rintro ⟨⟩, ?_⟩
    rintro ⟨before, after, shape, _⟩
    simp [bytes] at shape
  | cons byte rest ih =>
    rw [List.mem_cons, not_or] at whole
    have inside : inScheme byte = true ↔
        byte ≠ colon ∧ endsAuthority byte = false := by
      simp only [inScheme, endsAuthority, Bool.and_eq_true, bne_iff_ne,
        Bool.or_eq_false_iff, beq_eq_false_iff_ne, and_assoc]
      simp only [ne_eq, Ne.symm whole.1, not_false_eq_true, and_true]
    rw [hasScheme_cons]
    simp only [Bool.or_eq_true, beq_iff_eq, Bool.and_eq_true, Bool.not_eq_true', ih whole.2]
    constructor
    · rintro (rfl | ⟨plain, before, after, rfl, all⟩)
      · exact ⟨[], rest, rfl, by simp⟩
      · by_cases coloned : byte = colon
        · subst coloned
          exact ⟨[], _, rfl, by simp⟩
        · refine ⟨byte :: before, after, rfl, ?_⟩
          exact List.forall_mem_cons.mpr ⟨inside.mpr ⟨coloned, plain⟩, all⟩
    · rintro ⟨before, after, shape, all⟩
      cases before with
      | nil =>
        cases shape
        exact Or.inl rfl
      | cons first before =>
        cases shape
        rcases List.forall_mem_cons.mp all with ⟨first, later⟩
        exact Or.inr ⟨(inside.mp first).2, before, after, rfl, later⟩

theorem splitScheme_of_not_hasScheme (whole : numberSign ∉ reference)
    (relative : ¬hasScheme reference = true) :
    splitScheme reference = (none, reference) := by
  cases named : (splitScheme reference).1 with
  | none =>
    simp only [splitScheme] at named ⊢
    split at named
    · cases named
    · rename_i unnamed
      rw [if_neg unnamed]
  | some scheme =>
    rcases eq_append_of_splitScheme (Prod.ext named rfl) with ⟨shape, _, plain⟩
    exact absurd ((hasScheme_iff whole).mpr ⟨_, _, shape, plain⟩) relative

theorem splitAuthority_fst (text : Bytes) :
    (splitAuthority text).1.isSome = (bytes "//").isPrefixOf text := by
  simp only [splitAuthority]
  split
  · rename_i slashes
    rw [slashes]
    rfl
  · rename_i other
    rw [Bool.not_eq_true] at other
    rw [other]
    rfl

theorem ofParts_of_parseUri {text scheme : Bytes} {parts : Parts AuthorityParts}
    (parsed : parseUri text = .ok uri) (denotes : Denotes text parts)
    (named : parts.scheme = some scheme) (served : IsServedScheme scheme) :
    Uri.ofParts { parts with path := Rfc3986.removeDotSegments parts.path } = some uri := by
  have authorized : ∃ authority, parts.authority = some authority := by
    rcases parseUri_eq_ok_iff.mp parsed with ⟨⟨_, other, _, _⟩, _, otherDenotes, ⟨⟩, _, made⟩
    have first := denotes.authority
    have second := otherDenotes.authority
    generalize (split text).authority = found at first second
    cases second with
    | none => cases made
    | some _ =>
      cases found : parts.authority with
      | none =>
        rw [found] at first
        cases first
      | some authority => exact ⟨authority, rfl⟩
  rcases authorized with ⟨authority, found⟩
  have made : ∃ other,
      Uri.ofParts { parts with path := Rfc3986.removeDotSegments parts.path } = some other := by
    simp [Uri.ofParts, named, found]
  rcases made with ⟨other, made⟩
  have again := parseUri_eq_ok_iff.mpr ⟨parts, scheme, denotes, named, served, made⟩
  rw [parsed] at again
  cases again
  exact made

end References

section Redirects

variable {target : Uri} {reference : Bytes} {parts : Parts AuthorityParts}

theorem Uri.WellFormed.scheme_lower (wellFormed : uri.WellFormed) :
    uri.scheme.map lowerAscii = uri.scheme := by
  rcases wellFormed.served with same | same <;> rw [same] <;> rfl

theorem Uri.WellFormed.isServedScheme (wellFormed : uri.WellFormed) :
    IsServedScheme uri.scheme := by
  rw [IsServedScheme, wellFormed.scheme_lower]
  exact wellFormed.served

theorem split_networkPath (wellFormed : base.WellFormed) (whole : numberSign ∉ reference)
    (relative : ¬hasScheme reference = true) :
    split (base.scheme ++ bytes ":" ++ reference) =
      { split reference with scheme := some base.scheme } := by
  have served := wellFormed.isServedScheme
  have shape : stripFragment (base.scheme ++ bytes ":" ++ reference) =
      base.scheme ++ bytes ":" ++ reference := by
    refine stripFragment_eq_self ?_
    rw [List.mem_append, not_or]
    refine ⟨?_, whole⟩
    rcases wellFormed.served with same | same <;> rw [same] <;> decide
  have kept : withoutFragment reference = reference := stripFragment_eq_self whole
  rw [split_of_scheme served.inScheme.1 served.inScheme.2 shape]
  simp only [split, kept, splitScheme_of_not_hasScheme whole relative]

theorem ofParts_transform_relative (wellFormed : base.WellFormed) (present : reference ≠ [])
    (unschemed : parts.scheme = none) (unnamed : parts.authority = none)
    (path : parts.path = (splitQuery reference).1)
    (query : parts.query = (splitQuery reference).2) :
    Uri.ofParts (transform base.parts parts) = some (resolveRelative base reference) := by
  have host := wellFormed.host_lower
  have scheme := wellFormed.scheme_lower
  have orRoot_of_rooted : ∀ {path : Bytes}, path.head? = some slash → orRoot path = path := by
    intro path rooted
    rw [orRoot, if_neg]
    rintro rfl
    cases rooted
  rw [resolveRelative_eq wellFormed present, ← path, ← query]
  simp only [transform, unschemed, unnamed, Option.isSome_none, Bool.false_eq_true, if_false]
  split
  · rename_i empty
    have asked : ∃ asked, parts.query = some asked := by
      rw [query]
      cases found : (splitQuery reference).2 with
      | some asked => exact ⟨asked, rfl⟩
      | none =>
        refine absurd ?_ present
        rw [path] at empty
        simp only [splitQuery] at empty found
        split at empty
        · exact empty
        · rename_i cut
          rw [cut] at found
          cases found
    rcases asked with ⟨asked, askedEq⟩
    simp only [Uri.ofParts, Uri.parts, askedEq, host, scheme, orRoot_of_rooted wellFormed.rooted]
    rfl
  · have rooted := (joinedPath_rooted wellFormed parts.path).1
    have joined : removeDotSegments (joinedPath base parts.path) =
        orRoot (Rfc3986.removeDotSegments (joinedPath base parts.path)) := by
      rw [← removeDotSegments_eq_rfc rooted, orRoot_of_rooted (head?_removeDotSegments rooted)]
    rw [joined, joinedPath]
    split
    · rename_i absolute
      have absolute : parts.path.head? = some slash := absolute
      rw [if_pos absolute]
      simp only [Uri.ofParts, Uri.parts, host, scheme]
    · rename_i relative
      have relative : ¬parts.path.head? = some slash := relative
      rw [if_neg relative, merge_parts wellFormed]
      simp only [Uri.ofParts, Uri.parts, host, scheme]

theorem transform_absolute (parsed : parseUri (stripFragment reference) = .ok target) :
    (∃ parts, Denotes reference parts) ∧ ∀ parts, Denotes reference parts →
      Uri.ofParts (transform base.parts parts) = some target := by
  rcases parseUri_eq_ok_iff.mp parsed with ⟨found, scheme, denotes, named, served, _⟩
  have same : ∀ parts, Denotes reference parts ↔ Denotes (stripFragment reference) parts := by
    intro parts
    constructor <;> rintro ⟨first, second, third, fourth⟩
    · rw [← split_stripFragment] at first second third fourth
      exact ⟨first, second, third, fourth⟩
    · rw [split_stripFragment] at first second third fourth
      exact ⟨first, second, third, fourth⟩
  refine ⟨⟨found, (same found).mpr denotes⟩, fun parts other => ?_⟩
  have other := (same parts).mp other
  have partsNamed : parts.scheme = some scheme := by rw [other.scheme, ← denotes.scheme, named]
  rw [transform, if_pos (by rw [partsNamed]; rfl)]
  exact ofParts_of_parseUri parsed other partsNamed served

theorem transform_networkPath (wellFormed : base.WellFormed)
    (relative : ¬hasScheme (stripFragment reference) = true)
    (slashes : (bytes "//").isPrefixOf (stripFragment reference) = true)
    (parsed : parseUri (base.scheme ++ bytes ":" ++ stripFragment reference) = .ok target) :
    (∃ parts, Denotes reference parts) ∧ ∀ parts, Denotes reference parts →
      Uri.ofParts (transform base.parts parts) = some target := by
  have whole := notMem_stripFragment reference
  have parted := split_networkPath wellFormed whole relative
  have kept : withoutFragment reference = stripFragment reference := rfl
  have unnamed : (split reference).scheme = none := by
    simp only [split, kept, splitScheme_of_not_hasScheme whole relative]
  have authorized : (split reference).authority.isSome = true := by
    simp only [split, kept, splitScheme_of_not_hasScheme whole relative]
    rw [splitAuthority_fst, slashes]
  rw [split_stripFragment] at parted
  rcases parseUri_eq_ok_iff.mp parsed with ⟨found, scheme, denotes, named, served, _⟩
  refine ⟨⟨{ found with scheme := none }, ?_⟩, fun parts other => ?_⟩
  · rcases denotes with ⟨_, second, third, fourth⟩
    rw [parted] at second third fourth
    exact ⟨unnamed.symm, second, third, fourth⟩
  · have partsAuthorized : parts.authority.isSome = true := by
      have rel := other.authority
      generalize (split reference).authority = authority at rel authorized
      generalize parts.authority = own at rel ⊢
      cases rel with
      | none => cases authorized
      | some _ => rfl
    have moved : Denotes (base.scheme ++ bytes ":" ++ stripFragment reference)
        { parts with scheme := some base.scheme } := by
      constructor
      all_goals rw [parted]
      · exact other.authority
      · exact other.path
      · exact other.query
    rw [transform, if_neg (by rw [other.scheme, unnamed]; simp), if_pos partsAuthorized]
    exact ofParts_of_parseUri parsed moved rfl wellFormed.isServedScheme

theorem transform_relative (wellFormed : base.WellFormed) (present : stripFragment reference ≠ [])
    (relative : ¬hasScheme (stripFragment reference) = true)
    (unslashed : ¬(bytes "//").isPrefixOf (stripFragment reference) = true) :
    (∃ parts, Denotes reference parts) ∧ ∀ parts, Denotes reference parts →
      Uri.ofParts (transform base.parts parts) =
        some (resolveRelative base (stripFragment reference)) := by
  have whole := notMem_stripFragment reference
  have kept : withoutFragment reference = stripFragment reference := rfl
  have cut : splitAuthority (stripFragment reference) = (none, stripFragment reference) := by
    rw [splitAuthority, if_neg unslashed]
  have split : split reference =
      ⟨none, none, (splitQuery (stripFragment reference)).1,
        (splitQuery (stripFragment reference)).2⟩ := by
    simp only [split, kept, splitScheme_of_not_hasScheme whole relative, cut]
  refine ⟨⟨⟨none, none, _, _⟩, by rw [split], by rw [split]; exact .none, rfl, rfl⟩, ?_⟩
  rintro parts ⟨scheme, authority, path, query⟩
  rw [split] at scheme authority path query
  have unnamed : parts.authority = none := by
    cases found : parts.authority with
    | none => rfl
    | some other =>
      rw [found] at authority
      cases authority
  exact ofParts_transform_relative wellFormed present scheme unnamed path query

end Redirects

/--
A `Location` that is resolved leads where the strict transform of RFC 3986 leads, with
scheme and host in lower case and an empty path read as `/`.  It is refused only if it
names a scheme and is no URI the backend serves, or names an authority it does not take.
-/
theorem resolveReference_follows_rfc3986 {baseText reference : Bytes} {base : Uri}
    (parsed : parseUri baseText = .ok base) (present : stripFragment reference ≠ []) :
    (∀ target, resolveReference base reference = .ok target →
      (∃ parts, Denotes reference parts) ∧ ∀ parts, Denotes reference parts →
        Uri.ofParts (Rfc3986.transform base.parts parts) = some target) ∧
    ∀ error, resolveReference base reference = .error error →
      ((∃ before after, stripFragment reference = before ++ bytes ":" ++ after ∧
          (('/' : Char) : UInt8) ∉ before ∧ (('?' : Char) : UInt8) ∉ before) ∧
        ¬IsServedUri reference) ∨
      ((bytes "//").isPrefixOf (stripFragment reference) = true ∧
        ∀ authority ∈ (Rfc3986.split reference).authority, ∀ parts,
          ¬WritesAuthority authority parts) := by
  have wellFormed := wellFormed_of_parseUri parsed
  have whole := notMem_stripFragment reference
  refine ⟨?_, ?_⟩
  · intro target resolved
    simp only [resolveReference, if_neg present] at resolved
    split at resolved
    · exact transform_absolute resolved
    · rename_i relative
      split at resolved
      · rename_i slashes
        exact transform_networkPath wellFormed relative slashes resolved
      · rename_i unslashed
        cases resolved
        exact transform_relative wellFormed present relative unslashed
  · intro error failed
    simp only [resolveReference, if_neg present] at failed
    split at failed
    · rename_i named
      rcases (hasScheme_iff whole).mp named with ⟨before, after, shape, plain⟩
      refine Or.inl ⟨⟨before, after, shape, ?_, ?_⟩, ?_⟩
      · exact fun mem => by cases plain _ mem
      · exact fun mem => by cases plain _ mem
      · rintro ⟨scheme, authority, parts, schemeEq, served, authorityEq, writes⟩
        have taken : ∃ uri, parseUri (stripFragment reference) = .ok uri := by
          refine ⟨_, parseUri_eq_ok_iff.mpr ⟨⟨some scheme, some parts,
            (Rfc3986.split reference).path, (Rfc3986.split reference).query⟩, scheme, ?_, rfl,
            served, rfl⟩⟩
          constructor <;> rw [split_stripFragment]
          · exact schemeEq.symm
          · rw [authorityEq]
            exact .some writes
        rcases taken with ⟨uri, taken⟩
        rw [taken] at failed
        cases failed
    · rename_i relative
      split at failed
      · rename_i slashes
        refine Or.inr ⟨slashes, ?_⟩
        intro authority authorityEq parts writes
        have split := split_networkPath wellFormed whole relative
        rw [split_stripFragment] at split
        have taken : ∃ uri,
            parseUri (base.scheme ++ bytes ":" ++ stripFragment reference) = .ok uri := by
          refine ⟨_, parseUri_eq_ok_iff.mpr ⟨⟨some base.scheme, some parts,
            (Rfc3986.split reference).path, (Rfc3986.split reference).query⟩, base.scheme, ?_, rfl,
            wellFormed.isServedScheme, rfl⟩⟩
          constructor <;> rw [split]
          rw [authorityEq]
          exact .some writes
        rcases taken with ⟨uri, taken⟩
        rw [taken] at failed
        cases failed
      · cases failed

theorem resolveReference_follows_rfc3986_sample :
    ∃ base target parts,
      parseUri (bytes "https://Example.org/scenes/shot/main.usda") = .ok base ∧
      resolveReference base (bytes "../assets/tree.usda?v=1#root") = .ok target ∧
      Denotes (bytes "../assets/tree.usda?v=1#root") parts ∧
      Uri.ofParts (Rfc3986.transform base.parts parts) = some target ∧
      target.path = bytes "/scenes/assets/tree.usda" := by
  let base : Uri := { scheme := bytes "https", host := bytes "example.org",
                      path := bytes "/scenes/shot/main.usda" }
  let target : Uri := { base with path := bytes "/scenes/assets/tree.usda", query := bytes "v=1",
                                  hasQuery := true }
  have parsed : parseUri (bytes "https://Example.org/scenes/shot/main.usda") = .ok base := by
    decide +kernel
  have resolved : resolveReference base (bytes "../assets/tree.usda?v=1#root") = .ok target := by
    decide +kernel
  rcases (resolveReference_follows_rfc3986 parsed (by decide)).1 target resolved with
    ⟨⟨parts, denotes⟩, transformed⟩
  exact ⟨base, target, parts, parsed, resolved, denotes, transformed parts denotes, rfl⟩

end UsdAsset.Http
