import UsdAsset.Resolver.DotSegments
import UsdAsset.Resolver.PercentEncoding

/-!
# Normalizing an identifier again

An identifier is composed of a scheme, a normalized authority, a normalized path
and a verbatim query, and splits back into them.  Its path is not changed by
another pass.  Its authority is, where dropping an empty or default port uncovers
another colon: the name before it is then taken for a host and a port.
-/

namespace UsdAsset.Resolver

open ByteString Http Segments

/-! ### Paths -/

/-- A rooted path of plain segments, percent-encoded as they should be. -/
structure IsNormalPath (path : Bytes) (segments : List Bytes) : Prop where
  rendered : path = render slash segments
  present : segments ≠ []
  plain : ∀ segment ∈ segments, IsPlain segment
  encoded : ∀ segment ∈ segments, normalizePercentEncoding false segment = segment

section

variable {hostSafe : Bool}

theorem normalizePercentEncoding_intercalate (segments : List Bytes) :
    normalizePercentEncoding hostSafe ([slash].intercalate segments) =
      [slash].intercalate (segments.map (normalizePercentEncoding hostSafe)) := by
  have slashed : ∀ rest : Bytes, normalizePercentEncoding hostSafe (slash :: rest) =
      slash :: normalizePercentEncoding hostSafe rest := by
    intro rest
    have safe : isSafe hostSafe slash = true := by cases hostSafe <;> rfl
    rw [normalizePercentEncoding_cons rest (ne_percent_of_isSafe safe), encodeByte, if_pos safe]
    rfl
  induction segments with
  | nil => rfl
  | cons segment rest ih =>
    cases rest with
    | nil => simp
    | cons next rest =>
      simp only [List.map_cons, List.intercalate_cons_cons, List.append_assoc,
        List.singleton_append] at ih ⊢
      rw [normalizePercentEncoding_append segment _ (by decide), slashed, ih]

theorem normalizePercentEncoding_render (segments : List Bytes) :
    normalizePercentEncoding hostSafe (render slash segments) =
      render slash (segments.map (normalizePercentEncoding hostSafe)) := by
  cases segments with
  | nil => rfl
  | cons segment rest =>
    have whole := @normalizePercentEncoding_intercalate hostSafe ([] :: segment :: rest)
    rw [render_eq_intercalate (by simp), render_eq_intercalate (by simp)]
    simpa [List.intercalate_cons_cons] using whole

theorem notMem_normalizePercentEncoding {segment : Bytes} (whole : slash ∉ segment) :
    slash ∉ normalizePercentEncoding hostSafe segment :=
  fun made => whole (mem_of_mem_normalizePercentEncoding (by decide) (by decide) made)

/-- The separators of a text are those of its normal form, in order. -/
theorem splitOn_normalizePercentEncoding (text : Bytes) :
    (normalizePercentEncoding hostSafe text).splitOn slash =
      (text.splitOn slash).map (normalizePercentEncoding hostSafe) := by
  have plain : ∀ segment ∈ (text.splitOn slash).map (normalizePercentEncoding hostSafe),
      slash ∉ segment := by
    intro segment segmentMem
    rcases List.mem_map.mp segmentMem with ⟨original, originalMem, rfl⟩
    exact notMem_normalizePercentEncoding (notMem_of_mem_splitOn text original originalMem)
  have normal := @normalizePercentEncoding_intercalate hostSafe (text.splitOn slash)
  rw [List.intercalate_splitOn] at normal
  rw [normal, List.splitOn_intercalate slash plain (by simp)]

end

theorem exists_isNormalPath {path : Bytes} (rooted : path = [] ∨ path.head? = some slash) :
    ∃ segments, IsNormalPath (normalizePath path) segments := by
  cases path with
  | nil =>
    refine ⟨[[]], rfl, by simp, ?_, ?_⟩
    · simp [isPlain_nil]
    · simp
  | cons first rest =>
    have isSlash : first = slash := by simpa using rooted
    subst isSlash
    have whole : ∀ segment ∈ rest.splitOn slash, slash ∉ segment := notMem_of_mem_splitOn rest
    have mappedWhole : ∀ segment ∈ (rest.splitOn slash).map (normalizePercentEncoding false),
        slash ∉ segment := by
      intro segment segmentMem
      rcases List.mem_map.mp segmentMem with ⟨original, originalMem, rfl⟩
      exact notMem_normalizePercentEncoding (whole original originalMem)
    have present : (rest.splitOn slash).map (normalizePercentEncoding false) ≠ [] := by simp
    rcases exists_kept_of_removeDotSegments present mappedWhole with
      ⟨kept, keptPresent, kept_spec, removed⟩
    have shape : normalizePath (slash :: rest) = render slash kept := by
      rw [normalizePath, ← render_splitOn rest, normalizePercentEncoding_render, removed]
      rw [if_neg]
      rw [render_eq_intercalate keptPresent]
      simp
    refine ⟨kept, shape, keptPresent, fun segment segmentMem => (kept_spec segment segmentMem).1,
      ?_⟩
    intro segment segmentMem
    rcases (kept_spec segment segmentMem).2 with rfl | original
    · rfl
    · rcases List.mem_map.mp original with ⟨text, _, rfl⟩
      exact (encoded_normalizePercentEncoding text).normalized

namespace IsNormalPath

variable {path : Bytes} {segments : List Bytes}

theorem normalizePath_eq (normal : IsNormalPath path segments) : normalizePath path = path := by
  have mapped : segments.map (normalizePercentEncoding false) = segments := by
    conv_rhs => rw [← List.map_id segments]
    exact List.map_congr_left normal.encoded
  rw [normal.rendered, normalizePath, normalizePercentEncoding_render, mapped,
    removeDotSegments_plain normal.present normal.plain, if_neg]
  rw [render_eq_intercalate normal.present]
  simp

theorem head_eq (normal : IsNormalPath path segments) : path.head? = some slash := by
  rw [normal.rendered, render_eq_intercalate normal.present, List.head?_cons]

theorem notMem (normal : IsNormalPath path segments) {byte : UInt8}
    (unsafeByte : isSafe false byte = false) (literal : byte ≠ percentSign) :
    byte ∉ path := by
  intro byteMem
  have encoded : normalizePercentEncoding false path = path := by
    rw [normal.rendered, normalizePercentEncoding_render]
    congr 1
    conv_rhs => rw [← List.map_id segments]
    exact List.map_congr_left normal.encoded
  rw [← encoded] at byteMem
  rcases (encoded_normalizePercentEncoding path).safe_or_percent byteMem with safe | rfl
  · rw [unsafeByte] at safe
    cases safe
  · exact literal rfl

end IsNormalPath

/-! ### Splitting -/

/-- What the splitting of a reference guarantees about its parts. -/
structure Parts.WellSplit (parts : Parts) : Prop where
  authority : slash ∉ parts.authority
  query : (('#' : Char) : UInt8) ∉ parts.query
  rooted : parts.hasAuthority = true → parts.path = [] ∨ parts.path.head? = some slash

theorem notMem_stripFragment (text : Bytes) : numberSign ∉ stripFragment text := by
  intro found
  simpa using List.mem_takeWhile_imp found

theorem splitQuery_subset (text : Bytes) {byte : UInt8}
    (byteMem : byte ∈ (splitQuery text).2.getD []) : byte ∈ text := by
  simp only [splitQuery] at byteMem
  split at byteMem
  · cases byteMem
  · rename_i before query found
    rw [(eq_append_of_splitFirst found).1]
    simp only [Option.getD_some] at byteMem
    simp [byteMem]

theorem wellSplit_of_splitUriReference {text : Bytes} {parts : Parts}
    (found : splitUriReference text = some parts) : parts.WellSplit := by
  have noFragment : numberSign ∉ (splitQuery (stripFragment text)).2.getD [] :=
    fun byteMem => notMem_stripFragment text (splitQuery_subset _ byteMem)
  simp only [splitUriReference] at found
  split at found
  · cases found
  · split at found
    · cases found
      refine ⟨?_, noFragment, fun _ => ?_⟩
      · intro slashed
        simpa [slash] using List.mem_takeWhile_imp slashed
      · have first := List.head?_dropWhile_not (fun byte => byte != slash)
          ((splitScheme (splitQuery (stripFragment text)).1).2.drop 2)
        cases shape : ((splitScheme (splitQuery (stripFragment text)).1).2.drop 2).dropWhile
          fun byte => byte != slash with
        | nil => exact Or.inl shape
        | cons byte rest =>
          rw [shape] at first
          have isSlash : byte = slash := by simpa using first
          subst isSlash
          exact Or.inr (congrArg List.head? shape)
    · cases found
      exact ⟨by simp, noFragment, fun present => by cases present⟩

theorem head_mergePath {base : Parts} (rooted : base.path = [] ∨ base.path.head? = some slash)
    (reference : Bytes) : (mergePath base reference).head? = some slash := by
  simp only [mergePath]
  split
  · rfl
  · rename_i directory last found
    have shape := eq_append_of_splitLast found
    cases directory with
    | nil => rfl
    | cons first directory =>
      rw [shape.1] at rooted
      simpa using rooted

theorem wellSplit_anchored {base reference : Parts} (baseSplit : base.WellSplit)
    (referenceSplit : reference.WellSplit) (remote : base.hasAuthority = true) :
    (anchored base reference).WellSplit := by
  simp only [anchored]
  split
  · exact ⟨referenceSplit.authority, referenceSplit.query, referenceSplit.rooted⟩
  · split
    · split
      · exact ⟨baseSplit.authority, referenceSplit.query, baseSplit.rooted⟩
      · exact baseSplit
    · refine ⟨baseSplit.authority, referenceSplit.query, fun _ => Or.inr ?_⟩
      dsimp only
      split
      · rename_i rooted
        exact rooted
      · exact head_mergePath (baseSplit.rooted remote) _

theorem wellSplit_of_target {assetPath anchorAssetPath : Bytes} {parts : Parts}
    (found : target assetPath anchorAssetPath = some parts) : parts.WellSplit := by
  simp only [target] at found
  split at found
  · cases found
  · rename_i reference split
    split at found
    · cases found
      exact wellSplit_of_splitUriReference split
    · split at found
      · cases found
      · rename_i base baseSplit
        split at found
        · rename_i remote
          cases found
          exact wellSplit_anchored (wellSplit_of_splitUriReference baseSplit)
            (wellSplit_of_splitUriReference split) remote.2
        · cases found

/-! ### Splitting an identifier -/

/-- The bytes an authority may hold for an identifier to split where it was composed. -/
structure IsNormalAuthority (authority : Bytes) : Prop where
  slash : Http.slash ∉ authority
  questionMark : Http.questionMark ∉ authority
  hash : (('#' : Char) : UInt8) ∉ authority
  atSign : (('@' : Char) : UInt8) ∉ authority

theorem isClaimed_cases {scheme : Bytes} (claimed : isClaimed scheme = true) :
    scheme = bytes "http" ∨ scheme = bytes "https" := by
  simpa [isClaimed] using claimed

theorem splitScheme_claimed {scheme : Bytes} (claimed : isClaimed scheme = true) (rest : Bytes) :
    splitScheme (scheme ++ bytes ":" ++ rest) = (scheme, rest) := by
  rcases isClaimed_cases claimed with rfl | rfl
  · rfl
  · rfl

section

variable {scheme authority path query : Bytes} {segments : List Bytes} (hasQuery : Bool)

/-- What precedes the query of an identifier. -/
def hierarchy (scheme authority path : Bytes) : Bytes := scheme ++ bytes "://" ++ authority ++ path

variable (claimed : isClaimed scheme = true)

include claimed

theorem notMem_hierarchy (normal : IsNormalPath path segments)
    {byte : UInt8} (unsafeByte : isSafe false byte = false)
    (literal : byte ≠ percentSign) (absent : byte ∉ authority)
    (foreign : byte ∉ bytes "https://") : byte ∉ hierarchy scheme authority path := by
  have inScheme : byte ∉ scheme ++ bytes "://" := by
    rcases isClaimed_cases claimed with rfl | rfl
    · intro found
      exact foreign (by revert found; simp [bytes]; tauto)
    · exact foreign
  simp only [hierarchy, List.mem_append (s := scheme ++ bytes "://" ++ authority),
    List.mem_append (s := scheme ++ bytes "://"), not_or]
  exact ⟨⟨inScheme, absent⟩, normal.notMem unsafeByte literal⟩

variable (plain : IsNormalAuthority authority) (normal : IsNormalPath path segments)
    (noFragment : numberSign ∉ query)

include plain normal noFragment

theorem stripFragment_compose : stripFragment (compose scheme authority path query hasQuery) =
      compose scheme authority path query hasQuery := by
  apply stripFragment_eq_self
  rw [compose, ← hierarchy, List.mem_append, not_or]
  refine ⟨notMem_hierarchy claimed normal (by decide) (by decide) plain.hash (by decide), ?_⟩
  cases hasQuery with
  | false => simp
  | true =>
    rw [if_pos rfl, List.mem_append, not_or]
    exact ⟨by decide, noFragment⟩

theorem splitUriReference_compose :
    splitUriReference (compose scheme authority path query hasQuery) =
      some
        { scheme
          hasAuthority := true
          authority
          path
          query := if hasQuery then query else []
          hasQuery } := by
  have noQuery : questionMark ∉ hierarchy scheme authority path :=
    notMem_hierarchy claimed normal (by decide) (by decide) plain.questionMark (by decide)
  have present : compose scheme authority path query hasQuery ≠ [] := by
    rcases isClaimed_cases claimed with rfl | rfl <;> simp [compose, bytes]
  have unstripped := stripFragment_compose hasQuery claimed plain normal noFragment
  have split : splitQuery (compose scheme authority path query hasQuery) =
      (hierarchy scheme authority path, if hasQuery then some query else none) := by
    rw [compose, ← hierarchy]
    cases hasQuery with
    | false =>
      have missing := splitFirst_eq_none noQuery
      simp only [questionMark] at missing
      simp [splitQuery, missing]
    | true =>
      have found := splitFirst_append query noQuery
      simp only [questionMark] at found
      simp [splitQuery, bytes, found]
  have schemeSplit : splitScheme (hierarchy scheme authority path) =
      (scheme, bytes "//" ++ (authority ++ path)) := by
    rw [hierarchy, List.append_assoc, List.append_assoc]
    have found := splitScheme_claimed claimed (bytes "//" ++ (authority ++ path))
    rwa [List.append_assoc] at found
  have slashes : (bytes "//").isPrefixOf (bytes "//" ++ (authority ++ path)) = true :=
    List.isPrefixOf_iff_prefix.mpr (List.prefix_append _ _)
  have behind : (bytes "//" ++ (authority ++ path)).drop 2 = authority ++ path := rfl
  have inside : ∀ byte ∈ authority, (byte != slash) = true := by
    intro byte byteMem
    rw [bne_iff_ne]
    rintro rfl
    exact plain.slash byteMem
  have taken : (authority ++ path).takeWhile (fun byte => byte != slash) = authority := by
    rw [List.takeWhile_append_of_pos inside, normal.rendered, render_eq_intercalate normal.present]
    simp
  have dropped : (authority ++ path).dropWhile (fun byte => byte != slash) = path := by
    rw [List.dropWhile_append_of_pos inside, normal.rendered, render_eq_intercalate normal.present]
    simp
  simp only [slash] at taken dropped
  simp only [splitUriReference, if_neg present, unstripped, split, schemeSplit, if_pos slashes,
    behind, taken, dropped]
  cases hasQuery <;> rfl

/-- An identifier is normalized again part by part: only its authority can change. -/
theorem createIdentifier_compose (anchorAssetPath : Bytes) :
    createIdentifier (compose scheme authority path query hasQuery) anchorAssetPath =
      match normalizeAuthority authority (scheme == bytes "https") with
      | none => []
      | some again => compose scheme again path query hasQuery := by
  have named : scheme ≠ [] := by
    rcases isClaimed_cases claimed with rfl | rfl <;> decide
  simp only [createIdentifier, target, splitUriReference_compose hasQuery claimed plain normal
    noFragment, if_pos named, normalizeAbsolute, claimed, normal.normalizePath_eq, normal.head_eq]
  cases normalizeAuthority authority (scheme == bytes "https") with
  | none => simp
  | some again => cases hasQuery <;> simp [compose]

end

end UsdAsset.Resolver
