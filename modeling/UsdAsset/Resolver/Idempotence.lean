import UsdAsset.Resolver.Authority

/-!
# Identifiers that are their own

An asset is resolved through the identifier created for it, and that identifier is
normalized again on the way.  The second pass changes nothing, whatever the anchor,
exactly where the authority of the asset path settles.
-/

namespace UsdAsset.Resolver

open ByteString Http

/-- Whether an identifier is served over a secure connection. -/
def Parts.secure (parts : Parts) : Bool := parts.scheme == bytes "https"

/-- The parts an identifier was composed of. -/
structure Composed (assetPath anchorAssetPath : Bytes) (parts : Parts) (authority path : Bytes) :
    Prop where
  found : target assetPath anchorAssetPath = some parts
  claimed : isClaimed parts.scheme = true
  remote : parts.hasAuthority = true
  normalized : normalizeAuthority parts.authority parts.secure = some authority
  path_eq : path = normalizePath parts.path

namespace Composed

variable {assetPath anchorAssetPath : Bytes} {parts : Parts} {authority path : Bytes}

variable (composed : Composed assetPath anchorAssetPath parts authority path)

include composed

theorem exists_segments : ∃ segments, IsNormalPath path segments := by
  rw [composed.path_eq]
  exact exists_isNormalPath ((wellSplit_of_target composed.found).rooted composed.remote)

theorem isNormalAuthority : IsNormalAuthority authority :=
  isNormalAuthority_of_normalizeAuthority composed.normalized
    (wellSplit_of_target composed.found).authority

theorem createIdentifier_eq : createIdentifier assetPath anchorAssetPath =
      compose parts.scheme authority path parts.query parts.hasQuery := by
  rcases composed.exists_segments with ⟨segments, normal⟩
  have rooted := normal.head_eq
  rw [composed.path_eq] at rooted ⊢
  have normalized := composed.normalized
  simp only [Parts.secure] at normalized
  simp [createIdentifier, composed.found, normalizeAbsolute, composed.claimed, composed.remote,
    normalized, rooted]

theorem createIdentifier_again (other : Bytes) :
    createIdentifier (createIdentifier assetPath anchorAssetPath) other =
      match normalizeAuthority authority parts.secure with
      | none => []
      | some again => compose parts.scheme again path parts.query parts.hasQuery := by
  rcases composed.exists_segments with ⟨segments, normal⟩
  rw [composed.createIdentifier_eq, createIdentifier_compose parts.hasQuery composed.claimed
    composed.isNormalAuthority normal (wellSplit_of_target composed.found).query]
  rfl

end Composed

theorem compose_ne_nil (scheme authority path query : Bytes) (hasQuery : Bool) :
    compose scheme authority path query hasQuery ≠ [] := by
  simp [compose, bytes]

/-- Nothing but the authority tells two identifiers with the same other parts apart. -/
theorem compose_injective {scheme authority other path query : Bytes} {hasQuery : Bool}
    (same : compose scheme authority path query hasQuery = compose scheme other path query hasQuery) :
    authority = other := by
  simpa [compose] using same

/-- An identifier that was not composed is none: its authority is refused, or it is not remote. -/
structure Refused (assetPath anchorAssetPath : Bytes) : Prop where
  empty : createIdentifier assetPath anchorAssetPath = []
  refused : ∀ parts, target assetPath anchorAssetPath = some parts →
    isClaimed parts.scheme = true → parts.hasAuthority = true →
      normalizeAuthority parts.authority parts.secure = none

theorem composed_or_refused (assetPath anchorAssetPath : Bytes) :
    Refused assetPath anchorAssetPath ∨
      ∃ parts authority path, Composed assetPath anchorAssetPath parts authority path := by
  cases found : target assetPath anchorAssetPath with
  | none => exact Or.inl ⟨by simp [createIdentifier, found], by simp [found]⟩
  | some parts =>
    by_cases served : isClaimed parts.scheme = true ∧ parts.hasAuthority = true
    · cases normalized : normalizeAuthority parts.authority parts.secure with
      | none =>
        refine Or.inl ⟨?_, ?_⟩
        · simp only [Parts.secure] at normalized
          simp [createIdentifier, found, normalizeAbsolute, normalized]
        · rintro other same _ _
          rw [found] at same
          cases same
          exact normalized
      | some authority =>
        exact Or.inr ⟨parts, authority, _, found, served.1, served.2, normalized, rfl⟩
    · refine Or.inl ⟨?_, ?_⟩
      · simp only [createIdentifier, found, normalizeAbsolute]
        rw [if_pos]
        by_contra both
        simp only [Bool.not_eq_true', not_or, Bool.not_eq_false] at both
        exact served both
      · rintro other same claimed remote
        rw [found] at same
        cases same
        exact absurd ⟨claimed, remote⟩ served

theorem settles_of_none {authority : Bytes} {secure : Bool}
    (refused : normalizeAuthority authority secure = none) : settles authority secure = true := by
  simp only [normalizeAuthority] at refused
  simp only [settles]
  split
  · rfl
  · rename_i host port split
    rw [split] at refused
    dsimp only at refused
    split at refused
    · rename_i absent
      subst absent
      simp [isSettledName, normalizeHost, normalizePercentEncoding, splitLast, splitFirst]
    · rw [Option.map_eq_none_iff.mp refused]
      simp

/-- A condition on the authority an asset path stands for, if it is a remote one. -/
def onAuthority (condition : Bytes → Bool → Bool) (assetPath anchorAssetPath : Bytes) : Bool :=
  match target assetPath anchorAssetPath with
  | none => true
  | some parts =>
      !(isClaimed parts.scheme && parts.hasAuthority) || condition parts.authority parts.secure

section

variable {condition : Bytes → Bool → Bool} {assetPath anchorAssetPath : Bytes}

theorem Refused.onAuthority (refused : Refused assetPath anchorAssetPath)
    (lenient : ∀ authority secure, normalizeAuthority authority secure = none →
      condition authority secure = true) :
    onAuthority condition assetPath anchorAssetPath = true := by
  simp only [Resolver.onAuthority]
  split
  · rfl
  · rename_i parts found
    by_cases served : (isClaimed parts.scheme && parts.hasAuthority) = true
    · rw [Bool.and_eq_true] at served
      rw [lenient _ _ (refused.refused parts found served.1 served.2), Bool.or_true]
    · simp [served]

theorem Composed.onAuthority {parts : Parts} {authority path : Bytes}
    (composed : Composed assetPath anchorAssetPath parts authority path) :
    onAuthority condition assetPath anchorAssetPath =
      condition parts.authority parts.secure := by
  simp [Resolver.onAuthority, composed.found, composed.claimed, composed.remote]

end

/-- Whether the authority an asset path stands for, if it is a remote one, settles. -/
def identifierSettles (assetPath anchorAssetPath : Bytes) : Bool :=
  onAuthority settles assetPath anchorAssetPath

/--
The identifier created for an asset path is its own identifier, whatever the anchor,
exactly where the authority it was created from settles.
-/
theorem createIdentifier_fixpoint_iff (assetPath anchorAssetPath : Bytes) :
    (createIdentifier assetPath anchorAssetPath ≠ [] →
        ∀ other, createIdentifier (createIdentifier assetPath anchorAssetPath) other =
          createIdentifier assetPath anchorAssetPath) ↔
      identifierSettles assetPath anchorAssetPath = true := by
  rcases composed_or_refused assetPath anchorAssetPath with
    refused | ⟨parts, authority, path, composed⟩
  · exact ⟨fun _ => refused.onAuthority fun _ _ => settles_of_none,
      fun _ present => absurd refused.empty present⟩
  · have identifier := composed.createIdentifier_eq
    have present : createIdentifier assetPath anchorAssetPath ≠ [] := by
      rw [identifier]
      exact compose_ne_nil _ _ _ _ _
    rw [identifierSettles, composed.onAuthority,
      ← normalizeAuthority_fixpoint_iff composed.normalized]
    constructor
    · intro fixpoint
      have again := fixpoint present []
      rw [composed.createIdentifier_again, identifier] at again
      split at again
      · exact absurd again.symm (compose_ne_nil _ _ _ _ _)
      · rename_i normal
        rw [normal, compose_injective again]
    · intro normal _ other
      rw [composed.createIdentifier_again, normal, identifier]

/-- An IPv6 address without its brackets, and with the port its scheme implies. -/
theorem createIdentifier_unbracketed :
    createIdentifier (bytes "http://fe80::a:80/scene.usda") [] = bytes "http://fe80::a/scene.usda" ∧
      createIdentifier (createIdentifier (bytes "http://fe80::a:80/scene.usda") []) [] ≠
        createIdentifier (bytes "http://fe80::a:80/scene.usda") [] := by
  decide +kernel

end UsdAsset.Resolver
