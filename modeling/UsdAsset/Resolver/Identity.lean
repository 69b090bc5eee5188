import UsdAsset.Http.Transport
import UsdAsset.Io.AssetReader
import UsdAsset.Lib.QueuedTable

/-!
# Identities

Models `Identity.h` and `Identity.cpp`, what is published of an asset, and the two
tables of `HttpResolver` that remember what opens have captured: the answers,
which are bounded, and the fingerprints, which are kept for good.
-/

namespace UsdAsset.Resolver

open Http

/-! ### What is published -/

def identityStabilityName : IdentityStability → Bytes
  | .stable => bytes "Stable"
  | .unstable => bytes "Unstable"
  | .unavailable => bytes "Unavailable"

/-- One asset's identity, in the form a consumer reads it. -/
structure PublishedIdentity where
  resolvedIdentifier : Bytes
  size : ℕ
  validationToken : Bytes
  stability : Bytes
  reusable : Bool
  deriving DecidableEq, Repr

/-- Projects metadata for publication; a contradicted identifier has no stable identity. -/
def publishIdentity (metadata : AssetMetadata) (contradicted : Bool) : PublishedIdentity :=
  let resolvedIdentifier := elideSecrets metadata.resolvedIdentifier
  let validationToken := if metadata.validator.isUsable then metadata.validator.value else []
  let stability :=
    if contradicted ∧ metadata.stability = .stable then .unstable else metadata.stability
  let reusable := stability == .stable && validationToken != [] && resolvedIdentifier != []
  { resolvedIdentifier
    size := metadata.size
    validationToken
    stability :=
      identityStabilityName (if !reusable ∧ stability = .stable then .unavailable else stability)
    reusable }

/-- The four values of `resolverInfo`. -/
structure ResolverInfo where
  resolvedIdentifier : Bytes
  size : ℕ
  validationToken : Bytes
  stability : Bytes
  deriving DecidableEq, Repr

/-- What `ArAssetInfo` carries; `version` is read as an identity fit to key a cache on. -/
structure AssetInfo where
  version : Bytes := []
  resolverInfo : Option ResolverInfo := none
  deriving DecidableEq, Repr

/-- The asset info of metadata that is known. -/
def assetInfo (metadata : AssetMetadata) (contradicted : Bool) : AssetInfo :=
  let published := publishIdentity metadata contradicted
  { version := if published.reusable then published.validationToken else []
    resolverInfo := some
      { resolvedIdentifier := published.resolvedIdentifier
        size := published.size
        validationToken := published.validationToken
        stability := published.stability } }

theorem of_version_ne_nil {metadata : AssetMetadata} {contradicted : Bool}
    (published : (assetInfo metadata contradicted).version ≠ []) :
    contradicted = false ∧ metadata.stability = .stable ∧
      (assetInfo metadata contradicted).version = metadata.validator.value := by
  simp only [assetInfo] at published ⊢
  split at published
  · rename_i reusable
    have fields := reusable
    simp only [publishIdentity, Bool.and_eq_true, beq_iff_eq, bne_iff_ne] at fields published
    rcases fields with ⟨⟨stable, _⟩, _⟩
    split at stable
    · cases stable
    · rename_i uncontradicted
      have usable : metadata.validator.isUsable = true := by
        by_contra unusable
        simp [unusable] at published
      refine ⟨by simpa [stable] using uncontradicted, stable, ?_⟩
      rw [if_pos reusable]
      simp only [publishIdentity, if_pos usable]
  · exact absurd rfl published

/-! ### What is remembered -/

def maxRememberedIdentities : ℕ := 512

/-- What one identifier's most recent open discovered, and the policies it was reached under. -/
structure Identity where
  metadata : AssetMetadata
  reachedUnder : List DestinationPolicy
  deriving DecidableEq, Repr

/-- The identity after another open, under a policy that is listed once. -/
def Identity.reached (identity : Identity) (metadata : AssetMetadata)
    (policy : DestinationPolicy) : Identity where
  metadata := metadata
  reachedUnder :=
    if policy ∈ identity.reachedUnder then identity.reachedUnder
    else identity.reachedUnder ++ [policy]

theorem Identity.mem_reached {identity : Identity} {policy : DestinationPolicy}
    (listed : policy ∈ identity.reachedUnder) (metadata : AssetMetadata)
    (reachedUnder : DestinationPolicy) :
    policy ∈ (identity.reached metadata reachedUnder).reachedUnder := by
  simp only [reached]
  split
  · exact listed
  · exact List.mem_append_left _ listed

/-- The validator an identifier has been seen with, and whether it was ever seen with two. -/
structure Fingerprint where
  validator : Validator := {}
  seen : Bool := false
  contradicted : Bool := false
  deriving DecidableEq, Repr

/-- Compares a validator with the one on record, which it replaces. -/
def Fingerprint.record (fingerprint : Fingerprint) (validator : Validator) : Fingerprint :=
  if !fingerprint.seen then { fingerprint with validator, seen := true }
  else if fingerprint.validator ≠ validator then
    { fingerprint with contradicted := true, validator }
  else fingerprint

namespace Fingerprint

variable {fingerprint : Fingerprint} {validator other : Validator}

/-- An identifier was seen with a validator: it is the one on record, or there were two. -/
structure Recorded (fingerprint : Fingerprint) (validator : Validator) : Prop where
  seen : fingerprint.seen = true
  kept : fingerprint.contradicted = false → fingerprint.validator = validator

theorem validator_record (fingerprint : Fingerprint) (validator : Validator) :
    (fingerprint.record validator).validator = validator := by
  simp only [record]
  split
  · rfl
  · split
    · rfl
    · rename_i same
      exact not_not.mp same

theorem recorded_record (fingerprint : Fingerprint) (validator : Validator) :
    (fingerprint.record validator).Recorded validator := by
  refine ⟨?_, fun _ => validator_record fingerprint validator⟩
  simp only [record]
  split
  · rfl
  · rename_i seen
    split <;> simpa using seen

theorem Recorded.record (recorded : fingerprint.Recorded validator) :
    (fingerprint.record other).Recorded validator := by
  simp only [Fingerprint.record, recorded.seen, Bool.not_true, Bool.false_eq_true, if_false]
  split
  · exact ⟨rfl, nofun⟩
  · exact recorded

end Fingerprint

/-- The answers that may be dropped, and the fingerprints that may not. -/
structure IdentityTables where
  identities : QueuedTable Bytes Identity := .empty
  fingerprints : Bytes → Option Fingerprint := fun _ => none

namespace IdentityTables

def fingerprint (tables : IdentityTables) (identifier : Bytes) : Fingerprint :=
  (tables.fingerprints identifier).getD {}

/-- Records an open, and reports whether the identifier ever contradicted itself. -/
def rememberIdentity (tables : IdentityTables) (identifier : Bytes) (metadata : AssetMetadata)
    (reachedUnder : DestinationPolicy) : Bool × IdentityTables :=
  let fingerprint := (tables.fingerprint identifier).record metadata.validator
  let identities :=
    match tables.identities.entries identifier with
    | some identity =>
        tables.identities.replace identifier (identity.reached metadata reachedUnder)
    | none =>
        tables.identities.insert maxRememberedIdentities identifier ⟨metadata, [reachedUnder]⟩
  (fingerprint.contradicted,
    { identities
      fingerprints := Function.update tables.fingerprints identifier (some fingerprint) })

/-- The remembered identity, if a caller under the policy could have reached it. -/
def knownIdentity (tables : IdentityTables) (identifier : Bytes) (policy : DestinationPolicy) :
    Option (AssetMetadata × Bool) :=
  match tables.identities.entries identifier with
  | none => none
  | some identity =>
      if identity.reachedUnder.any policy.covers then
        some (identity.metadata,
          ((tables.fingerprints identifier).map Fingerprint.contradicted).getD false)
      else none

/-- Drops an answer; its fingerprint stays. -/
def evict (tables : IdentityTables) (identifier : Bytes) : IdentityTables :=
  { tables with identities := tables.identities.erase identifier }

section Records

variable {tables : IdentityTables} {identifier other : Bytes} {metadata : AssetMetadata}
  {policy : DestinationPolicy} {identity : Identity}

theorem fingerprint_rememberIdentity :
    (tables.rememberIdentity identifier metadata policy).2.fingerprint other =
      if other = identifier then (tables.fingerprint identifier).record metadata.validator
      else tables.fingerprint other := by
  by_cases same : other = identifier
  · subst same
    simp [rememberIdentity, fingerprint]
  · simp [rememberIdentity, fingerprint, same]

theorem of_rememberIdentity
    (held : (tables.rememberIdentity identifier metadata policy).2.identities.entries other =
      some identity) :
    (other = identifier ∧ identity.metadata = metadata ∧
      ∀ reached ∈ identity.reachedUnder, reached = policy ∨
        ∃ before, tables.identities.entries identifier = some before ∧
          reached ∈ before.reachedUnder) ∨
      (other ≠ identifier ∧ tables.identities.entries other = some identity) := by
  simp only [rememberIdentity] at held
  split at held
  · rename_i before known
    by_cases same : other = identifier
    · subst same
      left
      simp only [QueuedTable.replace, Function.update_self, Option.some.injEq] at held
      subst held
      refine ⟨rfl, rfl, ?_⟩
      intro reached reachedMem
      simp only [Identity.reached] at reachedMem
      split at reachedMem
      · exact Or.inr ⟨before, known, reachedMem⟩
      · rcases List.mem_append.mp reachedMem with earlier | now
        · exact Or.inr ⟨before, known, earlier⟩
        · exact Or.inl (List.mem_singleton.mp now)
    · right
      exact ⟨same, by simpa [QueuedTable.replace, same] using held⟩
  · rename_i unknown
    rcases QueuedTable.of_insert held with ⟨rfl, rfl⟩ | before
    · exact Or.inl ⟨rfl, rfl, fun _ reachedMem => Or.inl (List.mem_singleton.mp reachedMem)⟩
    · right
      refine ⟨?_, before⟩
      rintro rfl
      rw [unknown] at before
      cases before

theorem entries_rememberIdentity (known : tables.identities.entries identifier = some identity) :
    (tables.rememberIdentity identifier metadata policy).2.identities.entries identifier =
      some (identity.reached metadata policy) := by
  simp [rememberIdentity, known, QueuedTable.replace]

theorem of_knownIdentity {contradicted : Bool}
    (known : tables.knownIdentity identifier policy = some (metadata, contradicted)) :
    ∃ identity, tables.identities.entries identifier = some identity ∧
      identity.metadata = metadata ∧ (∃ reached ∈ identity.reachedUnder, policy.covers reached) ∧
      contradicted = (tables.fingerprint identifier).contradicted := by
  simp only [knownIdentity] at known
  split at known
  · cases known
  · rename_i identity held
    split at known
    · rename_i reachable
      cases known
      refine ⟨identity, held, rfl, List.any_eq_true.mp reachable, ?_⟩
      cases found : tables.fingerprints identifier <;> simp [fingerprint, found]
    · cases known

end Records

end IdentityTables

end UsdAsset.Resolver
