import UsdAsset.Resolver.Provenance

/-!
# Published versions

A version that is published of an identifier is the validator of every revision
that was handed out of it.  The fingerprint of an identifier is never dropped, so
an identifier that was seen with two validators has no version for good, whatever
became of the answers.
-/

namespace UsdAsset.Resolver

open ByteString Http Machine

variable {info : AssetInfo} {next : HttpResolver} {callId : ℕ} {call : Call} {event : Event}

namespace IdentityTables

variable {tables : IdentityTables}

/-- The answer on record of an identifier has the validator of its fingerprint. -/
def Tied (tables : IdentityTables) : Prop :=
  ∀ (identifier : Bytes) (identity : Identity),
    tables.identities.entries identifier = some identity →
      (tables.fingerprint identifier).validator = identity.metadata.validator ∧
        Classified identity.metadata

theorem Tied.rememberIdentity (tied : tables.Tied) {metadata : AssetMetadata}
    (classified : Classified metadata) (identifier : Bytes) (policy : DestinationPolicy) :
    (tables.rememberIdentity identifier metadata policy).2.Tied := by
  intro other identity held
  rw [fingerprint_rememberIdentity]
  rcases of_rememberIdentity held with ⟨rfl, rfl, _⟩ | ⟨different, before⟩
  · rw [if_pos rfl]
    exact ⟨Fingerprint.validator_record _ _, classified⟩
  · rw [if_neg different]
    exact tied other identity before

theorem Tied.evict (tied : tables.Tied) (identifier : Bytes) : (tables.evict identifier).Tied :=
  fun other identity held => tied other identity (QueuedTable.of_erase held).2

theorem recorded_rememberIdentity {other : Bytes} {validator : Validator}
    (recorded : (tables.fingerprint other).Recorded validator) (identifier : Bytes)
    (metadata : AssetMetadata) (policy : DestinationPolicy) :
    ((tables.rememberIdentity identifier metadata policy).2.fingerprint other).Recorded
      validator := by
  rw [fingerprint_rememberIdentity]
  split
  · rename_i same
    exact (same ▸ recorded).record
  · exact recorded

end IdentityTables

theorem strong_of_stable {validator : Validator} (stable : classifyStability validator = .stable) :
    validator.strength = .strong := by
  simp only [classifyStability] at stable
  split at stable
  · split at stable
    · assumption
    · cases stable
    · cases stable
  · cases stable

/-- A version is the strong validator of every open on record of the identifier. -/
def Describes (remembered : List Remembered) (identifier : Bytes) (info : AssetInfo) : Prop :=
  info.version ≠ [] → ∃ validator : Validator, validator.strength = .strong ∧
    validator.value = info.version ∧
      ∀ record ∈ remembered, record.identifier = identifier → record.metadata.validator = validator

theorem Describes.of_subset {larger smaller : List Remembered} {identifier : Bytes}
    (describes : Describes larger identifier info) (subset : ∀ record ∈ smaller, record ∈ larger) :
    Describes smaller identifier info := by
  intro published
  rcases describes published with ⟨validator, strong, value, agreed⟩
  exact ⟨validator, strong, value, fun record recordMem => agreed record (subset record recordMem)⟩

theorem describes_assetInfo {remembered : List Remembered} {identifier : Bytes}
    {metadata : AssetMetadata} {contradicted : Bool} (classified : Classified metadata)
    (agreed : contradicted = false → ∀ record ∈ remembered, record.identifier = identifier →
      record.metadata.validator = metadata.validator) :
    Describes remembered identifier (assetInfo metadata contradicted) := by
  intro published
  rcases of_version_ne_nil published with ⟨uncontradicted, stable, version⟩
  refine ⟨metadata.validator, ?_, version.symm, agreed uncontradicted⟩
  rw [classified] at stable
  exact strong_of_stable stable

namespace HttpResolver

variable {resolver : HttpResolver}

/-- What a call that moves to a pc has to go by. -/
def Finishes (resolver : HttpResolver) (call : Call) : Pc → Prop
  | .returned (.asset (some reader)) => call.pc = .rememberReader reader
  | .returned (.info info) =>
      info = {} ∨
      (∃ metadata contradicted, info = assetInfo metadata contradicted ∧
        resolver.tables.knownIdentity call.identifier call.policy =
          some (metadata, contradicted)) ∨
      ∃ metadata, resolver.recorded call = some metadata ∧
        info = assetInfo metadata (resolver.contradictedBy call metadata)
  | _ => True

theorem Advances.moves {answer : Answer} (advances : Advances resolver callId call answer next) :
    ∃ pc, next.calls = resolver.calls.set callId { call with pc } ∧
      resolver.Finishes call pc := by
  cases advances with
  | remembers pc entryFound =>
    refine ⟨_, rfl, ?_⟩
    split
    · exact Or.inr (Or.inr ⟨_, by simp [recorded, pc, entryFound], rfl⟩)
    · trivial
  | forgets pc entryFound =>
    simp only [forget]
    split
    · exact ⟨_, rfl, Or.inl rfl⟩
    · exact ⟨_, rfl, trivial⟩
  | knows pc answered => exact ⟨_, rfl, Or.inr (Or.inl ⟨_, _, rfl, answered⟩)⟩
  | declines pc => exact ⟨_, rfl, Or.inl rfl⟩
  | remembersReader pc => exact ⟨_, rfl, pc⟩
  | _ => exact ⟨_, rfl, trivial⟩

theorem remembered_step (stepped : resolver.step event = some next) {record : Remembered}
    (recordMem : record ∈ resolver.remembered) : record ∈ next.remembered := by
  rcases step_records stepped with ⟨added, _, _, remembered, _⟩ | ⟨_, _, remembered, _⟩
  · rw [remembered]
    exact List.mem_append_left _ recordMem
  · rw [remembered]
    exact recordMem

/-- Every open on record is in the fingerprint, and every asset handed out is on record. -/
structure Accountable (resolver : HttpResolver) : Prop where
  consistent : resolver.Consistent
  traced : resolver.Traced
  tied : resolver.tables.Tied
  fingerprinted : ∀ record ∈ resolver.remembered,
    (resolver.tables.fingerprint record.identifier).Recorded record.metadata.validator
  returned : ∀ {callId : ℕ} {call : Call}, resolver.calls[callId]? = some call →
    ∀ {reader : HttpAssetReader}, call.pc = .returned (.asset (some reader)) →
      ∃ record ∈ resolver.remembered, record.identifier = call.identifier ∧
        record.metadata = reader.metadata

theorem accountable_create (address : Addresses) (environment : StringMap) :
    (create address environment).Accountable := by
  refine ⟨consistent_create _ _, traced_create _ _, ?_, ?_, ?_⟩
  · intro identifier identity held
    cases held
  · simp [create]
  · simp [create]

namespace Accountable

theorem classified_of_recordedBy (accountable : resolver.Accountable) {record : Remembered}
    (records : resolver.recordedBy event = some record) :
    Classified record.metadata := by
  rcases performed_of_recordedBy accountable.consistent accountable.traced records with
    ⟨options, performed, _⟩
  exact accountable.traced.classified _ performed

/-- What a finished call tells of an identifier describes every open on record. -/
theorem describes (accountable : resolver.Accountable)
    (found : resolver.calls[callId]? = some call)
    (finishes : resolver.Finishes call (.returned (.info info))) :
    Describes resolver.remembered call.identifier info := by
  rcases finishes with rfl | ⟨metadata, contradicted, rfl, known⟩ | ⟨metadata, records, rfl⟩
  · intro published
    exact absurd rfl published
  · rcases IdentityTables.of_knownIdentity known with ⟨identity, held, rfl, _, rfl⟩
    rcases accountable.tied _ _ held with ⟨fingerprint, classified⟩
    refine describes_assetInfo classified ?_
    intro uncontradicted record recordMem same
    rw [← fingerprint]
    exact (((same ▸ accountable.fingerprinted record recordMem).kept uncontradicted)).symm
  · have captured := captured_of_recorded accountable.consistent accountable.traced found records
    refine describes_assetInfo (accountable.traced.classified _ captured) ?_
    intro uncontradicted record recordMem same
    have kept := (same ▸ accountable.fingerprinted record recordMem).record.kept uncontradicted
    rw [← kept, Fingerprint.validator_record]

theorem returned_step (accountable : resolver.Accountable)
    (stepped : resolver.step event = some next) (found : next.calls[callId]? = some call)
    {reader : HttpAssetReader} (returned : call.pc = .returned (.asset (some reader))) :
    ∃ record ∈ next.remembered, record.identifier = call.identifier ∧
      record.metadata = reader.metadata := by
  have kept : ∀ {callId : ℕ} {call : Call}, resolver.calls[callId]? = some call →
      call.pc = .returned (.asset (some reader)) → ∃ record ∈ next.remembered,
        record.identifier = call.identifier ∧ record.metadata = reader.metadata := by
    intro callId call before returned
    rcases accountable.returned before returned with ⟨record, recordMem, same⟩
    exact ⟨record, remembered_step stepped recordMem, same⟩
  rcases step_cases stepped with
    ⟨request, context, scope, _, rfl⟩ | ⟨movedId, answer, moved, _, movedFound, advances⟩ |
    ⟨identifier, _, rfl⟩
  · rcases getElem?_append_singleton found with before | ⟨_, rfl⟩
    · exact kept before returned
    · simp only [begin] at returned
      split at returned <;> cases request <;> cases returned
  · rcases advances.moves with ⟨pc, calls, finishes⟩
    rw [calls] at found
    rcases getElem?_set_cases found with ⟨rfl, rfl⟩ | ⟨_, before⟩
    · simp only at returned
      subst returned
      have records : resolver.recorded moved = some reader.metadata := by
        simp [recorded, show moved.pc = .rememberReader reader from finishes]
      rw [(advances.of_recorded_some records).2.1]
      exact ⟨_, List.mem_append_right _ (List.mem_singleton_self _), rfl, rfl⟩
    · exact kept before returned
  · exact kept found returned

end Accountable

theorem step_accountable (accountable : resolver.Accountable)
    (stepped : resolver.step event = some next) : next.Accountable := by
  refine ⟨step_consistent accountable.consistent stepped,
    step_traced accountable.consistent accountable.traced stepped, ?_, ?_,
    accountable.returned_step stepped⟩
  · rcases step_records stepped with ⟨record, records, tables, _⟩ | ⟨_, tables | ⟨_, tables⟩, _⟩
    · rw [tables]
      exact accountable.tied.rememberIdentity (accountable.classified_of_recordedBy records) _ _
    · rw [tables]
      exact accountable.tied
    · rw [tables]
      exact accountable.tied.evict _
  · intro record recordMem
    rcases step_records stepped with
      ⟨added, _, tables, remembered, _⟩ | ⟨_, tables | ⟨_, tables⟩, remembered, _⟩
    · rw [remembered] at recordMem
      rw [tables]
      rcases List.mem_append.mp recordMem with before | now
      · exact IdentityTables.recorded_rememberIdentity (accountable.fingerprinted _ before) _ _ _
      · rw [List.mem_singleton.mp now, IdentityTables.fingerprint_rememberIdentity, if_pos rfl]
        exact Fingerprint.recorded_record _ _
    · rw [remembered] at recordMem
      rw [tables]
      exact accountable.fingerprinted record recordMem
    · -- The answer is gone; its fingerprint is not.
      rw [remembered] at recordMem
      rw [tables]
      exact accountable.fingerprinted record recordMem

/-! ### Asset info, from its beginning to its end -/

/-- While a call is under way, it describes at least the opens that were on record before. -/
structure Following (began : HttpResolver) (resolver : HttpResolver) : Prop where
  accountable : resolver.Accountable
  kept : ∀ record ∈ began.remembered, record ∈ resolver.remembered
  found : ∃ call, resolver.calls[began.calls.length]? = some call ∧
    ∀ {info : AssetInfo}, call.pc = .returned (.info info) →
      Describes began.remembered call.identifier info

theorem step_following {began : HttpResolver} (following : Following began resolver)
    (stepped : resolver.step event = some next) :
    Following began next := by
  refine ⟨step_accountable following.accountable stepped,
    fun record recordMem => remembered_step stepped (following.kept record recordMem), ?_⟩
  rcases following.found with ⟨call, found, described⟩
  rcases step_cases stepped with
    ⟨request, context, scope, _, rfl⟩ | ⟨movedId, answer, moved, _, movedFound, advances⟩ |
    ⟨identifier, _, rfl⟩
  · exact ⟨call, getElem?_append_of_some _ found, described⟩
  · rcases advances.moves with ⟨pc, calls, finishes⟩
    rw [calls]
    by_cases same : movedId = began.calls.length
    · subst same
      rw [found, Option.some.injEq] at movedFound
      subst movedFound
      refine ⟨_, List.getElem?_set_self (List.getElem?_eq_some_iff.mp found).1, ?_⟩
      rintro info rfl
      exact (following.accountable.describes found finishes).of_subset following.kept
    · exact ⟨call, (List.getElem?_set_ne same).trans found, described⟩
  · exact ⟨call, found, described⟩

/--
A version that `_GetAssetInfo` returns is the strong validator of every reader of the
identifier that `_OpenAsset` returned before; an identifier of which two opens with
different validators are on record has no version any more.
-/
theorem version_describes_revisions {address : Addresses} {environment : StringMap}
    {before after : List Event} {began asked final : HttpResolver} {assetPath resolvedPath : Bytes}
    {context : Option StringMap} {scope : Option ℕ} {call : Call} {info : AssetInfo}
    (reached : run step (create address environment) before = some began)
    (begun : began.step (.call (.getAssetInfo assetPath resolvedPath) context scope) = some asked)
    (continued : run step asked after = some final)
    (found : final.calls[began.calls.length]? = some call)
    (returned : call.pc = .returned (.info info)) :
    (info.version ≠ [] → ∃ validator : Validator, validator.strength = .strong ∧
      validator.value = info.version ∧ ∀ other ∈ began.calls, other.identifier = call.identifier →
        ∀ reader, other.pc = .returned (.asset (some reader)) →
          reader.metadata.validator = validator) ∧
    (∀ first ∈ began.remembered, ∀ second ∈ began.remembered,
      first.identifier = call.identifier → second.identifier = call.identifier →
      first.metadata.validator ≠ second.metadata.validator → info.version = []) := by
  have accountable : began.Accountable :=
    invariant_of_run step_accountable (accountable_create address environment) reached
  have starts : Following began asked := by
    refine ⟨step_accountable accountable begun, fun _ recordMem => remembered_step begun recordMem, ?_⟩
    cases begun
    refine ⟨_, List.getElem?_concat_length, ?_⟩
    intro info returned published
    simp only [begin] at returned
    split at returned
    · cases returned
      exact absurd rfl published
    · cases returned
  have ends := invariant_of_run step_following starts continued
  rcases ends.found with ⟨same, sameFound, described⟩
  rw [found, Option.some.injEq] at sameFound
  subst sameFound
  have describes := described returned
  refine ⟨?_, ?_⟩
  · intro published
    rcases describes published with ⟨validator, strong, value, agreed⟩
    refine ⟨validator, strong, value, ?_⟩
    intro other otherMem sameIdentifier reader handedOut
    rcases List.mem_iff_getElem?.mp otherMem with ⟨otherId, otherFound⟩
    rcases accountable.returned otherFound handedOut with ⟨record, recordMem, named, metadata⟩
    rw [← metadata]
    exact agreed record recordMem (named.trans sameIdentifier)
  · intro first firstMem second secondMem firstNamed secondNamed different
    by_contra published
    rcases describes published with ⟨validator, _, _, agreed⟩
    exact different ((agreed first firstMem firstNamed).trans
      (agreed second secondMem secondNamed).symm)

end HttpResolver

/-- What a call has returned as asset info. -/
def Call.info? (call : Call) : Option AssetInfo :=
  match call.pc with
  | .returned (.info info) => some info
  | _ => none

theorem Call.pc_of_info? (returned : call.info? = some info) :
    call.pc = .returned (.info info) := by
  simp only [Call.info?] at returned
  split at returned
  · rename_i found pc
    rw [pc, Option.some.inj returned]
  · cases returned

/-- One asset is opened with the answers of a server that published one revision. -/
def openedAsset : List Event :=
  [Event.call (.openAsset (bytes "http://host/a")) none none] ++
    List.replicate 3 (Event.step 0 ⟨some (republishingServer fun _ => false), {}⟩)

theorem version_describes_openedAsset :
    ∃ began, run HttpResolver.step (.create (fun _ => 0) ∅) openedAsset = some began ∧
      ∃ validator : Validator, validator.strength = .strong ∧ validator.value = bytes "\"a\"" ∧
        ∀ other ∈ began.calls, other.identifier = bytes "http://host/a" →
          ∀ reader, other.pc = .returned (.asset (some reader)) →
            reader.metadata.validator = validator := by
  let ask : Event := .call (.getAssetInfo (bytes "http://host/a") []) none none
  have observed : ((run HttpResolver.step (.create (fun _ => 0) ∅) openedAsset).bind fun began =>
      (began.step ask).bind fun asked =>
        (run HttpResolver.step asked [.step 1 ⟨none, {}⟩]).bind fun final =>
          (final.calls[began.calls.length]?).bind fun call =>
            call.info?.map fun info => (call.identifier, info.version)) =
      some (bytes "http://host/a", bytes "\"a\"") := by
    decide +kernel
  rcases Option.bind_eq_some_iff.mp observed with ⟨began, reached, observed⟩
  rcases Option.bind_eq_some_iff.mp observed with ⟨asked, begun, observed⟩
  rcases Option.bind_eq_some_iff.mp observed with ⟨final, continued, observed⟩
  rcases Option.bind_eq_some_iff.mp observed with ⟨call, found, observed⟩
  rcases Option.map_eq_some_iff.mp observed with ⟨info, returned, seen⟩
  rcases Prod.mk.inj seen with ⟨named, version⟩
  have describes := (HttpResolver.version_describes_revisions reached begun continued found
    (Call.pc_of_info? returned)).1 (by rw [version]; decide)
  rw [named, version] at describes
  exact ⟨began, reached, describes⟩

end UsdAsset.Resolver
