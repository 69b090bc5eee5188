import UsdAsset.Resolver.Versions

/-!
# Identities and destination policies

An identity is told to a caller whose policy covers one that the identifier was
reached under.  The record keeps every such policy and only the last metadata, so
a caller may be told what was captured under a policy that its own does not cover.
What is told stays within policy as long as each policy on record covers that of an
open that captured what is recorded next.
-/

namespace UsdAsset.Resolver

open ByteString Http Machine

namespace HttpResolver

variable {resolver : HttpResolver}

/-- The size and validator were captured by an open under a policy that this one covers. -/
def CapturedWithin (resolver : HttpResolver) (identifier : Bytes) (metadata : AssetMetadata)
    (policy : DestinationPolicy) : Prop :=
  ∃ performed ∈ resolver.performed, performed.identifier = identifier ∧
    performed.metadata.size = metadata.size ∧
    performed.metadata.validator = metadata.validator ∧
    policy.covers performed.options.destinations = true

/-- Whoever is answered from the table is told what was captured within its policy. -/
def TellsWithinPolicy (resolver : HttpResolver) : Prop :=
  ∀ identifier policy metadata contradicted,
    resolver.tables.knownIdentity identifier policy = some (metadata, contradicted) →
      resolver.CapturedWithin identifier metadata policy

/-- What the event records was captured within each policy its identifier was reached under. -/
def RecordsWithinPolicy (resolver : HttpResolver) (event : Event) : Prop :=
  ∀ record ∈ resolver.recordedBy event,
    ∀ identity ∈ resolver.tables.identities.entries record.identifier,
      ∀ policy ∈ identity.reachedUnder,
        resolver.CapturedWithin record.identifier record.metadata policy

theorem CapturedWithin.mono {next : HttpResolver} {identifier : Bytes} {metadata : AssetMetadata}
    {policy wider : DestinationPolicy}
    (captured : resolver.CapturedWithin identifier metadata policy)
    (covers : wider.covers policy = true)
    (kept : ∀ performed ∈ resolver.performed, performed ∈ next.performed) :
    next.CapturedWithin identifier metadata wider := by
  rcases captured with ⟨performed, performedMem, named, size, validator, covered⟩
  exact ⟨performed, kept performed performedMem, named, size, validator,
    DestinationPolicy.covers_trans covers covered⟩

/-- It is enough to look at the policies on record. -/
theorem tellsWithinPolicy_iff :
    resolver.TellsWithinPolicy ↔ ∀ identifier identity,
      resolver.tables.identities.entries identifier = some identity →
        ∀ policy ∈ identity.reachedUnder,
          resolver.CapturedWithin identifier identity.metadata policy := by
  constructor
  · intro tells identifier identity held policy policyMem
    refine tells identifier policy identity.metadata
      (((resolver.tables.fingerprints identifier).map Fingerprint.contradicted).getD false) ?_
    have reachable : identity.reachedUnder.any policy.covers = true :=
      List.any_eq_true.mpr ⟨policy, policyMem, DestinationPolicy.covers_self policy⟩
    simp only [IdentityTables.knownIdentity, held, if_pos reachable]
  · intro within identifier policy metadata contradicted known
    rcases IdentityTables.of_knownIdentity known with
      ⟨identity, held, rfl, ⟨reached, reachedMem, covers⟩, _⟩
    exact (within identifier identity held reached reachedMem).mono covers fun _ kept => kept

/-- Recording an open keeps what is told within policy exactly if the open is within policy. -/
theorem tellsWithinPolicy_step {next : HttpResolver} {event : Event}
    (consistent : resolver.Consistent) (traced : resolver.Traced)
    (tells : resolver.TellsWithinPolicy) (stepped : resolver.step event = some next) :
    next.TellsWithinPolicy ↔ resolver.RecordsWithinPolicy event := by
  rw [tellsWithinPolicy_iff] at tells ⊢
  have same := DestinationPolicy.covers_self
  rcases step_records stepped with
    ⟨record, records, tables, _, performed⟩ | ⟨silent, tables, _, performed⟩
  · rw [tables]
    have kept : ∀ opened, opened ∈ next.performed ↔ opened ∈ resolver.performed := by simp [performed]
    constructor
    · intro within other recordsOther before held policy policyMem
      rw [records, Option.mem_some_iff] at recordsOther
      subst recordsOther
      exact (within _ _ (IdentityTables.entries_rememberIdentity held) policy
        (Identity.mem_reached policyMem _ _)).mono (same policy) fun opened => (kept opened).mp
    · intro within identifier identity held policy policyMem
      rcases IdentityTables.of_rememberIdentity held with
        ⟨rfl, metadata, listed⟩ | ⟨different, before⟩
      · rw [metadata]
        rcases listed policy policyMem with rfl | ⟨before, known, earlier⟩
        · rcases performed_of_recordedBy consistent traced records with ⟨options, opened, reached⟩
          refine ⟨_, (kept _).mpr opened, rfl, rfl, rfl, ?_⟩
          rw [reached]
          exact same _
        · exact (within record records before known policy earlier).mono (same policy)
            fun opened => (kept opened).mpr
      · exact (tells identifier identity before policy policyMem).mono (same policy)
          fun opened => (kept opened).mpr
  · have within : ∀ identifier identity, next.tables.identities.entries identifier = some identity →
        resolver.tables.identities.entries identifier = some identity := by
      intro identifier identity held
      rcases tables with tables | ⟨evicted, tables⟩
      · rw [tables] at held
        exact held
      · rw [tables] at held
        exact (QueuedTable.of_erase held).2
    constructor
    · intro _ record records
      rw [silent] at records
      cases records
    · intro _ identifier identity held policy policyMem
      exact (tells identifier identity (within identifier identity held) policy policyMem).mono
        (same policy) performed

theorem recordedBy_of_stuck {event : Event} (stuck : resolver.step event = none) :
    resolver.recordedBy event = none := by
  cases event with
  | step callId answer =>
    simp only [step, recordedBy] at stuck ⊢
    cases found : resolver.calls[callId]? with
    | none => rfl
    | some call =>
      rw [found, Option.bind_some] at stuck
      simp only [Option.bind_some, recorded]
      split
      · rename_i entryId pc
        cases entryFound : resolver.entries[entryId]? with
        | none => rfl
        | some entry => simp [advance, pc, entryFound] at stuck
      · rename_i reader pc
        simp [advance, pc] at stuck
      · rfl
  | _ => rfl

/--
Along a run, asset info from the table stays within the policy of whoever asks exactly
if each open that is recorded captured what some open within every policy on record
for its identifier captured.
-/
theorem tellsWithinPolicy_throughout_iff (address : Addresses) (environment : StringMap)
    (events : List Event) :
    Throughout step TellsWithinPolicy (create address environment) events ↔
      AllowedRun step RecordsWithinPolicy (create address environment) events := by
  have kept : ∀ {state next : HttpResolver} {event : Event}, state.Consistent ∧ state.Traced →
      state.step event = some next → next.Consistent ∧ next.Traced := by
    rintro state next event ⟨consistent, traced⟩ stepped
    exact ⟨step_consistent consistent stepped, step_traced consistent traced stepped⟩
  refine throughout_iff_allowedRun kept ?_ ?_ ?_ ?_
  · rintro state event next ⟨consistent, traced⟩ tells stepped
    exact tellsWithinPolicy_step consistent traced tells stepped
  · intro state event stuck record records
    rw [recordedBy_of_stuck stuck] at records
    cases records
  · exact ⟨consistent_create _ _, traced_create _ _⟩
  · rw [tellsWithinPolicy_iff]
    intro identifier identity held
    cases held

end HttpResolver

/-! An asset is opened under two policies, between which it was published again. -/

def publicOnly : StringMap :=
  Std.ExtTreeMap.empty.insert (bytes "USD_HTTP_RESOLVER_DESTINATIONS") (bytes "public")

def publicPolicy : DestinationPolicy where
  privateNetworks := false
  loopback := false

/-- One stage opens the asset under the narrow policy, another under the default; the first asks. -/
def openedUnderPolicies : List Event :=
  [Event.call (.openAsset (bytes "http://host/a")) (some publicOnly) none] ++
    List.replicate 3 (Event.step 0 ⟨some (republishingServer fun _ => false), {}⟩) ++
    [Event.call (.openAsset (bytes "http://host/a")) none none] ++
    List.replicate 3 (Event.step 1 ⟨some (republishingServer fun _ => true), {}⟩) ++
    [Event.call (.getAssetInfo (bytes "http://host/a") []) (some publicOnly) none,
      Event.step 2 ⟨none, {}⟩]

/-- The later revision was only captured under policies that the narrow one does not cover. -/
def LaterOutside (performed : List Performed) : Prop :=
  ∀ opened ∈ performed, opened.metadata.validator.value = bytes "\"b\"" →
    publicPolicy.covers opened.options.destinations = false

instance (performed : List Performed) : Decidable (LaterOutside performed) :=
  inferInstanceAs (Decidable (∀ opened ∈ performed, _ → _))

/-- The stage with the narrow policy is told what the other one captured. -/
theorem tellsWithinPolicy_openedUnderPolicies :
    ∃ resolver call info,
      run HttpResolver.step (.create (fun _ => 0) ∅) openedUnderPolicies = some resolver ∧
        resolver.calls[2]? = some call ∧ call.policy = publicPolicy ∧ call.info? = some info ∧
        info.resolverInfo.map ResolverInfo.validationToken = some (bytes "\"b\"") ∧
        LaterOutside resolver.performed ∧
        ¬Throughout HttpResolver.step HttpResolver.TellsWithinPolicy (.create (fun _ => 0) ∅)
          openedUnderPolicies := by
  have observed : ((run HttpResolver.step (.create (fun _ => 0) ∅) openedUnderPolicies).bind
      fun resolver => (resolver.tables.knownIdentity (bytes "http://host/a") publicPolicy).bind
        fun known => resolver.calls[2]?.bind fun call => call.info?.map fun info =>
          (known.1.validator.value, call.policy,
            info.resolverInfo.map ResolverInfo.validationToken,
            decide (LaterOutside resolver.performed))) =
      some (bytes "\"b\"", publicPolicy, some (bytes "\"b\""), true) := by
    decide +kernel
  rcases Option.bind_eq_some_iff.mp observed with ⟨resolver, reached, observed⟩
  rcases Option.bind_eq_some_iff.mp observed with ⟨⟨metadata, contradicted⟩, known, observed⟩
  rcases Option.bind_eq_some_iff.mp observed with ⟨call, found, observed⟩
  rcases Option.map_eq_some_iff.mp observed with ⟨info, returned, seen⟩
  simp only [Prod.mk.injEq, decide_eq_true_eq] at seen
  rcases seen with ⟨value, policy, token, outside⟩
  refine ⟨resolver, call, info, reached, found, policy, returned, token, outside, ?_⟩
  intro throughout
  rcases throughout.atEnd reached _ _ _ _ known with ⟨opened, openedMem, _, _, validator, covers⟩
  rw [outside opened openedMem (by rw [validator]; exact value)] at covers
  cases covers

end UsdAsset.Resolver
