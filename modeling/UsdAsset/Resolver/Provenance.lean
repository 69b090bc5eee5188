import UsdAsset.Resolver.Retention

/-!
# Where identities come from

What is recorded of an identifier was captured by an open of that identifier, made
under the policy it is recorded under.  A reader may have been opened by another
call than the one that records it, so the opens are followed from the entry they
were made for to the call that took the reader out of it.
-/

namespace UsdAsset.Resolver

open ByteString Http Machine

variable {call : Call} {answer : Answer} {next : HttpResolver} {callId entryId : ℕ} {event : Event}

/-- The stability of metadata is that of its validator. -/
def Classified (metadata : AssetMetadata) : Prop :=
  metadata.stability = classifyStability metadata.validator

theorem classified_of_open {reader : HttpAssetReader} (opened : call.open answer = .ok reader) :
    Classified reader.metadata := by
  rcases httpOpen_of_open opened with ⟨transport, after, performed⟩
  simp only [httpOpen] at performed
  split at performed
  · cases performed
  · split at performed
    · cases performed
    · exact (describeAsset_metadata (congrArg Prod.fst performed)).2

namespace HttpResolver

/-- The metadata a call is about to record. -/
def recorded (resolver : HttpResolver) (call : Call) : Option AssetMetadata :=
  match call.pc with
  | .remember entryId => resolver.entries[entryId]?.map Opened.metadata
  | .rememberReader reader => some reader.metadata
  | _ => none

/-- What an event records of an identifier. -/
def recordedBy (resolver : HttpResolver) : Event → Option Remembered
  | .step callId _ =>
      resolver.calls[callId]?.bind fun call =>
        (resolver.recorded call).map fun metadata => ⟨call.identifier, metadata, call.policy⟩
  | _ => none

/-- An open of the call's identifier, under the call's options, captured the metadata. -/
def Captured (resolver : HttpResolver) (call : Call) (metadata : AssetMetadata) : Prop :=
  ⟨call.identifier, call.effective.transport, metadata⟩ ∈ resolver.performed

/-- Readers and entries are what opens on record made of them. -/
structure Traced (resolver : HttpResolver) : Prop where
  classified : ∀ performed ∈ resolver.performed, Classified performed.metadata
  opened : ∀ {entryId : ℕ} {entry : Opened}, resolver.entries[entryId]? = some entry →
    entry.succeeded = true → ∃ identifier options, entry.record.opens = [(identifier, options)] ∧
      ⟨identifier, options, entry.metadata⟩ ∈ resolver.performed
  retained : ∀ {entryId : ℕ} {entry : Opened}, resolver.entries[entryId]? = some entry →
    ∀ {reader : HttpAssetReader}, entry.reader = some reader →
      entry.succeeded = true ∧ reader.metadata = entry.metadata
  taken : ∀ {callId : ℕ} {call : Call}, resolver.calls[callId]? = some call →
    ∀ {reader : HttpAssetReader}, call.pc = .rememberReader reader →
      resolver.Captured call reader.metadata

theorem traced_create (address : Addresses) (environment : StringMap) :
    (create address environment).Traced := by
  constructor <;> simp [create]

variable {resolver : HttpResolver}

namespace Traced

variable (traced : resolver.Traced)

include traced

theorem of_eq (entries : next.entries = resolver.entries)
    (calls : next.calls = resolver.calls) (performed : next.performed = resolver.performed) :
    next.Traced := by
  rcases next with ⟨_, _, _, _, _, _, _, _, _, _⟩
  simp only at entries calls performed
  subst entries calls performed
  exact ⟨traced.classified, traced.opened, traced.retained, traced.taken⟩

theorem setPc (pc : Pc) (taken : ∀ {reader : HttpAssetReader}, pc = .rememberReader reader →
      resolver.Captured call reader.metadata) :
    (resolver.setPc callId call pc).Traced := by
  refine ⟨traced.classified, traced.opened, traced.retained, ?_⟩
  intro otherId other otherFound
  rcases getElem?_set_cases otherFound with ⟨rfl, rfl⟩ | ⟨_, otherFound⟩
  · exact taken
  · exact traced.taken otherFound

theorem setEntry {changed : Opened} (opened : changed.succeeded = true → ∃ identifier options,
      changed.record.opens = [(identifier, options)] ∧
        ⟨identifier, options, changed.metadata⟩ ∈ resolver.performed)
    (retained : ∀ {reader : HttpAssetReader}, changed.reader = some reader →
      changed.succeeded = true ∧ reader.metadata = changed.metadata) :
    (resolver.setEntry entryId changed).Traced := by
  refine ⟨traced.classified, ?_, ?_, traced.taken⟩
  · intro otherId other otherFound
    rcases getElem?_set_cases otherFound with ⟨rfl, rfl⟩ | ⟨_, otherFound⟩
    · exact opened
    · exact traced.opened otherFound
  · intro otherId other otherFound
    rcases getElem?_set_cases otherFound with ⟨rfl, rfl⟩ | ⟨_, otherFound⟩
    · exact retained
    · exact traced.retained otherFound

theorem setLockedBy {entry : Opened}
    (found : resolver.entries[entryId]? = some entry) (lockedBy : Option ℕ) :
    (resolver.setEntry entryId { entry with lockedBy }).Traced := by
  have opened := traced.opened found
  exact traced.setEntry opened fun present => traced.retained found present

theorem addEntry (key : Bytes) : { resolver with entries := resolver.entries ++ [Opened.fresh key] }.Traced := by
  refine ⟨traced.classified, ?_, ?_, traced.taken⟩
  · intro entryId entry found succeeded
    rcases getElem?_append_singleton found with found | ⟨_, rfl⟩
    · exact traced.opened found succeeded
    · cases succeeded
  · intro entryId entry found reader present
    rcases getElem?_append_singleton found with found | ⟨_, rfl⟩
    · exact traced.retained found present
    · cases present

theorem addCall (begins : ∀ {reader : HttpAssetReader}, call.pc ≠ .rememberReader reader) :
    { resolver with calls := resolver.calls ++ [call] }.Traced := by
  refine ⟨traced.classified, traced.opened, traced.retained, ?_⟩
  intro callId other found reader pc
  rcases getElem?_append_singleton found with found | ⟨_, rfl⟩
  · exact traced.taken found pc
  · exact absurd pc begins

theorem perform (call : Call) (answer : Answer) : { resolver with
      performed := resolver.performed ++ performedBy call (call.open answer) }.Traced := by
  refine ⟨?_, ?_, traced.retained, ?_⟩
  · intro performed performedMem
    rcases List.mem_append.mp performedMem with before | now
    · exact traced.classified performed before
    · cases opened : call.open answer with
      | error status => simp [performedBy, opened] at now
      | ok reader =>
        simp only [performedBy, opened, List.mem_singleton] at now
        rw [now]
        exact classified_of_open opened
  · intro entryId entry found succeeded
    rcases traced.opened found succeeded with ⟨identifier, options, opens, performed⟩
    exact ⟨identifier, options, opens, List.mem_append_left _ performed⟩
  · intro callId other found reader pc
    exact List.mem_append_left _ (traced.taken found pc)

end Traced

theorem captured_of_opened {entry : Opened} (consistent : resolver.Consistent)
    (traced : resolver.Traced) (found : resolver.calls[callId]? = some call)
    (entryFound : resolver.entries[entryId]? = some entry) (at_ : call.pc.entryId? = some entryId)
    (succeeded : entry.succeeded = true) :
    resolver.Captured call entry.metadata := by
  have admits := consistent.admitted found at_ entryFound
  rcases traced.opened entryFound succeeded with ⟨identifier, options, opens, performed⟩
  rcases consistent.opens_eq found entryFound admits.key_eq.symm opens with ⟨rfl, rfl⟩
  exact performed

/-- What a call records was captured by an open of its own identifier and options. -/
theorem captured_of_recorded {metadata : AssetMetadata} (consistent : resolver.Consistent)
    (traced : resolver.Traced) (found : resolver.calls[callId]? = some call)
    (records : resolver.recorded call = some metadata) : resolver.Captured call metadata := by
  simp only [recorded] at records
  split at records
  · rename_i entryId pc
    rcases Option.map_eq_some_iff.mp records with ⟨entry, entryFound, rfl⟩
    have at_ : call.pc.entryId? = some entryId := by rw [pc]; rfl
    exact captured_of_opened consistent traced found entryFound at_
      ((consistent.admitted found at_ entryFound).succeeded pc)
  · rename_i reader pc
    cases records
    exact traced.taken found pc
  · cases records

theorem Advances.traced (advances : Advances resolver callId call answer next)
    (consistent : resolver.Consistent) (traced : resolver.Traced)
    (found : resolver.calls[callId]? = some call) : next.Traced := by
  cases advances with
  | creates pc absent =>
    exact ((traced.addEntry call.key).setPc (.lock resolver.entries.length) (by simp)).of_eq rfl rfl
      rfl
  | locks pc entryFound free =>
    exact (traced.setLockedBy entryFound (some callId)).setPc _ (by simp)
  | failsAssetInfo pc entryFound opened failed asks =>
    exact (traced.setLockedBy entryFound none).setPc _ (by simp)
  | performs pc entryFound =>
    have admits := consistent.admitted found (by rw [pc]; rfl) entryFound
    have unopened := admits.unopened pc
    rcases (consistent.sound entryFound).unopened unopened with ⟨unperformed, failed, absent, _⟩
    refine ((traced.perform call answer).setEntry ?_ ?_).setPc _ (by simp)
    · cases call.open answer with
      | error status => simp [Opened.performed, failed]
      | ok reader => simp [Opened.performed, performedBy, unperformed]
    · cases call.open answer <;> simp [Opened.performed]
  | remembers pc entryFound =>
    refine ((traced.setLockedBy entryFound none).setPc _ ?_).of_eq rfl rfl rfl
    split <;> simp
  | forgets pc entryFound =>
    simp only [HttpResolver.forget]
    split
    · exact (traced.setPc (.returned (.info {})) (by simp)).of_eq rfl rfl rfl
    · exact ((traced.setLockedBy entryFound none).setPc (.scopeInsert []) (by simp)).of_eq rfl rfl
        rfl
  | scopeInserts pc =>
    exact (traced.setPc (.returned (.path _)) (by simp)).of_eq rfl rfl rfl
  | @takes entryId pc held =>
    exact (traced.setPc (.taken entryId) (by simp)).of_eq rfl rfl rfl
  | hands pc entryFound free present =>
    rcases traced.retained entryFound present with ⟨succeeded, metadata⟩
    have opened := traced.opened entryFound
    have captured := captured_of_opened consistent traced found entryFound (by rw [pc]; rfl)
      succeeded
    rw [← metadata] at captured
    refine (traced.setEntry ?_ ?_).setPc _ ?_
    · exact opened
    · simp [Opened.handed]
    · rintro _ ⟨⟩
      exact captured
  | failsFresh pc failed =>
    exact (traced.setPc (.returned (.asset none)) (by simp)).of_eq rfl rfl rfl
  | opensFresh pc opened =>
    have performs := traced.perform call answer
    rw [opened] at performs
    refine performs.setPc _ ?_
    rintro reader ⟨⟩
    exact List.mem_append_right _ (List.mem_singleton_self _)
  | @remembersReader reader pc =>
    exact (traced.setPc (.returned (.asset (some reader))) (by simp)).of_eq rfl rfl rfl
  | _ => exact traced.setPc _ (by simp)

theorem step_traced (consistent : resolver.Consistent) (traced : resolver.Traced)
    (stepped : resolver.step event = some next) : next.Traced := by
  rcases step_cases stepped with
    ⟨request, context, scope, _, rfl⟩ | ⟨callId, answer, call, _, found, advances⟩ |
    ⟨identifier, _, rfl⟩
  · refine traced.addCall ?_
    intro reader
    simp only [begin]
    split
    · simp
    · cases request <;> rintro ⟨⟩
  · exact advances.traced consistent traced found
  · exact traced.of_eq rfl rfl rfl

/-! ### What a step leaves on record -/

theorem Advances.of_recorded_some {metadata : AssetMetadata}
    (advances : Advances resolver callId call answer next)
    (records : resolver.recorded call = some metadata) :
    next.tables = (resolver.withIdentity call metadata).tables ∧
      next.remembered = (resolver.withIdentity call metadata).remembered ∧
      next.performed = resolver.performed := by
  cases advances with
  | remembers pc entryFound =>
    simp only [recorded, pc, entryFound, Option.map_some, Option.some.injEq] at records
    rw [← records]
    exact ⟨rfl, rfl, rfl⟩
  | remembersReader pc =>
    simp only [recorded, pc, Option.some.injEq] at records
    rw [← records]
    exact ⟨rfl, rfl, rfl⟩
  | _ => simp [recorded, *] at records

theorem Advances.of_recorded_none (advances : Advances resolver callId call answer next)
    (silent : resolver.recorded call = none) :
    next.tables = resolver.tables ∧ next.remembered = resolver.remembered ∧
      ∀ performed ∈ resolver.performed, performed ∈ next.performed := by
  cases advances with
  | remembers pc entryFound => simp [recorded, pc, entryFound] at silent
  | remembersReader pc => simp [recorded, pc] at silent
  | forgets pc entryFound =>
    simp only [forget]
    split <;> exact ⟨rfl, rfl, fun _ kept => kept⟩
  | performs pc entryFound => exact ⟨rfl, rfl, fun _ kept => List.mem_append_left _ kept⟩
  | opensFresh pc opened => exact ⟨rfl, rfl, fun _ kept => List.mem_append_left _ kept⟩
  | _ => exact ⟨rfl, rfl, fun _ kept => kept⟩

theorem step_records (stepped : resolver.step event = some next) :
    (∃ record, resolver.recordedBy event = some record ∧
      next.tables = (resolver.tables.rememberIdentity record.identifier record.metadata
        record.reachedUnder).2 ∧
      next.remembered = resolver.remembered ++ [record] ∧
      next.performed = resolver.performed) ∨
    (resolver.recordedBy event = none ∧
      (next.tables = resolver.tables ∨
        ∃ identifier, next.tables = resolver.tables.evict identifier) ∧
      next.remembered = resolver.remembered ∧
      ∀ performed ∈ resolver.performed, performed ∈ next.performed) := by
  rcases step_cases stepped with
    ⟨request, context, scope, rfl, rfl⟩ | ⟨callId, answer, call, rfl, found, advances⟩ |
    ⟨identifier, rfl, rfl⟩
  · exact Or.inr ⟨rfl, Or.inl rfl, rfl, fun _ kept => kept⟩
  · cases records : resolver.recorded call with
    | none =>
      rcases advances.of_recorded_none records with ⟨tables, remembered, performed⟩
      exact Or.inr ⟨by simp [recordedBy, found, records], Or.inl tables, remembered, performed⟩
    | some metadata =>
      rcases advances.of_recorded_some records with ⟨tables, remembered, performed⟩
      exact Or.inl ⟨⟨call.identifier, metadata, call.policy⟩,
        by simp [recordedBy, found, records], tables, remembered, performed⟩
  · exact Or.inr ⟨rfl, Or.inr ⟨identifier, rfl⟩, rfl, fun _ kept => kept⟩

/-- What is recorded was captured by an open under the policy it is recorded under. -/
theorem performed_of_recordedBy {record : Remembered} (consistent : resolver.Consistent)
    (traced : resolver.Traced) (records : resolver.recordedBy event = some record) :
    ∃ options, ⟨record.identifier, options, record.metadata⟩ ∈ resolver.performed ∧
      options.destinations = record.reachedUnder := by
  cases event with
  | step callId answer =>
    rcases Option.bind_eq_some_iff.mp records with ⟨call, found, mapped⟩
    rcases Option.map_eq_some_iff.mp mapped with ⟨metadata, recorded, rfl⟩
    exact ⟨_, captured_of_recorded consistent traced found recorded, rfl⟩
  | _ => cases records

end HttpResolver

end UsdAsset.Resolver
