import UsdAsset.Http.Binding
import UsdAsset.Resolver.HttpResolver

/-!
# Retained opens

An entry is opened under its mutex, by the first call that finds it unopened, and
its reader leaves with the one call that took the entry out of the table.  Entries
are removed and made again under one key while calls still hold the old ones, so
the invariant is kept per entry and not per key.
-/

namespace UsdAsset.Resolver

open ByteString Http Machine

variable {call : Call} {answer : Answer} {reader : HttpAssetReader} {address : Addresses}
  {callId entryId : ℕ} {entry : Opened} {next : HttpResolver}

/-! ### Opens -/

theorem httpOpen_of_open (opened : call.open answer = .ok reader) :
    ∃ transport after, httpOpen call.identifier call.effective.transport (some transport)
      answer.wire = (.ok reader, after) := by
  rcases answer with ⟨factory, wire⟩
  cases factory with
  | none =>
    simp only [Call.open, httpOpen] at opened
    split at opened <;> cases opened
  | some transport => exact ⟨transport, _, Prod.ext opened rfl⟩

theorem options_of_open (opened : call.open answer = .ok reader) :
    reader.options = call.effective.transport := by
  rcases httpOpen_of_open opened with ⟨transport, after, performed⟩
  rcases httpOpen_opened performed with ⟨_, _, _, _, captured⟩
  exact captured.options_eq

/-! ### Entries -/

/-- The entry a call is about to lock, open, remember, forget or empty. -/
def Pc.entryId? : Pc → Option ℕ
  | .lock entryId | .locked entryId | .opening entryId | .remember entryId | .forget entryId
  | .taken entryId => some entryId
  | _ => none

/-- Whether a call holds the mutex of the entry it is at. -/
def Call.holds (call : Call) : Bool :=
  match call.pc with
  | .locked _ | .opening _ | .remember _ => true
  | .forget _ => !call.request.isAssetInfo
  | _ => false

/-- What a call relies on of the entry it is at. -/
structure Opened.Admits (entry : Opened) (callId : ℕ) (call : Call) : Prop where
  key_eq : entry.record.key = call.key
  locked : call.holds = true → entry.lockedBy = some callId
  unopened : ∀ {entryId : ℕ}, call.pc = .opening entryId → entry.opened = false
  succeeded : ∀ {entryId : ℕ}, call.pc = .remember entryId → entry.succeeded = true
  failed : ∀ {entryId : ℕ}, call.pc = .forget entryId →
    entry.opened = true ∧ entry.succeeded = false

/-- What an entry was opened with, if it was opened. -/
structure Opened.Sound (address : Addresses) (entry : Opened) : Prop where
  unopened : entry.opened = false → entry.record.opens = [] ∧ entry.succeeded = false ∧
    entry.reader = none ∧ entry.record.handedTo = []
  opened : entry.opened = true → ∃ identifier lookup,
    entry.record.opens = [(identifier, (configurationFrom lookup).1.transport)] ∧
      entry.record.key = openKey identifier
        (transportFingerprint address (configurationFrom lookup).1.transport)
  retained : ∀ reader, entry.reader = some reader → entry.record.handedTo = [] ∧
    ∃ identifier, entry.record.opens = [(identifier, reader.options)]
  handedOnce : entry.record.handedTo.length ≤ 1

namespace Opened

variable {holder : ℕ}

section

variable (admits : entry.Admits callId call)

include admits

/-- Nobody relies on a mutex that is free. -/
theorem Admits.lock (free : entry.lockedBy = none)
    (lockedBy : Option ℕ) : { entry with lockedBy }.Admits callId call := by
  refine { admits with locked := ?_ }
  intro holds
  have held := admits.locked holds
  rw [free] at held
  cases held

/-- Nobody but its holder relies on a mutex that is held. -/
theorem Admits.unlock (held : entry.lockedBy = some holder)
    (released : callId = holder → call.holds = false) :
    { entry with lockedBy := none }.Admits callId call := by
  refine { admits with locked := ?_ }
  intro holds
  have same := admits.locked holds
  rw [held, Option.some.injEq] at same
  rw [released same.symm] at holds
  cases holds

/-- The open of an entry concerns nobody but the holder of its mutex. -/
theorem Admits.perform (held : entry.lockedBy = some holder) (unopened : entry.opened = false)
    (settled : callId = holder → ∃ entryId, call.pc = .locked entryId) (identifier : Bytes)
    (options : HttpOptions) (result : Except Status HttpAssetReader) :
    (entry.performed identifier options result).Admits callId call := by
  have settles : call.holds = true → ∃ entryId, call.pc = .locked entryId := by
    intro holds
    have same := admits.locked holds
    rw [held, Option.some.injEq] at same
    exact settled same.symm
  have elsewhere : ∀ {pc : Pc}, call.pc = pc → call.holds = true →
      (∀ entryId, pc ≠ .locked entryId) → False := by
    intro pc at_ holds other
    rcases settles holds with ⟨entryId, locked⟩
    exact other entryId (at_.symm.trans locked)
  have fields : (entry.performed identifier options result).record.key = entry.record.key ∧
      (entry.performed identifier options result).lockedBy = entry.lockedBy := by
    cases result <;> exact ⟨rfl, rfl⟩
  refine ⟨fields.1.trans admits.key_eq, fun holds => fields.2.trans (admits.locked holds), ?_, ?_, ?_⟩
  · intro entryId opening
    exact (elsewhere opening (by simp [Call.holds, opening]) (by simp)).elim
  · intro entryId remember
    exact (elsewhere remember (by simp [Call.holds, remember]) (by simp)).elim
  · intro entryId forget
    have opened := (admits.failed forget).1
    rw [unopened] at opened
    cases opened

theorem Admits.hand (taker : ℕ) (reader : HttpAssetReader) :
    (entry.handed taker reader).Admits callId call :=
  { admits with }

end

theorem Sound.lock (sound : entry.Sound address) (lockedBy : Option ℕ) :
    { entry with lockedBy }.Sound address :=
  { sound with }

theorem Sound.hand (sound : entry.Sound address) (present : entry.reader = some reader)
    (taker : ℕ) :
    (entry.handed taker reader).Sound address := by
  rcases sound.retained reader present with ⟨kept, _⟩
  refine ⟨?_, sound.opened, by simp [Opened.handed], by simp [Opened.handed, kept]⟩
  intro unopened
  have absent := (sound.unopened unopened).2.2.1
  rw [present] at absent
  cases absent

theorem sound_fresh (address : Addresses) (key : Bytes) : (Opened.fresh key).Sound address := by
  constructor <;> simp [Opened.fresh]

/-- The first open of an entry, by a call with its key. -/
theorem Sound.perform (sound : entry.Sound address) (unopened : entry.opened = false)
    {lookup : EnvironmentLookup}
    (configured : call.effective = effectiveFrom address (configurationFrom lookup).1)
    (key : entry.record.key = call.key) (answer : Answer) :
    (entry.performed call.identifier call.effective.transport (call.open answer)).Sound address := by
  rcases sound.unopened unopened with ⟨unperformed, failed, absent, kept⟩
  have opens : (entry.performed call.identifier call.effective.transport
      (call.open answer)).record.opens = [(call.identifier, call.effective.transport)] := by
    cases call.open answer <;> simp [Opened.performed, unperformed]
  have handedTo : (entry.performed call.identifier call.effective.transport
      (call.open answer)).record.handedTo = [] := by
    cases call.open answer <;> exact kept
  constructor
  · cases call.open answer <;> simp [Opened.performed]
  · intro _
    refine ⟨call.identifier, lookup, ?_, ?_⟩
    · rw [opens, configured]
      rfl
    · have keyKept : (entry.performed call.identifier call.effective.transport
          (call.open answer)).record.key = entry.record.key := by
        cases call.open answer <;> rfl
      rw [keyKept, key, Call.key, configured]
      rfl
  · intro reader present
    refine ⟨handedTo, call.identifier, ?_⟩
    rw [opens]
    cases opened : call.open answer with
    | error status => simp [opened, Opened.performed] at present
    | ok found =>
      simp only [opened, Opened.performed, Option.some.injEq] at present
      rw [← present, options_of_open opened]
  · simp [handedTo]

end Opened

/-- A call whose pc only an `_OpenAsset` reaches is one. -/
def Call.Routed (call : Call) : Prop :=
  match call.pc with
  | .take | .taken _ | .openFresh | .rememberReader _ => ∃ path, call.request = .openAsset path
  | _ => True

/-! ### The invariant -/

/-- A reader was handed to an `_OpenAsset` that has the key of the reader's entry. -/
def HandedOver (calls : List Call) (record : OpenedRecord) (handed : ℕ × HttpAssetReader) : Prop :=
  ∃ call path, calls[handed.1]? = some call ∧ call.request = .openAsset path ∧
    call.key = record.key ∧ ∃ identifier, record.opens = [(identifier, handed.2.options)]

structure HttpResolver.Consistent (resolver : HttpResolver) : Prop where
  wellFormed : resolver.table.WellFormed maxRetainedOpens
  keyed : ∀ {key : Bytes} {entryId : ℕ}, resolver.table.entries key = some entryId →
    ∃ entry, resolver.entries[entryId]? = some entry ∧ entry.record.key = key
  sound : ∀ {entryId : ℕ} {entry : Opened}, resolver.entries[entryId]? = some entry →
    entry.Sound resolver.address
  configured : ∀ {callId : ℕ} {call : Call}, resolver.calls[callId]? = some call →
    ∃ lookup, call.effective = effectiveFrom resolver.address (configurationFrom lookup).1
  routed : ∀ {callId : ℕ} {call : Call}, resolver.calls[callId]? = some call → call.Routed
  admits : ∀ {callId : ℕ} {call : Call} {entryId : ℕ}, resolver.calls[callId]? = some call →
    call.pc.entryId? = some entryId →
    ∃ entry, resolver.entries[entryId]? = some entry ∧ entry.Admits callId call
  handed : ∀ {entryId : ℕ} {entry : Opened}, resolver.entries[entryId]? = some entry →
    ∀ handed ∈ entry.record.handedTo, HandedOver resolver.calls entry.record handed

namespace HttpResolver

theorem consistent_create (address : Addresses) (environment : StringMap) :
    (create address environment).Consistent := by
  refine ⟨QueuedTable.wellFormed_empty _, ?_, ?_, ?_, ?_, ?_, ?_⟩ <;>
    simp [create, QueuedTable.empty]

variable {resolver : HttpResolver}

namespace Consistent

variable (consistent : resolver.Consistent)

include consistent

theorem setPc (found : resolver.calls[callId]? = some call)
    (pc : Pc) (routed : { call with pc }.Routed) (admits : ∀ entryId, pc.entryId? = some entryId →
      ∃ entry, resolver.entries[entryId]? = some entry ∧ entry.Admits callId { call with pc }) :
    (resolver.setPc callId call pc).Consistent where
  wellFormed := consistent.wellFormed
  keyed := consistent.keyed
  sound := consistent.sound
  configured := by
    intro otherId other otherFound
    rcases getElem?_set_cases otherFound with ⟨rfl, rfl⟩ | ⟨_, otherFound⟩
    · rcases consistent.configured found with ⟨lookup, effective⟩
      exact ⟨lookup, effective⟩
    · exact consistent.configured otherFound
  routed := by
    intro otherId other otherFound
    rcases getElem?_set_cases otherFound with ⟨rfl, rfl⟩ | ⟨_, otherFound⟩
    · exact routed
    · exact consistent.routed otherFound
  admits := by
    intro otherId other entryId otherFound at_
    rcases getElem?_set_cases otherFound with ⟨rfl, rfl⟩ | ⟨_, otherFound⟩
    · exact admits entryId at_
    · exact consistent.admits otherFound at_
  handed := by
    intro entryId entry entryFound handed handedMem
    rcases consistent.handed entryFound handed handedMem with
      ⟨other, path, otherFound, opensAsset, key, opened⟩
    by_cases same : handed.1 = callId
    · rw [same, found, Option.some.injEq] at otherFound
      subst otherFound
      refine ⟨{ call with pc }, path, ?_, opensAsset, key, opened⟩
      rw [same]
      exact List.getElem?_set_self (List.getElem?_eq_some_iff.mp found).1
    · refine ⟨other, path, ?_, opensAsset, key, opened⟩
      exact (List.getElem?_set_ne (Ne.symm same)).trans otherFound

theorem setEntry {changed : Opened}
    (found : resolver.entries[entryId]? = some entry)
    (key : changed.record.key = entry.record.key) (sound : changed.Sound resolver.address)
    (admits : ∀ {callId : ℕ} {call : Call}, resolver.calls[callId]? = some call →
      call.pc.entryId? = some entryId → entry.Admits callId call → changed.Admits callId call)
    (handed : ∀ handed ∈ changed.record.handedTo,
      HandedOver resolver.calls changed.record handed) :
    (resolver.setEntry entryId changed).Consistent := by
  have changedFound : (resolver.entries.set entryId changed)[entryId]? = some changed :=
    List.getElem?_set_self (List.getElem?_eq_some_iff.mp found).1
  have otherFound : ∀ {otherId : ℕ} {other : Opened}, otherId ≠ entryId →
      resolver.entries[otherId]? = some other →
      (resolver.entries.set entryId changed)[otherId]? = some other := by
    intro otherId other different present
    exact (List.getElem?_set_ne (Ne.symm different)).trans present
  constructor
  · exact consistent.wellFormed
  · intro keyOf otherId held
    rcases consistent.keyed held with ⟨other, otherAt, otherKey⟩
    by_cases same : otherId = entryId
    · subst same
      rw [found, Option.some.injEq] at otherAt
      subst otherAt
      exact ⟨changed, changedFound, key.trans otherKey⟩
    · exact ⟨other, otherFound same otherAt, otherKey⟩
  · intro otherId other otherAt
    rcases getElem?_set_cases otherAt with ⟨_, rfl⟩ | ⟨_, otherAt⟩
    · exact sound
    · exact consistent.sound otherAt
  · exact consistent.configured
  · exact consistent.routed
  · intro callId call otherId callFound at_
    rcases consistent.admits callFound at_ with ⟨other, otherAt, admitted⟩
    by_cases same : otherId = entryId
    · subst same
      rw [found, Option.some.injEq] at otherAt
      subst otherAt
      exact ⟨changed, changedFound, admits callFound at_ admitted⟩
    · exact ⟨other, otherFound same otherAt, admitted⟩
  · intro otherId other otherAt
    rcases getElem?_set_cases otherAt with ⟨_, rfl⟩ | ⟨_, otherAt⟩
    · exact handed
    · exact consistent.handed otherAt

theorem of_eq (address : next.address = resolver.address)
    (table : next.table = resolver.table) (entries : next.entries = resolver.entries)
    (calls : next.calls = resolver.calls) :
    next.Consistent := by
  rcases next with ⟨_, _, _, _, _, _, _, _, _, _⟩
  simp only at address table entries calls
  subst address table entries calls
  exact { consistent with }

theorem setTable {table : QueuedTable Bytes ℕ}
    (wellFormed : table.WellFormed maxRetainedOpens)
    (keyed : ∀ {key : Bytes} {entryId : ℕ}, table.entries key = some entryId →
      ∃ entry, resolver.entries[entryId]? = some entry ∧ entry.record.key = key) :
    { resolver with table }.Consistent :=
  { consistent with wellFormed, keyed }

theorem erase (key : Bytes) :
    { resolver with table := resolver.table.erase key }.Consistent :=
  consistent.setTable (consistent.wellFormed.erase key) fun held =>
    consistent.keyed (QueuedTable.of_erase held).2

theorem forgotten (call : Call) (entryId : ℕ) :
    { resolver with table := resolver.forgotten call entryId }.Consistent := by
  simp only [HttpResolver.forgotten]
  split
  · exact consistent.erase call.key
  · exact consistent

theorem lock (found : resolver.entries[entryId]? = some entry)
    (free : entry.lockedBy = none) (callId : ℕ) :
    (resolver.setEntry entryId { entry with lockedBy := some callId }).Consistent :=
  consistent.setEntry found rfl ((consistent.sound found).lock (some callId))
    (fun _ _ admits => admits.lock free (some callId))
    fun handed handedMem => consistent.handed found handed handedMem

theorem release (callFound : resolver.calls[callId]? = some call) (released : call.holds = false)
    (found : resolver.entries[entryId]? = some entry) (held : entry.lockedBy = some callId) :
    (resolver.setUnlocked entryId entry).Consistent := by
  refine consistent.setEntry found rfl ((consistent.sound found).lock none) ?_
    fun handed handedMem => consistent.handed found handed handedMem
  intro otherId other otherFound _ admits
  refine admits.unlock held ?_
  rintro rfl
  rw [callFound, Option.some.injEq] at otherFound
  exact otherFound ▸ released

theorem addEntry (key : Bytes) :
    { resolver with entries := resolver.entries ++ [Opened.fresh key] }.Consistent where
  wellFormed := consistent.wellFormed
  keyed := by
    intro other entryId held
    rcases consistent.keyed held with ⟨entry, found, keyEq⟩
    exact ⟨entry, getElem?_append_of_some _ found, keyEq⟩
  sound := by
    intro entryId entry found
    rcases getElem?_append_singleton found with found | ⟨_, rfl⟩
    · exact consistent.sound found
    · exact Opened.sound_fresh resolver.address key
  configured := consistent.configured
  routed := consistent.routed
  admits := by
    intro callId call entryId callFound at_
    rcases consistent.admits callFound at_ with ⟨entry, found, admitted⟩
    exact ⟨entry, getElem?_append_of_some _ found, admitted⟩
  handed := by
    intro entryId entry found
    rcases getElem?_append_singleton found with found | ⟨_, rfl⟩
    · exact consistent.handed found
    · simp [Opened.fresh]

theorem addCall (configured : ∃ lookup,
      call.effective = effectiveFrom resolver.address (configurationFrom lookup).1)
    (routed : call.Routed) (nowhere : call.pc.entryId? = none) :
    { resolver with calls := resolver.calls ++ [call] }.Consistent where
  wellFormed := consistent.wellFormed
  keyed := consistent.keyed
  sound := consistent.sound
  configured := by
    intro callId other found
    rcases getElem?_append_singleton found with found | ⟨_, rfl⟩
    · exact consistent.configured found
    · exact configured
  routed := by
    intro callId other found
    rcases getElem?_append_singleton found with found | ⟨_, rfl⟩
    · exact consistent.routed found
    · exact routed
  admits := by
    intro callId other entryId found at_
    rcases getElem?_append_singleton found with found | ⟨_, rfl⟩
    · exact consistent.admits found at_
    · rw [nowhere] at at_
      cases at_
  handed := by
    intro entryId entry found handed handedMem
    rcases consistent.handed found handed handedMem with ⟨call, path, callFound, rest⟩
    exact ⟨call, path, getElem?_append_of_some _ callFound, rest⟩

theorem admitted (found : resolver.calls[callId]? = some call)
    (at_ : call.pc.entryId? = some entryId) (entryFound : resolver.entries[entryId]? = some entry) :
    entry.Admits callId call := by
  rcases consistent.admits found at_ with ⟨same, sameFound, admits⟩
  rw [entryFound, Option.some.injEq] at sameFound
  exact sameFound ▸ admits

theorem begin (request : Request) (context : Option StringMap)
    (scope : Option ℕ) :
    { resolver with
      calls := resolver.calls ++ [resolver.begin request context scope] }.Consistent := by
  refine consistent.addCall (exists_effectiveFrom _ _ _) ?_ ?_
  · by_cases unserved : createIdentifier request.path [] = []
    · simp only [HttpResolver.begin, Call.Routed, if_pos unserved]
    · simp only [HttpResolver.begin, Call.Routed, if_neg unserved]
      cases request <;> simp [Request.start]
  · simp only [HttpResolver.begin]
    split
    · rfl
    · cases request <;> rfl

end Consistent

theorem Advances.consistent (advances : Advances resolver callId call answer next)
    (consistent : resolver.Consistent) (found : resolver.calls[callId]? = some call) :
    next.Consistent := by
  have moved : ∀ {pc : Pc}, (resolver.setPc callId call pc).calls[callId]? =
      some { call with pc } :=
    List.getElem?_set_self (List.getElem?_eq_some_iff.mp found).1
  cases advances with
  | scopeHit | scopeMiss | knows | asks | declines => exact consistent.setPc found _ trivial nofun
  | finds pc held =>
    refine consistent.setPc found _ trivial ?_
    rintro entryId ⟨⟩
    rcases consistent.keyed held with ⟨entry, entryFound, key⟩
    exact ⟨entry, entryFound, key, nofun, nofun, nofun, nofun⟩
  | creates pc absent =>
    have added := consistent.addEntry call.key
    have created : (resolver.entries ++ [Opened.fresh call.key])[resolver.entries.length]? =
        some (Opened.fresh call.key) := List.getElem?_concat_length
    refine (added.setTable (consistent.wellFormed.insert (by decide) absent _) ?_).setPc found _
      trivial ?_
    · intro key entryId held
      rcases QueuedTable.of_insert held with ⟨rfl, rfl⟩ | before
      · exact ⟨_, created, rfl⟩
      · exact added.keyed before
    · rintro entryId ⟨⟩
      exact ⟨_, created, rfl, nofun, nofun, nofun, nofun⟩
  | locks pc entryFound free =>
    have admits := consistent.admitted found (by rw [pc]; rfl) entryFound
    refine (consistent.lock entryFound free callId).setPc found _ trivial ?_
    rintro entryId ⟨⟩
    refine ⟨_, List.getElem?_set_self (List.getElem?_eq_some_iff.mp entryFound).1, ?_⟩
    exact ⟨admits.key_eq, fun _ => rfl, nofun, nofun, nofun⟩
  | opens pc entryFound unopened =>
    have admits := consistent.admitted found (by rw [pc]; rfl) entryFound
    refine consistent.setPc found _ trivial ?_
    rintro entryId ⟨⟩
    exact ⟨_, entryFound, admits.key_eq, fun _ => admits.locked (by simp [Call.holds, pc]),
      fun _ => unopened, nofun, nofun⟩
  | succeeds pc entryFound succeeded =>
    have admits := consistent.admitted found (by rw [pc]; rfl) entryFound
    refine consistent.setPc found _ trivial ?_
    rintro entryId ⟨⟩
    exact ⟨_, entryFound, admits.key_eq, fun _ => admits.locked (by simp [Call.holds, pc]),
      nofun, fun _ => succeeded, nofun⟩
  | failsResolve pc entryFound opened failed resolves =>
    have admits := consistent.admitted found (by rw [pc]; rfl) entryFound
    refine consistent.setPc found _ trivial ?_
    rintro entryId ⟨⟩
    exact ⟨_, entryFound, admits.key_eq, fun _ => admits.locked (by simp [Call.holds, pc]),
      nofun, nofun, fun _ => ⟨opened, failed⟩⟩
  | @failsAssetInfo entryId entry pc entryFound opened failed asks =>
    have admits := consistent.admitted found (by rw [pc]; rfl) entryFound
    have forgets : (resolver.setPc callId call (.forget entryId)).Consistent := by
      refine consistent.setPc found _ trivial ?_
      rintro entryId ⟨⟩
      exact ⟨_, entryFound, admits.key_eq, by simp [Call.holds, asks], nofun, nofun,
        fun _ => ⟨opened, failed⟩⟩
    exact forgets.release moved (by simp [Call.holds, asks]) entryFound
      (admits.locked (by simp [Call.holds, pc]))
  | @performs entryId entry pc entryFound =>
    have admits := consistent.admitted found (by rw [pc]; rfl) entryFound
    have held := admits.locked (by simp [Call.holds, pc])
    have unopened := admits.unopened pc
    rcases consistent.configured found with ⟨lookup, configured⟩
    have settles : (resolver.setPc callId call (.locked entryId)).Consistent := by
      refine consistent.setPc found _ trivial ?_
      rintro entryId ⟨⟩
      exact ⟨_, entryFound, admits.key_eq, fun _ => held, nofun, nofun, nofun⟩
    have key : (entry.performed call.identifier call.effective.transport
        (call.open answer)).record.key = entry.record.key := by
      cases call.open answer <;> rfl
    refine (settles.setEntry entryFound key ((consistent.sound entryFound).perform unopened
      configured admits.key_eq answer) ?_ ?_).of_eq rfl rfl rfl rfl
    · intro otherId other otherFound _ otherAdmits
      refine otherAdmits.perform held unopened ?_ _ _ _
      rintro rfl
      rw [moved, Option.some.injEq] at otherFound
      exact ⟨entryId, otherFound ▸ rfl⟩
    · have kept := ((consistent.sound entryFound).unopened unopened).2.2.2
      cases call.open answer <;> simp [Opened.performed, kept]
  | @remembers entryId entry pc entryFound =>
    have admits := consistent.admitted found (by rw [pc]; rfl) entryFound
    have held := admits.locked (by simp [Call.holds, pc])
    simp only [HttpResolver.remember]
    split
    · have settles := consistent.setPc found (.returned (.info (assetInfo entry.metadata
        (resolver.contradictedBy call entry.metadata)))) trivial nofun
      exact (settles.release moved rfl entryFound held).of_eq rfl rfl rfl rfl
    · have settles := consistent.setPc found (.scopeInsert call.identifier) trivial nofun
      exact (settles.release moved rfl entryFound held).of_eq rfl rfl rfl rfl
  | @forgets entryId entry pc entryFound =>
    have admits := consistent.admitted found (by rw [pc]; rfl) entryFound
    simp only [HttpResolver.forget]
    split
    · exact (consistent.forgotten call entryId).setPc found _ trivial nofun
    · rename_i resolves
      have settles := (consistent.forgotten call entryId).setPc found (.scopeInsert []) trivial
        nofun
      refine (settles.release moved rfl entryFound (admits.locked ?_)).of_eq rfl rfl rfl rfl
      simpa [Call.holds, pc] using resolves
  | scopeInserts pc =>
    exact (consistent.setPc found (.returned (.path _)) trivial nofun).of_eq rfl rfl rfl rfl
  | takes pc held =>
    have routed := consistent.routed found
    simp only [Call.Routed, pc] at routed
    refine (consistent.erase call.key).setPc found _ routed ?_
    rintro entryId ⟨⟩
    rcases consistent.keyed held with ⟨entry, entryFound, key⟩
    exact ⟨entry, entryFound, key, nofun, nofun, nofun, nofun⟩
  | takesNothing pc | handsNothing pc =>
    have routed := consistent.routed found
    simp only [Call.Routed, pc] at routed
    exact consistent.setPc found _ routed nofun
  | @hands entryId entry reader pc entryFound free present =>
    have admits := consistent.admitted found (by rw [pc]; rfl) entryFound
    have routed := consistent.routed found
    simp only [Call.Routed, pc] at routed
    have settles := consistent.setPc found (.rememberReader reader) routed nofun
    have sound := consistent.sound entryFound
    rcases sound.retained reader present with ⟨kept, identifier, opens⟩
    refine settles.setEntry entryFound rfl (sound.hand present callId)
      (fun _ _ otherAdmits => otherAdmits.hand callId reader) ?_
    intro handed handedMem
    simp only [Opened.handed, kept, List.nil_append, List.mem_singleton] at handedMem
    subst handedMem
    rcases routed with ⟨path, opensAsset⟩
    exact ⟨_, path, moved, opensAsset, admits.key_eq.symm, identifier, opens⟩
  | failsFresh pc failed =>
    exact (consistent.setPc found (.returned (.asset none)) trivial nofun).of_eq rfl rfl rfl rfl
  | @opensFresh reader pc opened =>
    have routed := consistent.routed found
    simp only [Call.Routed, pc] at routed
    exact (consistent.setPc found (.rememberReader reader) routed nofun).of_eq rfl rfl rfl rfl
  | @remembersReader reader pc =>
    exact (consistent.setPc found (.returned (.asset (some reader))) trivial nofun).of_eq rfl rfl
      rfl rfl

theorem step_consistent {event : Event} (consistent : resolver.Consistent)
    (stepped : resolver.step event = some next) : next.Consistent := by
  rcases step_cases stepped with
    ⟨request, context, scope, _, rfl⟩ | ⟨callId, answer, call, _, found, advances⟩ |
    ⟨identifier, _, rfl⟩
  · exact consistent.begin request context scope
  · exact advances.consistent consistent found
  · exact consistent.of_eq rfl rfl rfl rfl

theorem consistent_of_run {environment : StringMap} {events : List Event}
    (reached : run step (create address environment) events = some resolver) :
    resolver.Consistent :=
  invariant_of_run step_consistent (consistent_create address environment) reached

/-! ### Leaving the table -/

/-- The event is an `_OpenAsset` that takes the entry of a key. -/
def TakenBy (resolver : HttpResolver) (key : Bytes) (event : Event) : Prop :=
  ∃ callId answer call path, event = .step callId answer ∧ resolver.calls[callId]? = some call ∧
    call.request = .openAsset path ∧ call.pc = .take ∧ call.key = key

/-- The event makes room for another key in a full table whose oldest key is this one. -/
def EvictedBy (resolver : HttpResolver) (key : Bytes) (event : Event) : Prop :=
  ∃ callId answer call, event = .step callId answer ∧ resolver.calls[callId]? = some call ∧
    call.pc = .getOrCreate ∧ resolver.table.entries call.key = none ∧
    resolver.table.order.length = maxRetainedOpens ∧ resolver.table.order.head? = some key

theorem table_forget (callId : ℕ) (call : Call) (entryId : ℕ) (entry : Opened) :
    (resolver.forget callId call entryId entry).table = resolver.forgotten call entryId := by
  simp only [forget]
  split <;> rfl

/-- An entry whose open succeeded is never forgotten. -/
theorem leaves_cases {event : Event} (consistent : resolver.Consistent)
    (stepped : resolver.step event = some next) {key : Bytes}
    (held : resolver.table.entries key = some entryId)
    (entryFound : resolver.entries[entryId]? = some entry) (succeeded : entry.succeeded = true)
    (left : next.table.entries key ≠ some entryId) :
    resolver.TakenBy key event ∨ resolver.EvictedBy key event := by
  rcases step_cases stepped with
    ⟨request, context, scope, _, rfl⟩ | ⟨callId, answer, call, rfl, found, advances⟩ |
    ⟨identifier, _, rfl⟩
  · exact absurd held left
  · cases advances with
    | creates pc absent =>
      right
      have other : key ≠ call.key := by
        rintro rfl
        rw [absent] at held
        cases held
      rcases consistent.wellFormed.insert_eq (by decide) call.key resolver.entries.length with
        ⟨_, inserted⟩ | ⟨oldest, rest, queued, full, inserted⟩
      · refine absurd ?_ left
        simp [setPc, inserted, other, held]
      · refine ⟨callId, answer, call, rfl, found, pc, absent, full, ?_⟩
        have evicted : key = oldest := by
          by_contra kept
          refine left ?_
          simp [setPc, inserted, other, kept, held]
        rw [queued, evicted, List.head?_cons]
    | takes pc _ =>
      left
      have taken : key = call.key := by
        by_contra other
        refine left ?_
        simp [setPc, QueuedTable.erase, other, held]
      rcases (by simpa [Call.Routed, pc] using consistent.routed found :
        ∃ path, call.request = .openAsset path) with ⟨path, opensAsset⟩
      exact ⟨callId, answer, call, path, rfl, found, opensAsset, pc, taken.symm⟩
    | @forgets forgottenId forgottenEntry pc forgottenFound =>
      -- Only the entry that failed is forgotten, and this one did not.
      rcases consistent.admits found (by rw [pc]; rfl) with ⟨failedEntry, failedFound, admits⟩
      have failed := (admits.failed pc).2
      refine absurd ?_ left
      rw [table_forget, forgotten]
      split
      · rename_i current
        have other : key ≠ call.key := by
          rintro rfl
          rw [current, Option.some.injEq] at held
          subst held
          rw [entryFound, Option.some.injEq] at failedFound
          subst failedFound
          rw [succeeded] at failed
          cases failed
        simp [QueuedTable.erase, other, held]
      · exact held
    | _ => exact absurd held left
  · exact absurd held left

/-- What holds of the retained opens at any time. -/
structure Retains (resolver : HttpResolver) : Prop where
  queueNodup : resolver.table.order.Nodup
  queueLists : ∀ key, key ∈ resolver.table.order ↔ (resolver.table.entries key).isSome
  queueBounded : resolver.table.order.length ≤ 64
  openedOnce : ∀ entry ∈ resolver.entries, entry.record.opens.length ≤ 1
  handedOnce : ∀ entry ∈ resolver.entries, entry.record.handedTo.length ≤ 1
  handedAlike : ∀ entry ∈ resolver.entries, ∀ handed ∈ entry.record.handedTo, ∃ call path,
    resolver.calls[handed.1]? = some call ∧ call.request = .openAsset path ∧
      entry.record.opens = [(call.identifier, call.effective.transport)] ∧
      handed.2.options = call.effective.transport
  leaves : ∀ event next key entryId entry, resolver.step event = some next →
    resolver.table.entries key = some entryId → resolver.entries[entryId]? = some entry →
    entry.succeeded = true → next.table.entries key ≠ some entryId →
    resolver.TakenBy key event ∨ resolver.EvictedBy key event

theorem Consistent.openedOnce (consistent : resolver.Consistent)
    (found : resolver.entries[entryId]? = some entry) : entry.record.opens.length ≤ 1 := by
  have sound := consistent.sound found
  cases opened : entry.opened with
  | false => simp [(sound.unopened opened).1]
  | true =>
    rcases sound.opened opened with ⟨identifier, lookup, opens, _⟩
    simp [opens]

/-- A call that has the key of an entry would have opened it as it was opened. -/
theorem Consistent.opens_eq (consistent : resolver.Consistent)
    (found : resolver.calls[callId]? = some call)
    (entryFound : resolver.entries[entryId]? = some entry) (key : call.key = entry.record.key)
    {identifier : Bytes} {options : HttpOptions}
    (opens : entry.record.opens = [(identifier, options)]) :
    identifier = call.identifier ∧ options = call.effective.transport := by
  have sound := consistent.sound entryFound
  rcases consistent.configured found with ⟨lookup, configured⟩
  have opened : entry.opened = true := by
    by_contra unopened
    rw [(sound.unopened (by simpa using unopened)).1] at opens
    cases opens
  rcases sound.opened opened with ⟨openedAs, openedUnder, recorded, keyEq⟩
  rw [opens] at recorded
  simp only [List.cons.injEq, Prod.mk.injEq, and_true] at recorded
  rcases recorded with ⟨rfl, rfl⟩
  rw [keyEq, Call.key, configured] at key
  rcases of_configured_openKey_eq key with ⟨identifiers, transports⟩
  rw [configured]
  exact ⟨identifiers.symm, transports.symm⟩

/--
After every run, the queue lists the keys of the table, each entry was opened at most
once and its reader handed to at most one call that would have opened it the same way,
and an entry whose open succeeded leaves by being taken or evicted.
-/
theorem retains_of_run {address : Addresses} {environment : StringMap} {events : List Event}
    (reached : run step (create address environment) events = some resolver) :
    resolver.Retains := by
  have consistent := consistent_of_run reached
  constructor
  · exact consistent.wellFormed.nodup
  · exact consistent.wellFormed.listed
  · exact consistent.wellFormed.bounded
  · intro entry entryMem
    rcases List.mem_iff_getElem?.mp entryMem with ⟨entryId, found⟩
    exact consistent.openedOnce found
  · intro entry entryMem
    rcases List.mem_iff_getElem?.mp entryMem with ⟨entryId, found⟩
    exact (consistent.sound found).handedOnce
  · intro entry entryMem handed handedMem
    rcases List.mem_iff_getElem?.mp entryMem with ⟨entryId, found⟩
    rcases consistent.handed found handed handedMem with
      ⟨call, path, callFound, opensAsset, key, identifier, opens⟩
    rcases consistent.opens_eq callFound found key opens with ⟨rfl, options⟩
    rw [options] at opens
    exact ⟨call, path, callFound, opensAsset, opens, options⟩
  · intro event next key entryId entry stepped held entryFound succeeded left
    exact leaves_cases consistent stepped held entryFound succeeded left

end HttpResolver

/-- One asset is resolved, and then opened with the reader that was retained. -/
def resolvedThenOpened : List Event :=
  let answer : Answer := ⟨some (republishingServer fun _ => false), {}⟩
  [Event.call (.resolve (bytes "http://host/a")) none none] ++
    List.replicate 7 (Event.step 0 answer) ++
    [Event.call (.openAsset (bytes "http://host/a")) none none] ++
    List.replicate 3 (Event.step 1 answer)

theorem retains_resolvedThenOpened :
    ∃ resolver, run HttpResolver.step (.create (fun _ => 0) ∅) resolvedThenOpened =
        some resolver ∧
      resolver.Retains ∧ resolver.entries.map (fun entry => entry.record.handedTo.length) = [1] := by
  have observed : ((run HttpResolver.step (.create (fun _ => 0) ∅) resolvedThenOpened).map
      fun resolver => resolver.entries.map fun entry => entry.record.handedTo.length) =
        some [1] := by
    decide +kernel
  rcases Option.map_eq_some_iff.mp observed with ⟨resolver, reached, handed⟩
  exact ⟨resolver, reached, HttpResolver.retains_of_run reached, handed⟩

end UsdAsset.Resolver
