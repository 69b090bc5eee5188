import UsdAsset.Http.Reader
import UsdAsset.Lib.Machine
import UsdAsset.Resolver.Identifier
import UsdAsset.Resolver.Identity
import UsdAsset.Resolver.OpenKey

/-!
# The resolver

Models `_Resolve`, `_OpenAsset` and `_GetAssetInfo` of `HttpResolver.cpp`, with the
table of retained opens, the tables of identities and the scoped resolve cache.  A
step of a call is what it does under one lock: a lookup in a table, the open of an
entry it holds the mutex of, one record of an identity.  Any of the calls may take
the next step, so a run is any interleaving.  What an open finds is up to the
transport it is made on.

A call that has returned stays on record, and so does what was opened, handed out
and remembered; no step reads the record.
-/

namespace UsdAsset.Resolver

open ByteString Http

def maxRetainedOpens : ℕ := 64

/-- What an entry has been used for. -/
structure OpenedRecord where
  key : Bytes
  opens : List (Bytes × HttpOptions) := []
  handedTo : List (ℕ × HttpAssetReader) := []

/-- One identifier's in-flight or completed open. -/
structure Opened where
  /-- The call that holds the mutex. -/
  lockedBy : Option ℕ := none
  opened : Bool := false
  status : Status := .success
  reader : Option HttpAssetReader := none
  /-- Kept when the reader leaves. -/
  succeeded : Bool := false
  metadata : AssetMetadata := { resolvedIdentifier := [], size := 0 }
  record : OpenedRecord

def Opened.fresh (key : Bytes) : Opened := { record := { key } }

def Opened.performed (entry : Opened) (identifier : Bytes) (options : HttpOptions)
    (result : Except Status HttpAssetReader) : Opened :=
  let record := { entry.record with opens := entry.record.opens ++ [(identifier, options)] }
  match result with
  | .error status => { entry with opened := true, status, reader := none, record }
  | .ok reader =>
      { entry with
        opened := true
        status := .success
        reader := some reader
        succeeded := true
        metadata := reader.metadata
        record }

def Opened.handed (entry : Opened) (callId : ℕ) (reader : HttpAssetReader) : Opened :=
  { entry with
    reader := none
    record := { entry.record with handedTo := entry.record.handedTo ++ [(callId, reader)] } }

/-! ### Calls -/

inductive Request where
  | resolve (assetPath : Bytes)
  | openAsset (resolvedPath : Bytes)
  | getAssetInfo (assetPath resolvedPath : Bytes)
  deriving DecidableEq, Repr

/-- The path a request is about; asset info prefers the resolved one. -/
def Request.path : Request → Bytes
  | .resolve assetPath => assetPath
  | .openAsset resolvedPath => resolvedPath
  | .getAssetInfo assetPath resolvedPath => if resolvedPath ≠ [] then resolvedPath else assetPath

/-- Whether asset info may open what nothing has opened. -/
def Request.mayOpen : Request → Bool
  | .getAssetInfo _ resolvedPath => resolvedPath != []
  | _ => false

def Request.isAssetInfo : Request → Bool
  | .getAssetInfo _ _ => true
  | _ => false

inductive Result where
  | path (resolvedPath : Bytes)
  | asset (reader : Option HttpAssetReader)
  | info (info : AssetInfo)

/-- What a request returns for a path this resolver does not serve. -/
def Request.unserved : Request → Result
  | .resolve _ => .path []
  | .openAsset _ => .asset none
  | .getAssetInfo _ _ => .info {}

/-- Where a call is: what it does next. -/
inductive Pc where
  | scopeLookup
  | getOrCreate
  | lock (entryId : ℕ)
  | locked (entryId : ℕ)
  | opening (entryId : ℕ)
  | remember (entryId : ℕ)
  | forget (entryId : ℕ)
  | scopeInsert (resolvedPath : Bytes)
  | known
  | take
  | taken (entryId : ℕ)
  | openFresh
  | rememberReader (reader : HttpAssetReader)
  | returned (result : Result)

def Request.start : Request → Pc
  | .resolve _ => .scopeLookup
  | .openAsset _ => .take
  | .getAssetInfo _ _ => .known

structure Call where
  request : Request
  identifier : Bytes
  effective : Effective
  scope : Option ℕ
  pc : Pc

def Call.key (call : Call) : Bytes := openKey call.identifier call.effective.fingerprint

def Call.policy (call : Call) : DestinationPolicy := call.effective.transport.destinations

/-- What the network makes of one open. -/
structure Answer where
  factory : Option Transport
  wire : Wire

def Call.open (call : Call) (answer : Answer) : Except Status HttpAssetReader :=
  (httpOpen call.identifier call.effective.transport answer.factory answer.wire).1

/-! ### The state -/

/-- An open that gave a reader. -/
structure Performed where
  identifier : Bytes
  options : HttpOptions
  metadata : AssetMetadata

/-- What an open was recorded as. -/
structure Remembered where
  identifier : Bytes
  metadata : AssetMetadata
  reachedUnder : DestinationPolicy
  deriving DecidableEq, Repr

structure HttpResolver where
  address : Addresses
  environment : StringMap
  table : QueuedTable Bytes ℕ := .empty
  entries : List Opened := []
  tables : IdentityTables := {}
  scopes : ℕ → Bytes → Option Bytes := fun _ _ => none
  calls : List Call := []
  reports : List (Status × Bytes) := []
  performed : List Performed := []
  remembered : List Remembered := []

inductive Event where
  | call (request : Request) (context : Option StringMap) (scope : Option ℕ)
  | step (callId : ℕ) (answer : Answer)
  | evictIdentity (identifier : Bytes)

namespace HttpResolver

def create (address : Addresses) (environment : StringMap) : HttpResolver :=
  { address, environment }

/-- A call begins with its identifier, and with the configuration of the bound context. -/
def begin (resolver : HttpResolver) (request : Request) (context : Option StringMap)
    (scope : Option ℕ) : Call :=
  let identifier := createIdentifier request.path []
  { request
    identifier
    effective := effectiveConfiguration resolver.address resolver.environment context
    scope
    pc := if identifier = [] then .returned request.unserved else request.start }

def setPc (resolver : HttpResolver) (callId : ℕ) (call : Call) (pc : Pc) : HttpResolver :=
  { resolver with calls := resolver.calls.set callId { call with pc } }

def setEntry (resolver : HttpResolver) (entryId : ℕ) (entry : Opened) : HttpResolver :=
  { resolver with entries := resolver.entries.set entryId entry }

section Steps

variable (resolver : HttpResolver) (callId : ℕ) (call : Call)

/-! #### The scoped cache -/

def scopeLookup : HttpResolver :=
  match call.scope.bind fun scope => resolver.scopes scope call.key with
  | some resolvedPath => resolver.setPc callId call (.returned (.path resolvedPath))
  | none => resolver.setPc callId call .getOrCreate

/-- The scopes after one of them was told a resolution; the first one it was told stays. -/
def scopesWith (resolvedPath : Bytes) : ℕ → Bytes → Option Bytes :=
  match call.scope with
  | none => resolver.scopes
  | some scope =>
      Function.update resolver.scopes scope
        (Function.update (resolver.scopes scope) call.key
          ((resolver.scopes scope call.key).or (some resolvedPath)))

def scopeInsert (resolvedPath : Bytes) : HttpResolver :=
  { resolver with scopes := resolver.scopesWith call resolvedPath }.setPc callId call
    (.returned (.path resolvedPath))

/-! #### The retained opens -/

def getOrCreate : HttpResolver :=
  match resolver.table.entries call.key with
  | some entryId => resolver.setPc callId call (.lock entryId)
  | none =>
      { resolver with
        entries := resolver.entries ++ [Opened.fresh call.key]
        table := resolver.table.insert maxRetainedOpens call.key resolver.entries.length }.setPc
          callId call (.lock resolver.entries.length)

def take : HttpResolver :=
  match resolver.table.entries call.key with
  | some entryId =>
      { resolver with table := resolver.table.erase call.key }.setPc callId call (.taken entryId)
  | none => resolver.setPc callId call .openFresh

/-- The table without a key, but only if its entry is still the one given. -/
def forgotten (entryId : ℕ) : QueuedTable Bytes ℕ :=
  if resolver.table.entries call.key = some entryId then resolver.table.erase call.key
  else resolver.table

variable (entryId : ℕ) (entry : Opened)

/-- Waits until nobody holds the mutex. -/
def lock : Option HttpResolver :=
  if entry.lockedBy = none then
    some ((resolver.setEntry entryId { entry with lockedBy := some callId }).setPc callId call
      (.locked entryId))
  else none

def setUnlocked : HttpResolver := resolver.setEntry entryId { entry with lockedBy := none }

/-- Under the mutex: opens what nobody has opened, and acts on what an open found. -/
def locked : HttpResolver :=
  if !entry.opened then resolver.setPc callId call (.opening entryId)
  else if entry.succeeded then resolver.setPc callId call (.remember entryId)
  else if call.request.isAssetInfo then
    -- Asset info forgets a failure after it let go of the mutex.
    (resolver.setUnlocked entryId entry).setPc callId call (.forget entryId)
  else resolver.setPc callId call (.forget entryId)

/-- What there is to record of an open. -/
def performedBy (result : Except Status HttpAssetReader) : List Performed :=
  match result with
  | .error _ => []
  | .ok reader => [⟨call.identifier, call.effective.transport, reader.metadata⟩]

def performOpen (answer : Answer) : HttpResolver :=
  let result := call.open answer
  ({ resolver with performed := resolver.performed ++ performedBy call result }.setEntry entryId
    (entry.performed call.identifier call.effective.transport result)).setPc callId call
      (.locked entryId)

/-- The resolver after an open was recorded. -/
def withIdentity (metadata : AssetMetadata) : HttpResolver :=
  { resolver with
    tables :=
      (resolver.tables.rememberIdentity call.identifier metadata call.policy).2
    remembered := resolver.remembered ++ [⟨call.identifier, metadata, call.policy⟩] }

/-- Whether an identifier is contradicted once an open is recorded. -/
def contradictedBy (metadata : AssetMetadata) : Bool :=
  (resolver.tables.rememberIdentity call.identifier metadata call.policy).1

def remember : HttpResolver :=
  ((resolver.withIdentity call entry.metadata).setUnlocked entryId entry).setPc callId call
    (if call.request.isAssetInfo then
      .returned (.info (assetInfo entry.metadata (resolver.contradictedBy call entry.metadata)))
    else .scopeInsert call.identifier)

/-- What a failed resolve reports; an asset that is not there is no failure. -/
def reportsWith : List (Status × Bytes) :=
  if entry.status.code ≠ .notFound then resolver.reports ++ [(entry.status, call.identifier)]
  else resolver.reports

def forget : HttpResolver :=
  if call.request.isAssetInfo then
    { resolver with table := resolver.forgotten call entryId }.setPc callId call
      (.returned (.info {}))
  else
    ({ resolver with
        table := resolver.forgotten call entryId
        reports := resolver.reportsWith call entry }.setUnlocked entryId entry).setPc callId call
      (.scopeInsert [])

/-- Takes the reader out of an entry that was taken out of the table. -/
def taken : Option HttpResolver :=
  if entry.lockedBy = none then
    match entry.reader with
    | none => some (resolver.setPc callId call .openFresh)
    | some reader =>
        some ((resolver.setEntry entryId (entry.handed callId reader)).setPc callId call
          (.rememberReader reader))
  else none

/-! #### Fresh opens and asset info -/

def openFresh (answer : Answer) : HttpResolver :=
  match call.open answer with
  | .error status =>
      { resolver with reports := resolver.reports ++ [(status, call.identifier)] }.setPc callId call
        (.returned (.asset none))
  | .ok reader =>
      { resolver with performed := resolver.performed ++ performedBy call (.ok reader) }.setPc
        callId call (.rememberReader reader)

def rememberReader (reader : HttpAssetReader) : HttpResolver :=
  (resolver.withIdentity call reader.metadata).setPc callId call (.returned (.asset (some reader)))

def known : HttpResolver :=
  match resolver.tables.knownIdentity call.identifier call.policy with
  | some (metadata, contradicted) =>
      resolver.setPc callId call (.returned (.info (assetInfo metadata contradicted)))
  | none =>
      if call.request.mayOpen then resolver.setPc callId call .getOrCreate
      else resolver.setPc callId call (.returned (.info {}))

def advance (answer : Answer) : Option HttpResolver :=
  match call.pc with
  | .scopeLookup => some (resolver.scopeLookup callId call)
  | .getOrCreate => some (resolver.getOrCreate callId call)
  | .lock entryId => resolver.entries[entryId]?.bind fun entry =>
      resolver.lock callId call entryId entry
  | .locked entryId => resolver.entries[entryId]?.map fun entry =>
      resolver.locked callId call entryId entry
  | .opening entryId => resolver.entries[entryId]?.map fun entry =>
      resolver.performOpen callId call entryId entry answer
  | .remember entryId => resolver.entries[entryId]?.map fun entry =>
      resolver.remember callId call entryId entry
  | .forget entryId => resolver.entries[entryId]?.map fun entry =>
      resolver.forget callId call entryId entry
  | .scopeInsert resolvedPath => some (resolver.scopeInsert callId call resolvedPath)
  | .known => some (resolver.known callId call)
  | .take => some (resolver.take callId call)
  | .taken entryId => resolver.entries[entryId]?.bind fun entry =>
      resolver.taken callId call entryId entry
  | .openFresh => some (resolver.openFresh callId call answer)
  | .rememberReader reader => some (resolver.rememberReader callId call reader)
  | .returned _ => none

end Steps

def step (resolver : HttpResolver) : Event → Option HttpResolver
  | .call request context scope =>
      some { resolver with calls := resolver.calls ++ [resolver.begin request context scope] }
  | .step callId answer =>
      resolver.calls[callId]?.bind fun call => resolver.advance callId call answer
  | .evictIdentity identifier =>
      some { resolver with tables := resolver.tables.evict identifier }

/-! ### What a step can do -/

/-- The steps of a call, one constructor for each thing a step can do. -/
inductive Advances (resolver : HttpResolver) (callId : ℕ) (call : Call) (answer : Answer) :
    HttpResolver → Prop where
  | scopeHit {resolvedPath : Bytes} (pc : call.pc = .scopeLookup) :
      Advances resolver callId call answer
        (resolver.setPc callId call (.returned (.path resolvedPath)))
  | scopeMiss (pc : call.pc = .scopeLookup) :
      Advances resolver callId call answer (resolver.setPc callId call .getOrCreate)
  | finds {entryId : ℕ} (pc : call.pc = .getOrCreate)
      (held : resolver.table.entries call.key = some entryId) :
      Advances resolver callId call answer (resolver.setPc callId call (.lock entryId))
  | creates (pc : call.pc = .getOrCreate) (absent : resolver.table.entries call.key = none) :
      Advances resolver callId call answer
        ({ resolver with
          entries := resolver.entries ++ [Opened.fresh call.key]
          table := resolver.table.insert maxRetainedOpens call.key resolver.entries.length }.setPc
            callId call (.lock resolver.entries.length))
  | locks {entryId : ℕ} {entry : Opened} (pc : call.pc = .lock entryId)
      (found : resolver.entries[entryId]? = some entry) (free : entry.lockedBy = none) :
      Advances resolver callId call answer
        ((resolver.setEntry entryId { entry with lockedBy := some callId }).setPc callId call
          (.locked entryId))
  | opens {entryId : ℕ} {entry : Opened} (pc : call.pc = .locked entryId)
      (found : resolver.entries[entryId]? = some entry) (unopened : entry.opened = false) :
      Advances resolver callId call answer (resolver.setPc callId call (.opening entryId))
  | succeeds {entryId : ℕ} {entry : Opened} (pc : call.pc = .locked entryId)
      (found : resolver.entries[entryId]? = some entry) (succeeded : entry.succeeded = true) :
      Advances resolver callId call answer (resolver.setPc callId call (.remember entryId))
  | failsResolve {entryId : ℕ} {entry : Opened} (pc : call.pc = .locked entryId)
      (found : resolver.entries[entryId]? = some entry) (opened : entry.opened = true)
      (failed : entry.succeeded = false) (resolves : call.request.isAssetInfo = false) :
      Advances resolver callId call answer (resolver.setPc callId call (.forget entryId))
  | failsAssetInfo {entryId : ℕ} {entry : Opened} (pc : call.pc = .locked entryId)
      (found : resolver.entries[entryId]? = some entry) (opened : entry.opened = true)
      (failed : entry.succeeded = false) (asks : call.request.isAssetInfo = true) :
      Advances resolver callId call answer
        ((resolver.setUnlocked entryId entry).setPc callId call (.forget entryId))
  | performs {entryId : ℕ} {entry : Opened} (pc : call.pc = .opening entryId)
      (found : resolver.entries[entryId]? = some entry) :
      Advances resolver callId call answer
        (resolver.performOpen callId call entryId entry answer)
  | remembers {entryId : ℕ} {entry : Opened} (pc : call.pc = .remember entryId)
      (found : resolver.entries[entryId]? = some entry) :
      Advances resolver callId call answer (resolver.remember callId call entryId entry)
  | forgets {entryId : ℕ} {entry : Opened} (pc : call.pc = .forget entryId)
      (found : resolver.entries[entryId]? = some entry) :
      Advances resolver callId call answer (resolver.forget callId call entryId entry)
  | scopeInserts {resolvedPath : Bytes} (pc : call.pc = .scopeInsert resolvedPath) :
      Advances resolver callId call answer (resolver.scopeInsert callId call resolvedPath)
  | knows {metadata : AssetMetadata} {contradicted : Bool} (pc : call.pc = .known)
      (answered : resolver.tables.knownIdentity call.identifier call.policy =
        some (metadata, contradicted)) :
      Advances resolver callId call answer
        (resolver.setPc callId call (.returned (.info (assetInfo metadata contradicted))))
  | asks (pc : call.pc = .known) :
      Advances resolver callId call answer (resolver.setPc callId call .getOrCreate)
  | declines (pc : call.pc = .known) :
      Advances resolver callId call answer (resolver.setPc callId call (.returned (.info {})))
  | takes {entryId : ℕ} (pc : call.pc = .take)
      (held : resolver.table.entries call.key = some entryId) :
      Advances resolver callId call answer
        ({ resolver with table := resolver.table.erase call.key }.setPc callId call
          (.taken entryId))
  | takesNothing (pc : call.pc = .take) :
      Advances resolver callId call answer (resolver.setPc callId call .openFresh)
  | hands {entryId : ℕ} {entry : Opened} {reader : HttpAssetReader} (pc : call.pc = .taken entryId)
      (found : resolver.entries[entryId]? = some entry) (free : entry.lockedBy = none)
      (present : entry.reader = some reader) :
      Advances resolver callId call answer
        ((resolver.setEntry entryId (entry.handed callId reader)).setPc callId call
          (.rememberReader reader))
  | handsNothing {entryId : ℕ} (pc : call.pc = .taken entryId) :
      Advances resolver callId call answer (resolver.setPc callId call .openFresh)
  | failsFresh {status : Status} (pc : call.pc = .openFresh) (failed : call.open answer = .error status) :
      Advances resolver callId call answer
        ({ resolver with reports := resolver.reports ++ [(status, call.identifier)] }.setPc callId
          call (.returned (.asset none)))
  | opensFresh {reader : HttpAssetReader} (pc : call.pc = .openFresh)
      (opened : call.open answer = .ok reader) :
      Advances resolver callId call answer
        ({ resolver with performed := resolver.performed ++ performedBy call (.ok reader) }.setPc
          callId call (.rememberReader reader))
  | remembersReader {reader : HttpAssetReader} (pc : call.pc = .rememberReader reader) :
      Advances resolver callId call answer (resolver.rememberReader callId call reader)

variable {resolver next : HttpResolver} {callId : ℕ} {call : Call} {answer : Answer}

theorem advances_locked {entryId : ℕ} {entry : Opened} (pc : call.pc = .locked entryId)
    (found : resolver.entries[entryId]? = some entry) :
    Advances resolver callId call answer (resolver.locked callId call entryId entry) := by
  simp only [locked]
  split
  · rename_i unopened
    exact .opens pc found (by simpa using unopened)
  · rename_i opened
    split
    · rename_i succeeded
      exact .succeeds pc found succeeded
    · rename_i failed
      split
      · rename_i asks
        exact .failsAssetInfo pc found (by simpa using opened) (by simpa using failed) asks
      · rename_i resolves
        exact .failsResolve pc found (by simpa using opened) (by simpa using failed)
          (by simpa using resolves)

theorem advances (stepped : resolver.advance callId call answer = some next) :
    Advances resolver callId call answer next := by
  simp only [advance] at stepped
  split at stepped
  · rename_i pc
    cases stepped
    simp only [scopeLookup]
    split
    · exact .scopeHit pc
    · exact .scopeMiss pc
  · rename_i pc
    cases stepped
    simp only [getOrCreate]
    split
    · exact .finds pc ‹_›
    · exact .creates pc ‹_›
  · rename_i entryId pc
    rcases Option.bind_eq_some_iff.mp stepped with ⟨entry, found, locked⟩
    simp only [lock] at locked
    split at locked
    · cases locked
      exact .locks pc found ‹_›
    · cases locked
  · rename_i entryId pc
    rcases Option.map_eq_some_iff.mp stepped with ⟨entry, found, rfl⟩
    exact advances_locked pc found
  · rename_i entryId pc
    rcases Option.map_eq_some_iff.mp stepped with ⟨entry, found, rfl⟩
    exact .performs pc found
  · rename_i entryId pc
    rcases Option.map_eq_some_iff.mp stepped with ⟨entry, found, rfl⟩
    exact .remembers pc found
  · rename_i entryId pc
    rcases Option.map_eq_some_iff.mp stepped with ⟨entry, found, rfl⟩
    exact .forgets pc found
  · rename_i resolvedPath pc
    cases stepped
    exact .scopeInserts pc
  · rename_i pc
    cases stepped
    simp only [known]
    split
    · exact .knows pc ‹_›
    · split
      · exact .asks pc
      · exact .declines pc
  · rename_i pc
    cases stepped
    simp only [take]
    split
    · exact .takes pc ‹_›
    · exact .takesNothing pc
  · rename_i entryId pc
    rcases Option.bind_eq_some_iff.mp stepped with ⟨entry, found, taken⟩
    simp only [HttpResolver.taken] at taken
    split at taken
    · split at taken
      · cases taken
        exact .handsNothing pc
      · cases taken
        exact .hands pc found ‹_› ‹_›
    · cases taken
  · rename_i pc
    cases stepped
    simp only [openFresh]
    split
    · exact .failsFresh pc ‹_›
    · exact .opensFresh pc ‹_›
  · rename_i reader pc
    cases stepped
    exact .remembersReader pc
  · cases stepped

theorem step_cases {event : Event} (stepped : resolver.step event = some next) :
    (∃ request context scope, event = .call request context scope ∧
      next = { resolver with calls := resolver.calls ++ [resolver.begin request context scope] }) ∨
    (∃ callId answer call, event = .step callId answer ∧ resolver.calls[callId]? = some call ∧
      Advances resolver callId call answer next) ∨
    (∃ identifier, event = .evictIdentity identifier ∧
      next = { resolver with tables := resolver.tables.evict identifier }) := by
  cases event with
  | call request context scope =>
    exact Or.inl ⟨request, context, scope, rfl, (Option.some.inj stepped).symm⟩
  | step callId answer =>
    rcases Option.bind_eq_some_iff.mp stepped with ⟨call, found, advanced⟩
    exact Or.inr (Or.inl ⟨callId, answer, call, rfl, found, advances advanced⟩)
  | evictIdentity identifier =>
    exact Or.inr (Or.inr ⟨identifier, rfl, (Option.some.inj stepped).symm⟩)

end HttpResolver

end UsdAsset.Resolver
