import UsdAsset.Cache.CallStep
import UsdAsset.Cache.Identities

/-!
# Readers and calls on one store

The system is a store, the readers wrapped so far and the calls made on them.
Any of the calls may take the next step, so a run is any interleaving.  A reader
is closed only when none of its calls is in progress: closing destroys it.

A closed reader and a returned call stay on record, and so does every
publication; no step reads the record.
-/

namespace UsdAsset.Cache

structure ReaderState where
  reader : CachedAssetReader
  isOpen : Bool

structure CallState where
  readerId : ℕ
  call : Call

structure Publication where
  readerId : ℕ
  block : ℕ
  bytes : Bytes
  deriving DecidableEq, Repr

structure System where
  store : BlockCache
  readers : List ReaderState
  calls : List CallState
  published : List Publication

inductive Event where
  | wrap (metadata : AssetMetadata) (options : CacheOptions) (persistentEnabled : Bool)
  | close (readerId : ℕ)
  | read (readerId : ℕ) (request : ReadRequest)
  | step (callId : ℕ) (answer : Answer)

def Pc.isReturned : Pc → Bool
  | .returned _ => true
  | _ => false

namespace System

def create (options : CacheOptions) : System where
  store := .create options
  readers := []
  calls := []
  published := []

def inUse (system : System) (readerId : ℕ) : Bool :=
  system.calls.any fun state => state.readerId == readerId && !state.call.pc.isReturned

def wrap (system : System) (metadata : AssetMetadata) (options : CacheOptions)
    (persistentEnabled : Bool) : System :=
  let wrapped := CachedAssetReader.wrap metadata options persistentEnabled system.store
  { system with
    store := wrapped.2
    readers := system.readers ++ [⟨wrapped.1, true⟩] }

def close (system : System) (readerId : ℕ) (state : ReaderState) : System :=
  { system with
    store := system.store.close state.reader.binding
    readers := system.readers.set readerId { state with isOpen := false } }

def read (system : System) (readerId : ℕ) (state : ReaderState) (request : ReadRequest) : System :=
  { system with calls := system.calls ++ [⟨readerId, .start state.reader request⟩] }

def stepped (system : System) (callId : ℕ) (state : CallState) (outcome : Call × BlockCache) :
    System :=
  { system with
    store := outcome.2
    calls := system.calls.set callId { state with call := outcome.1 }
    published := system.published ++
      state.call.publication.toList.map fun published => ⟨state.readerId, published.1, published.2⟩ }

def step (system : System) : Event → Option System
  | .wrap metadata options persistentEnabled =>
      some (system.wrap metadata options persistentEnabled)
  | .close readerId =>
      system.readers[readerId]?.bind fun state =>
        if state.isOpen && !system.inUse readerId then some (system.close readerId state) else none
  | .read readerId request =>
      system.readers[readerId]?.bind fun state =>
        if state.isOpen then some (system.read readerId state request) else none
  | .step callId answer =>
      system.calls[callId]?.bind fun state =>
        (state.call.step system.store answer).map (system.stepped callId state)

/-! ### What an event can do -/

variable {system next : System} {event : Event}

theorem step_cases (stepped : system.step event = some next) :
    (∃ metadata options persistentEnabled,
      event = .wrap metadata options persistentEnabled ∧
      next = system.wrap metadata options persistentEnabled) ∨
    (∃ readerId state, event = .close readerId ∧ system.readers[readerId]? = some state ∧
      system.inUse readerId = false ∧ next = system.close readerId state) ∨
    (∃ readerId state request, event = .read readerId request ∧
      system.readers[readerId]? = some state ∧ state.isOpen = true ∧
      next = system.read readerId state request) ∨
    (∃ callId state answer outcome, event = .step callId answer ∧
      system.calls[callId]? = some state ∧ state.call.step system.store answer = some outcome ∧
      next = system.stepped callId state outcome) := by
  cases event with
  | wrap metadata options persistentEnabled =>
    exact Or.inl ⟨metadata, options, persistentEnabled, rfl, (Option.some.inj stepped).symm⟩
  | close readerId =>
    right
    left
    rcases Option.bind_eq_some_iff.mp stepped with ⟨state, found, closed⟩
    split at closed
    · rename_i allowed
      simp only [Bool.and_eq_true, Bool.not_eq_true'] at allowed
      exact ⟨readerId, state, rfl, found, allowed.2, (Option.some.inj closed).symm⟩
    · cases closed
  | read readerId request =>
    right
    right
    left
    rcases Option.bind_eq_some_iff.mp stepped with ⟨state, found, called⟩
    split at called
    · rename_i isOpen
      exact ⟨readerId, state, request, rfl, found, isOpen, (Option.some.inj called).symm⟩
    · cases called
  | step callId answer =>
    right
    right
    right
    rcases Option.bind_eq_some_iff.mp stepped with ⟨state, found, mapped⟩
    rcases Option.map_eq_some_iff.mp mapped with ⟨outcome, took, rfl⟩
    exact ⟨callId, state, answer, outcome, rfl, found, took, rfl⟩

end System

end UsdAsset.Cache
