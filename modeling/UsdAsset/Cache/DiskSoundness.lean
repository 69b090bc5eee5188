import UsdAsset.Cache.Codec
import UsdAsset.Cache.Directory

/-!
# What the persistent tier returns

Every file is, at any time, a part of the entry its maker meant to write or that entry
with something behind it.  An entry says how long it is, so one of another length is
refused, and what is returned is what was stored.  Nobody but its writer touches a file
before it is published, as long as a temporary name is not used by two.
-/

namespace UsdAsset.Cache

open ByteString Machine FileSystem

variable {callId : ℕ} {call : DiskCall} {next : DiskSystem} {block : StoredBlock}
  {event : DiskEvent}

/-! ### Keys in play -/

/-- The block was stored by somebody who was allowed to. -/
def StoredBy (requests : List DiskRequest) (block : StoredBlock) : Prop :=
  .store block.key true (some block.payload) ∈ requests

/-- The payload a call has in hand, or has returned. -/
def DiskPc.payload? : DiskPc → Option Bytes
  | .finish (.ok payload) => some payload
  | .returned (.loaded payload) => payload
  | _ => none

/-- A load has found a block with the digest it asked for. -/
def Finds (requests : List DiskRequest) (call : DiskCall) (payload : Bytes) : Prop :=
  ∃ key expectedLength outIsNull origin, call.request = .load key expectedLength outIsNull ∧
    payload.length = expectedLength ∧ StoredBy requests ⟨origin, payload⟩ ∧
    digestOf origin = digestOf key

/-- A file is a part of the entry its maker stored, or that entry with something behind it. -/
structure FileSound (requests : List DiskRequest) (file : File StoredBlock) : Prop where
  comparable : Comparable file.content file.note.encoded
  bounded : file.note.payload.length ≤ maxEntryPayload
  stored : StoredBy requests file.note

/-- What a call has in hand: the file it writes, what it has read of one, the payload it found. -/
structure InHand (disk : FileSystem StoredBlock) (requests : List DiskRequest) (call : DiskCall) :
    Prop where
  noted : ∀ {temporary : Bytes} {file : ℕ}, call.pc.writing? = some (temporary, file) →
    ∀ {found : File StoredBlock}, disk.files[file]? = some found → call.Stores found.note
  reading : ∀ {path raw : Bytes} {size file : ℕ}, call.pc = .read path size file raw →
    ∃ found, disk.files[file]? = some found ∧ Comparable raw found.note.encoded
  finding : ∀ {payload : Bytes}, call.pc.payload? = some payload → Finds requests call payload

/-- Every file is what its maker stored of it, and every call has in hand what is sound. -/
structure TierSound (disk : FileSystem StoredBlock) (calls : List DiskCall) : Prop where
  unshared : Unshared disk calls
  files : ∀ {file : ℕ} {found : File StoredBlock}, disk.files[file]? = some found →
    FileSound (calls.map DiskCall.request) found
  inHand : ∀ call ∈ calls, InHand disk (calls.map DiskCall.request) call

section Steps

variable {disk next : FileSystem StoredBlock} {calls later : List DiskCall} {pc : DiskPc}
  {requests more : List DiskRequest} {process : DiskProcess} {choice : Choice} {outcome : Outcome}

theorem requests_set (found : calls[callId]? = some call) (pc : DiskPc) :
    (calls.set callId { call with pc }).map DiskCall.request = calls.map DiskCall.request := by
  have same : (calls.map DiskCall.request)[callId]? = some call.request := by simp [found]
  rcases List.getElem?_eq_some_iff.mp same with ⟨within, same⟩
  rw [List.map_set, ← same]
  exact List.set_getElem_self within

theorem FileSound.mono {file : File StoredBlock} (sane : FileSound requests file)
    (grows : requests ⊆ more) : FileSound more file :=
  ⟨sane.comparable, sane.bounded, grows sane.stored⟩

theorem inHand_of_idle (idle : call.pc.idle = true) : InHand disk requests call := by
  rcases call with ⟨_, _, pc⟩
  refine ⟨?_, ?_, ?_⟩
  · intro temporary file writes
    cases pc with
    | write | rename => cases idle
    | _ => cases writes
  · rintro path raw size file rfl
    cases idle
  · intro payload returned
    cases pc with
    | finish outcome =>
      cases outcome with
      | ok => cases idle
      | _ => cases returned
    | returned result =>
      rcases result with _ | (_ | _) | _
      · cases returned
      · cases returned
      · cases idle
      · cases returned
    | _ => cases returned

theorem InHand.step (inHand : InHand disk requests call) (grows : requests ⊆ more)
    (keeps : disk.Keeps next)
    (bound : ∀ {temporary : Bytes} {file : ℕ}, call.pc.writing? = some (temporary, file) →
      file < disk.files.length) : InHand next more call := by
  refine ⟨?_, ?_, ?_⟩
  · intro temporary file writes found present
    have before := List.getElem?_eq_getElem (bound writes)
    rcases keeps before with ⟨same, sameFound, note⟩
    obtain rfl := Option.some.inj (sameFound.symm.trans present)
    rw [note]
    exact inHand.noted writes before
  · intro path raw size file reads
    rcases inHand.reading reads with ⟨found, present, comparable⟩
    rcases keeps present with ⟨same, sameFound, note⟩
    exact ⟨same, sameFound, by rwa [note]⟩
  · intro payload returned
    rcases inHand.finding returned with ⟨key, length, outIsNull, origin, asks, same, stored, rest⟩
    exact ⟨key, length, outIsNull, origin, asks, same, grows stored, rest⟩

variable (sound : TierSound disk calls)

include sound

theorem TierSound.step (unshared : Unshared next later)
    (grows : calls.map DiskCall.request ⊆ later.map DiskCall.request) (keeps : disk.Keeps next)
    (files : ∀ {file : ℕ} {found : File StoredBlock}, next.files[file]? = some found →
      disk.files[file]? = some found ∨ FileSound (later.map DiskCall.request) found)
    (inHand : ∀ call ∈ later,
      call ∈ calls ∨ InHand next (later.map DiskCall.request) call) : TierSound next later := by
  refine ⟨unshared, ?_, ?_⟩
  · intro file found present
    rcases files present with before | sane
    · exact (sound.files before).mono grows
    · exact sane
  · intro call mem
    rcases inHand call mem with before | new
    · rcases List.getElem?_of_mem before with ⟨callId, found⟩
      exact (sound.inHand call before).step grows keeps
        fun writes => (sound.unshared.files found writes).bound
    · exact new

theorem TierSound.quiet (unshared : Unshared next later)
    (grows : calls.map DiskCall.request ⊆ later.map DiskCall.request)
    (files : next.files = disk.files)
    (idle : ∀ call ∈ later, call ∈ calls ∨ call.pc.idle = true) : TierSound next later :=
  sound.step unshared grows (keeps_of_files_eq files)
    (fun present => Or.inl (by rwa [← files]))
    fun call mem => (idle call mem).imp_right inHand_of_idle

theorem TierSound.set (found : calls[callId]? = some call)
    (unshared : Unshared next (calls.set callId { call with pc })) (keeps : disk.Keeps next)
    (files : ∀ {file : ℕ} {found : File StoredBlock}, next.files[file]? = some found →
      disk.files[file]? = some found ∨ FileSound (calls.map DiskCall.request) found)
    (inHand : InHand next (calls.map DiskCall.request) { call with pc }) :
    TierSound next (calls.set callId { call with pc }) := by
  have requests := requests_set found pc
  refine sound.step unshared (by rw [requests]; exact List.Subset.refl _) keeps
    (by rwa [requests]) ?_
  intro other mem
  rw [requests]
  rcases List.mem_or_eq_of_mem_set mem with before | rfl
  · exact Or.inl before
  · exact Or.inr inHand

theorem TierSound.transition (found : calls[callId]? = some call)
    (free : ∀ {path : Bytes}, call.pc = .openTemporary path →
      disk.find (temporaryFor path process.nonce process.store.tempCounter) = none ∧
        held calls (temporaryFor path process.nonce process.store.tempCounter) = false)
    (transition : DiskTransition disk process choice call outcome) :
    TierSound outcome.disk (calls.set callId { call with pc := outcome.pc }) := by
  have unshared := sound.unshared.transition found (fun pc => (free pc).2) transition
  have mem := List.mem_of_getElem? found
  have inHand := sound.inHand call mem
  have idles : outcome.disk.files = disk.files → outcome.pc.idle = true →
      TierSound outcome.disk (calls.set callId { call with pc := outcome.pc }) := by
    intro files idle
    exact sound.set found unshared (keeps_of_files_eq files)
      (fun present => Or.inl (by rwa [← files])) (inHand_of_idle idle)
  have still := @keeps_of_files_eq _ disk disk rfl
  cases transition with
  | moves _ _ idle | removes _ idle | configures _ _ idle => exact idles rfl idle
  | publishes => exact idles files_rename rfl
  | visits => exact idles (by dsimp only; split <;> rfl) rfl
  | @creates block path pc stores =>
    have absent := (free pc).1
    refine sound.set found unshared ?_ ?_ ⟨?_, by simp, by rintro _ ⟨⟩⟩
    · intro file before present
      simp only [FileSystem.create, absent]
      exact ⟨before, getElem?_append_of_some _ present, rfl⟩
    · intro file after present
      simp only [FileSystem.create, absent] at present
      rcases getElem?_append_singleton present with before | ⟨_, rfl⟩
      · exact Or.inl before
      · refine Or.inr ⟨Or.inl List.nil_prefix, stores.2, ?_⟩
        rw [StoredBy, ← stores.1]
        exact List.mem_map_of_mem mem
    · rintro _ _ ⟨⟩ opened present
      simp only [FileSystem.create, absent, List.getElem?_concat_length, Option.some.injEq]
        at present
      rw [← present]
      exact stores
  | @writes block path temporary file count pc stores =>
    have writes : call.pc.writing? = some (temporary, file) := by rw [pc]; rfl
    refine sound.set found unshared (keeps_modify _) ?_ ⟨?_, by simp, by rintro _ ⟨⟩⟩
    · intro other after present
      rcases FileSystem.getElem?_files_modify_cases present with before | ⟨_, opened, held, rfl⟩
      · exact Or.inl before
      · have sane := sound.files held
        obtain rfl := stores.unique (inHand.noted writes held)
        rcases (sound.unshared.files found writes).measured with
          ⟨_, same, _, sameHeld, _, counted⟩
        obtain rfl := Option.some.inj (held.symm.trans sameHeld)
        refine Or.inr ⟨?_, sane.bounded, sane.stored⟩
        rw [← counted pc, overwrite_end]
        exact sane.comparable.read (Or.inl List.prefix_rfl) _
    · rintro _ _ ⟨⟩ after present
      rcases FileSystem.getElem?_files_modify_cases present with before | ⟨_, opened, held, rfl⟩
      · exact inHand.noted writes before
      · have stored := inHand.noted writes held
        exact stored
  | completes pc =>
    refine sound.set found unshared still Or.inl ⟨?_, by simp, by rintro _ ⟨⟩⟩
    rintro _ _ ⟨⟩
    exact inHand.noted (by rw [pc]; rfl)
  | opens _ named =>
    have bound := sound.unshared.tidy.linked named
    refine sound.set found unshared still Or.inl ⟨by rintro _ _ ⟨⟩, ?_, by rintro _ ⟨⟩⟩
    rintro _ _ _ _ ⟨⟩
    exact ⟨_, List.getElem?_eq_getElem bound, Or.inl List.nil_prefix⟩
  | @reads path raw size file count read pc held =>
    rcases inHand.reading pc with ⟨same, sameFound, comparable⟩
    obtain rfl := Option.some.inj (held.symm.trans sameFound)
    refine sound.set found unshared still Or.inl ⟨by rintro _ _ ⟨⟩, ?_, by rintro _ ⟨⟩⟩
    rintro _ _ _ _ ⟨⟩
    exact ⟨read, held, comparable.read (sound.files held).comparable count⟩
  | @decodes key expectedLength size file outIsNull path raw payload pc request decoded =>
    rcases inHand.reading pc with ⟨read, held, comparable⟩
    have sane := sound.files held
    rcases decodeEntry_of_comparable sane.bounded comparable decoded with ⟨digest, rfl, length⟩
    refine sound.set found unshared still Or.inl ⟨by rintro _ _ ⟨⟩, by simp, ?_⟩
    rintro _ ⟨⟩
    exact ⟨key, expectedLength, outIsNull, read.note.key, request, length, sane.stored, digest⟩
  | finishes pc =>
    refine sound.set found unshared still Or.inl ⟨by rintro _ _ ⟨⟩, by simp, ?_⟩
    rintro _ ⟨⟩
    exact inHand.finding (by rw [pc]; rfl)
  | _ => exact idles rfl rfl

end Steps

/-! ### Runs -/

namespace DiskSystem

variable {system : DiskSystem}

def requests (system : DiskSystem) : List DiskRequest := system.calls.map DiskCall.request

def Sound (system : DiskSystem) : Prop := TierSound system.disk system.calls

/-- Neither a file nor a store that is under way has the name. -/
def freeTemporary (system : DiskSystem) (temporary : Bytes) : Bool :=
  (system.disk.find temporary).isNone &&
    system.calls.all fun call => call.pc.writing?.all fun writing => writing.1 != temporary

/-- A temporary name is used by one store, and a file that was cut is not extended again. -/
def undisturbed (system : DiskSystem) : DiskEvent → Bool
  | .step callId _ =>
      (system.calls[callId]?).all fun call =>
        (system.processes[call.process]?).all fun process =>
          match call.pc with
          | .openTemporary path =>
              system.freeTemporary
                (temporaryFor path process.nonce process.store.tempCounter)
          | _ => true
  | .extend path _ =>
      (system.disk.fileAt path).all fun file =>
        decide (file.note.encoded.length ≤ file.content.length)
  | _ => true

end DiskSystem

/-! One block of one byte, stored and loaded by one process. -/

end UsdAsset.Cache
