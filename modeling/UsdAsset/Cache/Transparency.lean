import UsdAsset.Cache.Delivery
import UsdAsset.Cache.Ownership

/-!
# Cached reads are transparent

Every reader has a fixed content.  Readers that share an identity may have been
opened against different sizes, but what they see is the beginning of one and
the same origin.  Then every call that succeeds returns what the inner reader
would have returned, however the calls interleave.
-/

namespace UsdAsset.Cache

open ByteString

variable {readerId : ℕ} {state : ReaderState}

/-- The contents of the readers, and of the origins that shared validators name. -/
structure World where
  own : ℕ → Bytes
  origin : Bytes → Bytes → Bytes

namespace World

/-- What every reader of the same identity sees the beginning of. -/
def whole (world : World) (readerId : ℕ) (metadata : AssetMetadata) : Bytes :=
  if isShareable metadata.validator then
    world.origin metadata.resolvedIdentifier metadata.validator.value
  else world.own readerId

/-- A reader that may be wrapped: its size is its content's, and its origin is its validator's. -/
def Admits (world : World) (readerId : ℕ) (metadata : AssetMetadata) : Prop :=
  (world.own readerId).length = metadata.size ∧
    world.own readerId <+: world.whole readerId metadata

instance (world : World) (readerId : ℕ) (metadata : AssetMetadata) :
    Decidable (world.Admits readerId metadata) :=
  inferInstanceAs (Decidable (_ ∧ _))

/-- An event that the contents allow. -/
def Legal (world : World) (system : System) : Event → Prop
  | .wrap metadata _ _ => world.Admits system.readers.length metadata
  | .step callId answer =>
      ∀ state ∈ system.calls[callId]?, state.call.Legal (world.own state.readerId) answer
  | _ => True

instance (world : World) (system : System) (event : Event) :
    Decidable (world.Legal system event) :=
  match event with
  | .wrap _ _ _ => inferInstanceAs (Decidable (world.Admits _ _))
  | .step callId _ => inferInstanceAs (Decidable (∀ state ∈ system.calls[callId]?, _))
  | .close _ => inferInstanceAs (Decidable True)
  | .read _ _ => inferInstanceAs (Decidable True)

theorem slice_extentOf {content whole : Bytes} (isPrefix : content <+: whole)
    (block blockSize : ℕ) :
    slice content (block * blockSize) (extentOf block blockSize content.length).length =
      slice whole (block * blockSize) (extentOf block blockSize content.length).length := by
  by_cases inside : block * blockSize < content.length
  · exact slice_of_isPrefix isPrefix (extentOf_end_le inside)
  · have nothing : (extentOf block blockSize content.length).length = 0 := by
      have := extentOf_length_le block blockSize content.length
      omega
    rw [nothing, slice, slice, List.take_zero, List.take_zero]

end World

namespace System

variable {system next : System} {world : World}

/-- A publication holds the block of the content of the reader that made it. -/
def Faithful (world : World) (system : System) (publication : Publication) : Prop :=
  ∃ owner : ReaderState, system.readers[publication.readerId]? = some owner ∧
    publication.bytes = slice (world.own publication.readerId)
      (publication.block * owner.reader.options.blockSize)
      (owner.reader.extent publication.block).length

structure Transparent (world : World) (system : System) : Prop where
  coherent : system.Coherent
  admitted : ∀ {readerId : ℕ} {state : ReaderState}, system.readers[readerId]? = some state →
    world.Admits readerId state.reader.metadata
  correct : ∀ {callId : ℕ} {state : CallState}, system.calls[callId]? = some state →
    state.call.Correct (world.own state.readerId)
  faithful : ∀ publication ∈ system.published, system.Faithful world publication

theorem transparent_create (world : World) (options : CacheOptions) :
    (create options).Transparent world where
  coherent := coherent_create options
  admitted := nofun
  correct := nofun
  faithful := nofun

/-! ### What the store can serve -/

theorem Coherent.publisher (coherent : system.Coherent) {block : ℕ} {bytes : Bytes}
    (found : system.readers[readerId]? = some state)
    (resident : system.store.lookup (state.reader.key block) = some (.resident bytes)) :
    ∃ publication ∈ system.published, publication.block = block ∧ publication.bytes = bytes ∧
      ∃ owner : ReaderState, system.readers[publication.readerId]? = some owner ∧
        (publication.readerId = readerId ∨
          (isShareable owner.reader.metadata.validator = true ∧
            isShareable state.reader.metadata.validator = true ∧
            owner.reader.binding.identity = state.reader.binding.identity)) := by
  rcases coherent.resident resident with
    ⟨publication, publicationMem, owner, ownerAt, keyEq, bytesEq⟩
  simp only [CachedAssetReader.key, ShardKey.mk.injEq] at keyEq
  refine ⟨publication, publicationMem, keyEq.2.symm, bytesEq.symm, owner, ownerAt, ?_⟩
  have ownerBinding : system.bindings[publication.readerId]? = some owner.reader.binding := by
    rw [bindings, List.getElem?_map, ownerAt]
    rfl
  have binding : system.bindings[readerId]? = some state.reader.binding := by
    rw [bindings, List.getElem?_map, found]
    rfl
  rcases coherent.interned.isolated ownerBinding binding keyEq.1.symm with
    same | ⟨ownerShared, shared, identity⟩
  · exact Or.inl same
  · rw [owner.reader.isPrivate_eq] at ownerShared
    rw [state.reader.isPrivate_eq] at shared
    exact Or.inr ⟨by simpa using ownerShared, by simpa using shared, identity⟩

theorem whole_eq_of_identity {left right : CachedAssetReader} (leftId rightId : ℕ)
    (leftShared : isShareable left.metadata.validator = true)
    (rightShared : isShareable right.metadata.validator = true)
    (identity : left.binding.identity = right.binding.identity) :
    world.whole leftId left.metadata = world.whole rightId right.metadata ∧
      left.options.blockSize = right.options.blockSize := by
  rw [left.identity_eq, right.identity_eq, AssetIdentity.mk.injEq] at identity
  rcases identity with ⟨identifier, value, blockSize⟩
  simp only [World.whole, leftShared, rightShared, if_true, identifier, value]
  exact ⟨trivial, blockSize⟩

theorem Transparent.serves (transparent : system.Transparent world) {callId : ℕ}
    {state : CallState} (found : system.calls[callId]? = some state) :
    state.call.StoreServes (world.own state.readerId) system.store := by
  intro block bytes resident length
  rcases transparent.coherent.callReader found with ⟨reader, readerAt, sameReader⟩
  have sized := (transparent.admitted readerAt).1
  have isPrefix := (transparent.admitted readerAt).2
  simp only [Call.key, Call.blockOf, Call.blockSize, Call.extent, ← sameReader] at resident length ⊢
  rcases transparent.coherent.publisher readerAt resident with
    ⟨publication, publicationMem, rfl, rfl, owner, ownerAt, publisher⟩
  rcases transparent.faithful publication publicationMem with ⟨faithfulOwner, faithfulAt, bytesEq⟩
  rw [ownerAt] at faithfulAt
  cases faithfulAt
  rcases publisher with same | ⟨ownerShared, shared, identity⟩
  · rw [same] at ownerAt bytesEq
    rw [readerAt] at ownerAt
    cases ownerAt
    exact bytesEq
  · -- Both saw the beginning of one origin, and their blocks are equally long.
    have ownerSized := (transparent.admitted ownerAt).1
    have ownerPrefix := (transparent.admitted ownerAt).2
    rcases whole_eq_of_identity publication.readerId state.readerId ownerShared shared identity with
      ⟨whole, blockSize⟩
    simp only [CachedAssetReader.extent, ← ownerSized, ← sized, blockSize] at bytesEq length ⊢
    have ownLength := extentOf_length_le publication.block reader.reader.options.blockSize
      (world.own publication.readerId).length
    have sameLength : (extentOf publication.block reader.reader.options.blockSize
        (world.own publication.readerId).length).length =
        (extentOf publication.block reader.reader.options.blockSize
          (world.own state.readerId).length).length := by
      rw [← length, bytesEq, length_slice, Nat.min_eq_left ownLength]
    rw [bytesEq, World.slice_extentOf ownerPrefix, World.slice_extentOf isPrefix, whole, sameLength]

/-! ### Every event -/

theorem Faithful.of_readers {publication : Publication}
    (faithful : system.Faithful world publication)
    (readers : ∀ {readerId : ℕ} {state : ReaderState}, system.readers[readerId]? = some state →
      ∃ still : ReaderState, next.readers[readerId]? = some still ∧ still.reader = state.reader) :
    next.Faithful world publication := by
  rcases faithful with ⟨owner, ownerAt, bytesEq⟩
  rcases readers ownerAt with ⟨still, stillAt, same⟩
  exact ⟨still, stillAt, same ▸ bytesEq⟩

section

variable (transparent : system.Transparent world)

include transparent

theorem Transparent.wrap {metadata : AssetMetadata}
    (admits : world.Admits system.readers.length metadata) (options : CacheOptions)
    (persistentEnabled : Bool) :
    (system.wrap metadata options persistentEnabled).Transparent world where
  coherent := transparent.coherent.wrap metadata options persistentEnabled
  admitted := by
    intro readerId state found
    rcases Machine.getElem?_append_singleton found with old | ⟨rfl, rfl⟩
    · exact transparent.admitted old
    · exact admits
  correct := transparent.correct
  faithful := by
    intro publication publicationMem
    apply (transparent.faithful publication publicationMem).of_readers
    intro readerId state found
    exact ⟨state, Machine.getElem?_append_of_some _ found, rfl⟩

theorem Transparent.close
    (found : system.readers[readerId]? = some state) (unused : system.inUse readerId = false) :
    (system.close readerId state).Transparent world where
  coherent := transparent.coherent.close found unused
  admitted := by
    intro otherId other otherAt
    rcases Machine.getElem?_set_cases otherAt with ⟨sameId, rfl⟩ | ⟨_, old⟩
    · have admitted := transparent.admitted found
      rwa [← sameId] at admitted
    · exact transparent.admitted old
  correct := transparent.correct
  faithful := by
    intro publication publicationMem
    apply (transparent.faithful publication publicationMem).of_readers
    intro otherId other otherAt
    exact readers_close found otherAt

theorem Transparent.read (found : system.readers[readerId]? = some state) (request : ReadRequest) :
    (system.read readerId state request).Transparent world where
  coherent := transparent.coherent.read found request
  admitted := transparent.admitted
  correct := by
    intro callId called calledAt
    rcases Machine.getElem?_append_singleton calledAt with old | ⟨_, rfl⟩
    · exact transparent.correct old
    · exact Call.start_correct request (transparent.admitted found).1
  faithful := transparent.faithful

theorem Transparent.stepped {callId : ℕ}
    {state : CallState} {answer : Answer} {outcome : Call × BlockCache}
    (found : system.calls[callId]? = some state)
    (legal : state.call.Legal (world.own state.readerId) answer)
    (took : state.call.step system.store answer = some outcome) :
    (system.stepped callId state outcome).Transparent world := by
  have valid := transparent.coherent.valid found
  have correct := transparent.correct found
  refine ⟨transparent.coherent.stepped found took, transparent.admitted, ?_, ?_⟩
  · intro otherId other otherAt
    rcases Machine.getElem?_set_cases otherAt with ⟨_, rfl⟩ | ⟨_, old⟩
    · exact correct.step valid (transparent.serves found) legal took
    · exact transparent.correct old
  · intro publication publicationMem
    rcases List.mem_append.mp publicationMem with old | new
    · exact transparent.faithful publication old
    · rcases List.mem_map.mp new with ⟨⟨block, bytes⟩, published, rfl⟩
      rcases transparent.coherent.callReader found with ⟨owner, ownerAt, sameReader⟩
      refine ⟨owner, ownerAt, ?_⟩
      rw [sameReader]
      exact correct.publication valid (valid.admitted (Call.not_returned_of_step took))
        (Option.mem_toList.mp published)

theorem Transparent.step {event : Event}
    (legal : world.Legal system event) (took : system.step event = some next) :
    next.Transparent world := by
  rcases step_cases took with ⟨metadata, options, persistentEnabled, rfl, rfl⟩ |
    ⟨readerId, state, _, found, unused, rfl⟩ | ⟨readerId, state, request, _, found, _, rfl⟩ |
    ⟨callId, state, answer, outcome, rfl, found, callTook, rfl⟩
  · exact transparent.wrap legal options persistentEnabled
  · exact transparent.close found unused
  · exact transparent.read found request
  · exact transparent.stepped found (legal state found) callTook

end

/-! ### Every run -/

theorem transparent_of_run {options : CacheOptions} {events : List Event} {final : System}
    (legal : Machine.AllowedRun System.step world.Legal (create options) events)
    (reached : Machine.run System.step (create options) events = some final) :
    final.Transparent world :=
  Machine.invariant_of_allowedRun
    (fun transparent allowed took => transparent.step allowed took)
    (transparent_create world options) legal reached

theorem range_length_le (offset size assetSize : ℕ) :
    (resolveReadRange offset size assetSize).length ≤ min size (assetSize - offset) := by
  by_cases overflow : (resolveReadRange offset size assetSize).outcome = .overflow
  · rw [resolveReadRange_length_of_ne (by simp [overflow])]
    exact Nat.zero_le _
  · exact Nat.le_of_eq (resolveReadRange_length overflow)

/--
Whatever the interleaving and whichever inner reads fail: a call that returns Ok
returned what a read of its reader's content is meant to return, a request that
is meant to be refused was refused with that code, no call touched a byte behind
the part of the content it asked for, and what the store can serve a call was
published by its own reader or by one that shares its identity.
-/
theorem cachedRead_transparent (world : World) (options : CacheOptions) (events : List Event)
    (final : System)
    (legal : Machine.AllowedRun System.step world.Legal (create options) events)
    (reached : Machine.run System.step (create options) events = some final)
    (callId : ℕ) (state : CallState) (found : final.calls[callId]? = some state) :
    let content := world.own state.readerId
    let request := state.call.request
    let meant := contentRead content request.offset request.dstIsNull request.size
    (∀ result, state.call.pc = .returned result →
      (result.status.code = .ok → Returns result state.call.dst meant) ∧
      (meant.1 ≠ .ok → result.status.code = meant.1)) ∧
    (∀ position, min request.size (content.length - request.offset) ≤ position →
      state.call.dst position = request.dst position) ∧
    (∀ block bytes, final.store.lookup (state.call.key block) = some (.resident bytes) →
      ∃ publication ∈ final.published, publication.block = block ∧ publication.bytes = bytes ∧
        ∃ owner : ReaderState, final.readers[publication.readerId]? = some owner ∧
          (publication.readerId = state.readerId ∨
            (isShareable owner.reader.metadata.validator = true ∧
              isShareable state.call.reader.metadata.validator = true ∧
              owner.reader.binding.identity = state.call.reader.binding.identity))) := by
  intro content request meant
  have transparent := transparent_of_run legal reached
  have correct := transparent.correct found
  refine ⟨?_, ?_, ?_⟩
  · intro result place
    have delivered := correct.delivered
    rw [place] at delivered
    exact ⟨delivered.ok, delivered.refused⟩
  · intro position behind
    apply correct.framed
    refine Nat.le_trans ?_ behind
    simp only [content, correct.sized]
    exact range_length_le _ _ _
  · intro block bytes resident
    rcases transparent.coherent.callReader found with ⟨reader, readerAt, sameReader⟩
    rw [Call.key, ← sameReader] at resident
    rw [← sameReader]
    exact transparent.coherent.publisher readerAt resident

/-! ### Two readers of one small asset -/

def letters : Bytes := [97, 98, 99, 100, 101, 102]

def lettersWorld : World where
  own _ := letters
  origin _ _ := letters

/-- The first reader fetches the asset, and the second is served from the store. -/
def lettersEvents : List Event :=
  [Event.wrap (sizedMetadata 6) smallBlocks false, Event.wrap (sizedMetadata 6) smallBlocks false,
    Event.read 0 ⟨0, fun _ => 0, false, 6⟩, Event.step 0 .silent, Event.step 0 .silent,
    Event.step 0 (.read ⟨6, .success⟩ letters)] ++ List.replicate 11 (Event.step 0 .silent) ++
    Event.read 1 ⟨2, fun _ => 0, false, 100⟩ :: List.replicate 5 (Event.step 1 .silent)

theorem lettersEvents_reach :
    ∃ final ∈ Machine.run System.step (create smallBlocks) lettersEvents,
      ∃ state ∈ final.calls[1]?, state.readerId = 1 ∧ state.call.request.offset = 2 ∧
        state.call.request.dstIsNull = false ∧ state.call.request.size = 100 ∧
        state.call.pc = .returned ⟨4, .success⟩ := by
  decide +kernel

theorem cachedRead_transparent_letters :
    ∃ final state, Machine.run System.step (create smallBlocks) lettersEvents = some final ∧
      final.calls[1]? = some state ∧ state.call.pc = .returned ⟨4, .success⟩ ∧
      Returns ⟨4, .success⟩ state.call.dst (.ok, [99, 100, 101, 102]) := by
  rcases lettersEvents_reach with
    ⟨final, reached, state, found, readerId, offset, dstIsNull, size, place⟩
  refine ⟨final, state, reached, found, place, ?_⟩
  have returns := ((cachedRead_transparent lettersWorld smallBlocks lettersEvents final
    (by decide +kernel) reached 1 state found).1 _ place).1 rfl
  rw [offset, dstIsNull, size] at returns
  exact returns

end System

end UsdAsset.Cache
