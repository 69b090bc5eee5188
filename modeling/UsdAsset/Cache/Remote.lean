import UsdAsset.Cache.Transparency
import UsdAsset.Http.Oracle

/-!
# The remote stack

A `CachedAssetReader` over an `HttpAssetReader`: the inner reads of a cached call are reads of
the reader it decorates, each over a wire of its own, and there is no persistent tier.
-/

namespace UsdAsset.Cache.Remote

open ByteString Http

/-- What the stack can do; a fetch is the inner read that a call stands at. -/
inductive Event where
  | wrap (options : CacheOptions)
  | close (readerId : ℕ)
  | read (readerId : ℕ) (request : ReadRequest)
  | step (callId : ℕ)
  | fetch (callId : ℕ) (wire : Wire)

/-- The memory that the inner read of a call is given. -/
def innerMemory (call : Call) : Buffer :=
  match call.pc with
  | .mismatch i | .direct i =>
      fun position => call.dst ((call.window i).offset - call.range.offset + position)
  | .bypass => call.dst
  | _ => fun _ => 0

/-- The inner read, and what is in the part of that memory it may write. -/
def innerAnswer (reader : HttpAssetReader) (transport : Transport) (call : Call) (wire : Wire)
    (offset size : ℕ) : Answer :=
  let answered := reader.read transport offset false size { wire with dst := innerMemory call }
  .read answered.1 ((List.range (min size (reader.metadata.size - offset))).map answered.2.dst)

def step (transport : Transport) (backing : ℕ → HttpAssetReader) (system : System) :
    Event → Option System
  | .wrap options =>
      system.step (.wrap (backing system.readers.length).metadata options false)
  | .close readerId => system.step (.close readerId)
  | .read readerId request => system.step (.read readerId request)
  | .step callId => system.step (.step callId .silent)
  | .fetch callId wire =>
      system.calls[callId]?.bind fun state =>
        state.call.innerRead.bind fun asked =>
          system.step (.step callId
            (innerAnswer (backing state.readerId) transport state.call wire asked.1 asked.2))

variable {asset : Asset} {transport : Transport} {reader : HttpAssetReader}
  {backing : ℕ → HttpAssetReader} {system next : System} {offset size : ℕ} {wire : Wire}

theorem reads_content (server : asset.Honest transport) (bound : asset.Bound reader) (call : Call)
    {result : ReadResult} {written : Bytes}
    (answers : innerAnswer reader transport call wire offset size = .read result written) :
    ReadsContent asset.content offset size result written := by
  cases answers
  have length : (slice asset.content offset size).length =
      min size (reader.metadata.size - offset) := by
    rw [length_slice, bound.size_eq]
  rw [ReadsContent]
  split
  · rename_i isOk
    have count := HttpAssetReader.bytesRead_of_ok ((Status.isOk_iff _).mp isOk)
    refine ⟨List.ext_getElem? fun position => ?_, by simp [count]⟩
    by_cases inside : position < min size (reader.metadata.size - offset)
    · rcases reader.read_run transport offset false size { wire with dst := innerMemory call } with
        ⟨sent, run⟩
      have within := System.range_length_le offset size reader.metadata.size
      have sized := bound.size_eq
      have copied := server.copied bound (by omega) run (by rw [count]; exact inside)
      rw [List.getElem?_map, List.getElem?_range inside, getElem?_slice (by omega), copied]
      rfl
    · rw [List.getElem?_eq_none (by rw [List.length_map, List.length_range]; omega),
        List.getElem?_eq_none (by rw [length]; omega)]
  · simp [length]

/-- The asset as the cached readers see it. -/
def world (asset : Asset) : World := ⟨fun _ => asset.content, fun _ _ => asset.content⟩

/-- Every step of the stack is one of the cached readers that the content of the asset allows. -/
theorem step_legal (server : asset.Honest transport) (bound : ∀ id, asset.Bound (backing id))
    {event : Event} (stepped : step transport backing system event = some next) :
    ∃ taken, (world asset).Legal system taken ∧ system.step taken = some next := by
  cases event with
  | wrap options =>
    refine ⟨.wrap _ options false, ⟨(bound _).size_eq.symm, ?_⟩, stepped⟩
    simp [World.whole, world]
  | close readerId => exact ⟨.close readerId, trivial, stepped⟩
  | read readerId request => exact ⟨.read readerId request, trivial, stepped⟩
  | step callId => exact ⟨.step callId .silent, fun _ _ => trivial, stepped⟩
  | fetch callId wire =>
    rcases Option.bind_eq_some_iff.mp stepped with ⟨state, found, stepped⟩
    rcases Option.bind_eq_some_iff.mp stepped with ⟨asked, stands, stepped⟩
    refine ⟨.step callId _, ?_, stepped⟩
    intro same sameFound other otherStands
    obtain rfl := Option.some.inj (found.symm.trans sameFound)
    obtain rfl := Option.some.inj (stands.symm.trans otherStands)
    exact reads_content server (bound _) state.call rfl

/--
The cached remote reader equals the local oracle.  Whatever the interleaving, the evictions, the
sharing and the faults on the wire: a call that returns Ok returned the count and the bytes that a
read of an unchanging file of the same content returns, a request that the oracle refuses was
refused with its code, and nothing behind what was asked for was written.
-/
theorem cached_remote_agrees_with_local (server : asset.Honest transport)
    (opened : ∀ readerId, ∃ url options before after,
      httpOpen url options (some transport) before = (.ok (backing readerId), after))
    {options : CacheOptions} {events : List Event} {final : System}
    (reached : Machine.run (step transport backing) (.create options) events = some final)
    {callId : ℕ} {state : CallState} (found : final.calls[callId]? = some state)
    {result : ReadResult} (returned : state.call.pc = .returned result)
    {identity : Local.FileIdentity} {file : Local.PlatformFile}
    (unchanging : Local.UnchangingFile asset.content identity file) {path : Bytes}
    {oracle : Local.LocalAssetReader} (openedLocal : Local.localOpen path (.ok file) = .ok oracle)
    (time : ℕ) :
    let request := state.call.request
    let stored := oracle.read file request.offset request.dstIsNull request.size request.dst time
    (result.status.code = .ok → stored.1.status.code = .ok ∧
      result.bytesRead = stored.1.bytesRead ∧
      ∀ position < result.bytesRead, state.call.dst position = stored.2 position) ∧
    (stored.1.status.code ≠ .ok → result.status.code = stored.1.status.code) ∧
    ∀ position, min request.size (asset.content.length - request.offset) ≤ position →
      state.call.dst position = request.dst position := by
  intro request stored
  have bound : ∀ id, asset.Bound (backing id) := by
    intro id
    rcases opened id with ⟨_, _, _, _, opens⟩
    exact server.bound opens
  have transparent : final.Transparent (world asset) := by
    refine Machine.invariant_of_run ?_ (System.transparent_create _ options) reached
    intro before event after transparent stepped
    rcases step_legal server bound stepped with ⟨taken, legal, took⟩
    exact transparent.step legal took
  have correct := transparent.correct found
  have delivered := correct.delivered
  rw [returned] at delivered
  have local_ := Local.localRead_returns unchanging openedLocal request.offset request.dstIsNull
    request.size request.dst time
  refine ⟨?_, ?_, ?_⟩
  · intro ok
    have agree := (delivered.ok ok).agree local_
    exact ⟨agree.1 ▸ ok, agree.2⟩
  · intro refused
    rw [local_.code] at refused ⊢
    exact delivered.refused refused
  · intro position behind
    apply correct.framed
    refine (System.range_length_le _ _ _).trans ?_
    rw [← correct.sized]
    exact behind

/-! Two readers of a pair of bytes, the connection lost inside the one inner read they make. -/

def pairEvents : List Event :=
  [.wrap System.smallBlocks, .wrap System.smallBlocks, .read 0 ⟨0, fun _ => 0, false, 4⟩,
    .step 0, .step 0, .fetch 0 pairOpened] ++ List.replicate 11 (.step 0) ++
    .read 1 ⟨1, fun _ => 0, false, 4⟩ :: List.replicate 5 (.step 1)

theorem pairEvents_reach :
    ∃ final ∈ Machine.run (step lossyServer fun _ => pairReader) (.create System.smallBlocks)
        pairEvents,
      ∃ state ∈ final.calls[1]?, state.call.request.offset = 1 ∧
        state.call.request.dstIsNull = false ∧ state.call.request.size = 4 ∧
        state.call.pc = .returned ⟨1, .success⟩ := by
  decide +kernel

theorem cached_remote_agrees_with_local_pair :
    ∃ final state, Machine.run (step lossyServer fun _ => pairReader) (.create System.smallBlocks)
        pairEvents = some final ∧ final.calls[1]? = some state ∧
      state.call.pc = .returned ⟨1, .success⟩ ∧
      state.call.dst 0 = (pairOracle.read pairFile 1 false 4 state.call.request.dst 0).2 0 := by
  rcases pairEvents_reach with ⟨final, reached, state, found, offset, null, size, returned⟩
  refine ⟨final, state, reached, found, returned, ?_⟩
  have agrees := (cached_remote_agrees_with_local (pairServer_honest _)
    (fun _ => ⟨bytes "http://host/a", {}, {}, pairOpened, rfl⟩) reached found returned
    pairFile_unchanging (rfl : Local.localOpen (bytes "/a") _ = .ok pairOracle) 0).1 rfl
  rw [offset, null, size] at agrees
  exact agrees.2.2 0 (by decide)

end UsdAsset.Cache.Remote
