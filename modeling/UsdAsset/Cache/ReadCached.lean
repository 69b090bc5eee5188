import UsdAsset.Io.AssetReader
import UsdAsset.Cache.BlockCache
import UsdAsset.Cache.OwnedBlocks
import UsdAsset.Cache.Plan

/-!
# One read through the cache

Models `CachedAssetReader::Read` and `ReadCached` of `CachedAssetReader.cpp` as a
machine: a call stands at a program counter, and a step is one operation on the
store, one inner read, one operation on the persistent tier or one silent move.
The inner reader and the persistent tier are outside the model; what they answer
comes in with the step.

An inner read that is handed `size` bytes of memory may leave anything in them.
Its effect is one run of bytes from the start of that memory, because a byte it
did not touch can be repeated in the run.
-/

namespace UsdAsset.Cache

/-- The part of one block that the caller's range covers, copied to the caller. -/
def copyOverlap (dst : Buffer) (rangeOffset rangeLength blockOffset : ℕ) (blockBytes : Bytes)
    (blockLength : ℕ) : ℕ × Buffer :=
  let begin := max rangeOffset blockOffset
  let «end» := min (rangeOffset + rangeLength) (blockOffset + blockLength)
  if «end» ≤ begin then (0, dst)
  else
    («end» - begin,
      dst.write (begin - rangeOffset)
        ((blockBytes.drop (begin - blockOffset)).take («end» - begin)))

/-! ### Readers and calls -/

/-- A reader over an inner one; its binding was made for its own identity. -/
structure CachedAssetReader where
  metadata : AssetMetadata
  options : CacheOptions
  binding : Binding
  persistentEnabled : Bool
  blockSize_pos : 0 < options.blockSize
  identity_eq : binding.identity =
    ⟨metadata.resolvedIdentifier, metadata.validator.value, options.blockSize⟩
  isPrivate_eq : binding.isPrivate = !isShareable metadata.validator

namespace CachedAssetReader

def wrap (metadata : AssetMetadata) (requested : CacheOptions) (persistentEnabled : Bool)
    (store : BlockCache) : CachedAssetReader × BlockCache :=
  let options := requested.normalized
  ({ metadata
     options
     binding := (store.bind metadata.resolvedIdentifier metadata.validator options.blockSize).1
     persistentEnabled
     blockSize_pos := requested.normalized_blockSize_pos
     identity_eq := store.bind_identity _ _ _
     isPrivate_eq := store.bind_isPrivate _ _ _ },
    (store.bind metadata.resolvedIdentifier metadata.validator options.blockSize).2)

/-- Whether the persistent tier is read for this reader. -/
def persists (reader : CachedAssetReader) : Bool :=
  reader.persistentEnabled && persistable reader.metadata.validator

def key (reader : CachedAssetReader) (block : ℕ) : ShardKey := ⟨reader.binding.identityId, block⟩

def extent (reader : CachedAssetReader) (block : ℕ) : BlockExtent :=
  extentOf block reader.options.blockSize reader.metadata.size

end CachedAssetReader

/-- The arguments of a read, with the memory behind its pointer. -/
structure ReadRequest where
  offset : ℕ
  dst : Buffer
  dstIsNull : Bool
  size : ℕ

/-- What one read adds to the counters of its reader. -/
structure CacheMetrics where
  bytesRequested : ℕ := 0
  bytesFromCache : ℕ := 0
  bytesOverFetched : ℕ := 0
  blockHits : ℕ := 0
  blockMisses : ℕ := 0
  partialHits : ℕ := 0
  evictions : ℕ := 0
  persistedHits : ℕ := 0
  persistedWrites : ℕ := 0
  requestsSavedByCoalescing : ℕ := 0
  requestsSavedBySingleFlight : ℕ := 0
  deriving DecidableEq, Repr

/-- A record, for the statements only, of what became of the blocks of one pass. -/
structure Ledger where
  acquired : List ℕ := []
  published : List ℕ := []
  abandoned : List ℕ := []
  deriving DecidableEq, Repr

/-- Where a call stands. -/
inductive Pc where
  | acquire (i : ℕ)
  | mismatch (i : ℕ)
  | load (todo : List ℕ)
  | publishLoaded (block : ℕ) (payload : Bytes) (todo : List ℕ)
  | fetch (runs : List FetchRun)
  | publishFetched (run : FetchRun) (transfer : Bytes) (taken : ℕ) (runs : List FetchRun)
  | persist (block : ℕ) (run : FetchRun) (transfer : Bytes) (taken : ℕ) (runs : List FetchRun)
  | giveUp (result : ReadResult)
  | await (todo : List ℕ)
  | endPass (last : Bool)
  | direct (i : ℕ)
  | bypass
  | returned (result : ReadResult)
  deriving DecidableEq, Repr

/-- What the surroundings answer to a step. -/
inductive Answer where
  | silent
  | read (result : ReadResult) (written : Bytes)
  | loaded (payload : Option Bytes)
  | persisted (stored : Bool)
  deriving DecidableEq, Repr

/-- One call of `Read`; `i` counts the blocks of its span. -/
structure Call where
  reader : CachedAssetReader
  request : ReadRequest
  pass : ℕ
  resolved : ℕ → Bool
  owned : OwnedBlocks
  busy : List ℕ
  cacheServed : ℕ
  served : ℕ
  dst : Buffer
  metrics : CacheMetrics
  ledger : Ledger
  pc : Pc

def maxCooperativePasses : ℕ := 3

namespace Call

def range (call : Call) : ReadRange :=
  resolveReadRange call.request.offset call.request.size call.reader.metadata.size

def blockSize (call : Call) : ℕ := call.reader.options.blockSize

def span (call : Call) : BlockSpan :=
  coveringBlocks call.range.offset call.range.length call.blockSize

def key (call : Call) (block : ℕ) : ShardKey := call.reader.key block

def extent (call : Call) (block : ℕ) : BlockExtent := call.reader.extent block

/-- The bytes of the asset that the range takes from block `i`. -/
def window (call : Call) (i : ℕ) : BlockExtent :=
  let extent := call.extent (call.span.first + i)
  let begin := max call.range.offset extent.offset
  let «end» := min (call.range.offset + call.range.length) (extent.offset + extent.length)
  ⟨begin, «end» - begin⟩

def outstanding (call : Call) : List ℕ := call.owned.outstanding

/-- A call at its first step, or already returned where nothing has to be read. -/
def start (reader : CachedAssetReader) (request : ReadRequest) : Call :=
  let range := resolveReadRange request.offset request.size reader.metadata.size
  { reader
    request
    pass := 0
    resolved := fun _ => false
    owned := .empty
    busy := []
    cacheServed := 0
    served := 0
    dst := request.dst
    metrics := { bytesRequested := request.size }
    ledger := {}
    pc :=
      if range.outcome = .overflow then .returned ⟨0, overflowStatus request.offset request.size⟩
      else if request.size > 0 ∧ request.dstIsNull then
        .returned ⟨0, nullBufferStatus request.offset request.size⟩
      else if range.outcome = .empty then .returned ⟨0, .success⟩
      else if range.length ≥ reader.options.bypassThresholdBytes then .bypass
      else .acquire 0 }

/-! ### Copying a block out -/

def overlap (call : Call) (i : ℕ) (bytes : Bytes) : ℕ × Buffer :=
  let extent := call.extent (call.span.first + i)
  copyOverlap call.dst call.range.offset call.range.length extent.offset bytes extent.length

/-- Copies block `i` and counts it as resolved. -/
def resolve (call : Call) (i : ℕ) (bytes : Bytes) : Call :=
  { call with
    dst := (call.overlap i bytes).2
    served := call.served + (call.overlap i bytes).1
    resolved := Function.update call.resolved i true }

/-- Copies a block that came out of the store or from the persistent tier. -/
def serveFromCache (call : Call) (i : ℕ) (bytes : Bytes) : Call :=
  { call.resolve i bytes with
    cacheServed := call.cacheServed + 1
    metrics := { call.metrics with
      bytesFromCache := call.metrics.bytesFromCache + (call.overlap i bytes).1 } }

/-- `ReadDirect` into the part of the caller's memory that block `i` covers. -/
def readDirect (call : Call) (i : ℕ) (result : ReadResult) (written : Bytes) : Call × Status :=
  let window := call.window i
  ({ call with dst := call.dst.write (window.offset - call.range.offset) written },
    if !result.status.isOk then result.status
    else if result.bytesRead ≠ window.length then
      shortReadStatus window.offset window.length result.bytesRead
        call.reader.metadata.resolvedIdentifier
    else .success)

/-- A direct read of block `i` that failed ends the call, and one that did not resolves it. -/
def settleDirect (call : Call) (i : ℕ) (result : ReadResult) (written : Bytes)
    (resume : Pc) : Call :=
  let direct := call.readDirect i result written
  if direct.2.isOk then
    { direct.1 with
      served := call.served + (call.window i).length
      resolved := Function.update call.resolved i true
      metrics := { call.metrics with blockMisses := call.metrics.blockMisses + 1 }
      pc := resume }
  else { direct.1 with pc := .giveUp ⟨0, direct.2⟩ }

/-! ### The steps of a pass -/

def acquired (call : Call) (i : ℕ) : Acquisition → Call
  | .hit block =>
      if block.length = (call.extent (call.span.first + i)).length then
        { call.serveFromCache i block with pc := .acquire (i + 1) }
      else { call with pc := .mismatch i }
  | .owned =>
      { call with
        owned := call.owned.add (call.span.first + i)
        ledger := { call.ledger with
          acquired := call.ledger.acquired ++ [call.span.first + i] }
        pc := .acquire (i + 1) }
  | .busy => { call with busy := call.busy ++ [i], pc := .acquire (i + 1) }

/-- What a pass goes on with when the persistent tier has been asked. -/
def planned (call : Call) : Call :=
  if call.owned.allSettled then
    if call.busy = [] then { call with pc := .endPass true }
    else { call with pc := .await call.busy }
  else
    let runs := planRuns call.blockSize call.reader.metadata.size
      call.reader.options.coalesceGapBlocks call.reader.options.maxRequestBytes call.outstanding
    { call with
      metrics := { call.metrics with
        requestsSavedByCoalescing :=
          call.metrics.requestsSavedByCoalescing + (call.owned.count - runs.length) }
      pc := .fetch runs }

/-- The pass has tried every block. -/
def acquireDone (call : Call) : Call :=
  if call.reader.persists && !call.owned.allSettled then
    { call with pc := .load call.outstanding }
  else call.planned

def loaded (call : Call) (block : ℕ) (todo : List ℕ) : Option Bytes → Call
  | none => { call with pc := .load todo }
  | some payload => { call with pc := .publishLoaded block payload todo }

def publishedLoaded (call : Call) (block : ℕ) (payload : Bytes) (todo : List ℕ)
    (evicted : ℕ) : Call :=
  let served := call.serveFromCache (block - call.span.first) payload
  { served with
    owned := call.owned.settle block
    ledger := { call.ledger with published := call.ledger.published ++ [block] }
    metrics := { served.metrics with
      evictions := call.metrics.evictions + evicted
      persistedHits := call.metrics.persistedHits + 1 }
    pc := .load todo }

def fetched (call : Call) (run : FetchRun) (runs : List FetchRun) (result : ReadResult)
    (written : Bytes) : Call :=
  if !result.status.isOk then { call with pc := .giveUp ⟨0, result.status⟩ }
  else if result.bytesRead ≠ run.length then
    { call with
      pc := .giveUp ⟨0, shortReadStatus run.offset run.length result.bytesRead
        call.reader.metadata.resolvedIdentifier⟩ }
  else
    let transfer := written ++ List.replicate (run.length - written.length) 0
    { call with pc := .publishFetched run transfer 0 runs }

/-- The bytes of a block inside the transfer of its run. -/
def blockBytes (call : Call) (run : FetchRun) (transfer : Bytes) (block : ℕ) : Bytes :=
  let extent := call.extent block
  (transfer.drop (extent.offset - run.offset)).take extent.length

/-- Whether the next owned block belongs to a run. -/
def inRun (call : Call) (run : FetchRun) : Bool :=
  !call.owned.allSettled && decide (call.owned.next ≤ run.last)

def publishedFetched (call : Call) (run : FetchRun) (transfer : Bytes) (taken : ℕ)
    (runs : List FetchRun) (evicted : ℕ) : Call :=
  { call with
    owned := call.owned.markPublished
    ledger := { call.ledger with published := call.ledger.published ++ [call.owned.next] }
    metrics := { call.metrics with
      evictions := call.metrics.evictions + evicted
      blockMisses := call.metrics.blockMisses + 1 }
    pc := .persist call.owned.next run transfer taken runs }

def persisted (call : Call) (block : ℕ) (run : FetchRun) (transfer : Bytes) (taken : ℕ)
    (runs : List FetchRun) (stored : Bool) : Call :=
  let i := block - call.span.first
  let bytes := call.blockBytes run transfer block
  { call.resolve i bytes with
    metrics := { call.metrics with
      persistedWrites := call.metrics.persistedWrites + if stored then 1 else 0 }
    pc := .publishFetched run transfer (taken + (call.overlap i bytes).1) runs }

def runDone (call : Call) (run : FetchRun) (taken : ℕ) (runs : List FetchRun) : Call :=
  { call with
    metrics := { call.metrics with
      bytesOverFetched := call.metrics.bytesOverFetched + overFetchedBytes run taken }
    pc := .fetch runs }

def awaited (call : Call) (i : ℕ) (todo : List ℕ) (block : Option Bytes) : Call :=
  match block with
  | none => { call with pc := .await todo }
  | some block =>
      if block.length = (call.extent (call.span.first + i)).length then
        let served := call.serveFromCache i block
        { served with
          metrics := { served.metrics with
            requestsSavedBySingleFlight := call.metrics.requestsSavedBySingleFlight + 1 }
          pc := .await todo }
      else { call with pc := .await todo }

/-- One block of `AbandonAll`, which forgets its list after the last one. -/
def handedBack (call : Call) : Call :=
  let owned := call.owned.settle call.owned.next
  { call with
    owned := if owned.allSettled then .empty else owned
    ledger := { call.ledger with abandoned := call.ledger.abandoned ++ [call.owned.next] } }

/-- The end of a pass: another one, or what is left is read directly. -/
def passDone (call : Call) (last : Bool) : Call :=
  if last || decide (call.pass + 1 ≥ maxCooperativePasses) then { call with pc := .direct 0 }
  else
    { call with
      pass := call.pass + 1
      owned := .empty
      busy := []
      ledger := {}
      pc := .acquire 0 }

def finished (call : Call) : Call :=
  { call with
    metrics :=
      if call.cacheServed = call.span.count then
        { call.metrics with blockHits := call.metrics.blockHits + 1 }
      else if call.cacheServed > 0 then
        { call.metrics with partialHits := call.metrics.partialHits + 1 }
      else call.metrics
    pc := .returned
      (if call.served ≠ call.range.length then
        ⟨0, shortReadStatus call.range.offset call.range.length call.served
          call.reader.metadata.resolvedIdentifier⟩
      else ⟨call.range.length, .success⟩) }

/-! ### One step -/

/-- Whether every block still owned is handed back here before anything else happens. -/
def handsBack (call : Call) : Bool :=
  match call.pc with
  | .mismatch _ | .giveUp _ | .endPass _ => !call.owned.allSettled
  | _ => false

/-- The publication a call makes where it stands. -/
def publication (call : Call) : Option (ℕ × Bytes) :=
  match call.pc with
  | .publishLoaded block payload _ => some (block, payload)
  | .publishFetched run transfer _ _ =>
      if call.inRun run then some (call.owned.next, call.blockBytes run transfer call.owned.next)
      else none
  | _ => none

/-- The step of a call that stands at block `i` of its acquisitions. -/
def acquireStep (call : Call) (store : BlockCache) (i : ℕ) : Call × BlockCache :=
  if i < call.span.count then
    if call.resolved i then ({ call with pc := .acquire (i + 1) }, store)
    else
      let outcome := store.acquire (call.key (call.span.first + i))
      (call.acquired i outcome.1, outcome.2)
  else (call.acquireDone, store)

/-- The step of a call that reads what is left directly. -/
def directStep (call : Call) (i : ℕ) (answer : Answer) : Option Call :=
  if i < call.span.count then
    if call.resolved i then
      if answer = .silent then some { call with pc := .direct (i + 1) } else none
    else
      match answer with
      | .read result written => some (call.settleDirect i result written (.direct (i + 1)))
      | _ => none
  else if answer = .silent then some call.finished else none

/-- The step of a call whose pass publishes what it fetched. -/
def publishStep (call : Call) (store : BlockCache) (run : FetchRun) (transfer : Bytes) (taken : ℕ)
    (runs : List FetchRun) : Call × BlockCache :=
  if call.inRun run then
    let outcome := store.publish (call.key call.owned.next)
      (call.blockBytes run transfer call.owned.next)
    (call.publishedFetched run transfer taken runs outcome.1, outcome.2)
  else (call.runDone run taken runs, store)

/-- The write to the persistent tier happens only where there is one. -/
def persistStep (call : Call) (block : ℕ) (run : FetchRun) (transfer : Bytes) (taken : ℕ)
    (runs : List FetchRun) : Answer → Option Call
  | .silent =>
      if call.reader.persistentEnabled then none
      else some (call.persisted block run transfer taken runs false)
  | .persisted stored =>
      if call.reader.persistentEnabled then
        some (call.persisted block run transfer taken runs stored)
      else none
  | _ => none

/-- The step at a place where nothing is handed back; nothing where the call has to wait. -/
def advance (call : Call) (store : BlockCache) (answer : Answer) : Option (Call × BlockCache) :=
  match call.pc, answer with
  | .acquire i, .silent => some (call.acquireStep store i)
  | .mismatch i, .read result written =>
      some (call.settleDirect i result written (.acquire (i + 1)), store)
  | .load [], .silent => some (call.planned, store)
  | .load (block :: todo), .loaded payload => some (call.loaded block todo payload, store)
  | .publishLoaded block payload todo, .silent =>
      let outcome := store.publish (call.key block) payload
      some (call.publishedLoaded block payload todo outcome.1, outcome.2)
  | .fetch [], .silent => some ({ call with pc := .await call.busy }, store)
  | .fetch (run :: runs), .read result written =>
      some (call.fetched run runs result written, store)
  | .publishFetched run transfer taken runs, .silent =>
      some (call.publishStep store run transfer taken runs)
  | .persist block run transfer taken runs, answer =>
      (call.persistStep block run transfer taken runs answer).map (·, store)
  | .giveUp result, .silent => some ({ call with pc := .returned result }, store)
  | .await [], .silent => some ({ call with pc := .endPass false }, store)
  | .await (i :: todo), .silent =>
      (store.await (call.key (call.span.first + i))).map fun outcome =>
        (call.awaited i todo outcome.1, outcome.2)
  | .endPass last, .silent => some (call.passDone last, store)
  | .direct i, answer => (call.directStep i answer).map (·, store)
  | .bypass, .read result written =>
      some ({ call with dst := call.dst.write 0 written, pc := .returned result }, store)
  | _, _ => none

def step (call : Call) (store : BlockCache) (answer : Answer) : Option (Call × BlockCache) :=
  if call.handsBack then
    if answer = .silent then some (call.handedBack, store.abandon (call.key call.owned.next))
    else none
  else call.advance store answer

end Call

end UsdAsset.Cache
