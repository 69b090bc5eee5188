import Mathlib.Data.List.Sort
import UsdAsset.Cache.Entry
import UsdAsset.Lib.FileSystem
import UsdAsset.Lib.Machine

/-!
# The persistent tier

Models `DiskBlockStore`: loads, stores, clears and sweeps over one file system, by any
number of processes.  A step of a call is one operation on the file system or one
locked section, so a run is any interleaving, and a process may die between any two
steps.  Whether an operation succeeds, how many bytes it moves and what a directory
walk comes across next is up to the event.

Each file carries the block its maker meant to write, and calls that have returned stay
on record; no step reads either.
-/

namespace UsdAsset.Cache

open ByteString

def entryRoot : Bytes := bytes "blocks-v1"

def entrySuffix : Bytes := bytes ".blk"

def tempSuffix : Bytes := bytes ".tmp"

def minBudgetEntries : ℕ := 4

def DiskCacheOptions.normalized (options : DiskCacheOptions) : DiskCacheOptions :=
  { options with budgetBytes := max options.budgetBytes minPersistentBudgetBytes }

/-! ### Paths -/

def pathSeparator : UInt8 := '/'

def joinPath (directory name : Bytes) : Bytes :=
  if directory.getLast? = some pathSeparator then directory ++ name
  else directory ++ [pathSeparator] ++ name

def fileName (path : Bytes) : Bytes :=
  match splitLast pathSeparator path with
  | none => path
  | some (_, name) => name

def pathFor (root name : Bytes) : Bytes :=
  joinPath (joinPath root (name.take 2)) (name ++ entrySuffix)

/-- A name in the directory of the entry, for one process and one write of it. -/
def temporaryFor (path : Bytes) (nonce counter : UInt64) : Bytes :=
  path ++ bytes "." ++ hexOf nonce ++ bytes "." ++ hexOf counter ++ tempSuffix

def isTemporary (path : Bytes) : Bool :=
  4 < (fileName path).length && tempSuffix.isSuffixOf (fileName path)

/-! ### The store of one process -/

structure DiskStats where
  hits : ℕ := 0
  misses : ℕ := 0
  writes : ℕ := 0
  writeFailures : ℕ := 0
  rejected : ℕ := 0
  discarded : ℕ := 0
  collisions : ℕ := 0
  bytesRead : ℕ := 0
  bytesWritten : ℕ := 0
  sweeps : ℕ := 0
  trimmed : ℕ := 0
  trimmedBytes : ℕ := 0
  deriving DecidableEq, Repr

structure DiskBlockStore where
  options : DiskCacheOptions := {}
  root : Bytes := []
  enabled : Bool := false
  swept : Bool := false
  knownBytes : ℕ := 0
  bytesSinceSweep : ℕ := 0
  largestEntryBytes : ℕ := 0
  epoch : ℕ := 0
  sweeping : Bool := false
  tempCounter : UInt64 := 0
  stats : DiskStats := {}
  deriving DecidableEq, Repr

/-- What a sweep needs out of the lock. -/
structure SweepPlan where
  root : Bytes
  budget : ℕ
  epoch : ℕ
  deriving DecidableEq, Repr

/-- A file that a sweep may delete. -/
structure Candidate where
  path : Bytes
  size : ℕ
  written : ℕ
  deriving DecidableEq, Repr

structure Sweep where
  plan : SweepPlan
  visited : List Bytes := []
  candidates : List Candidate := []
  total : ℕ := 0
  trimmed : ℕ := 0
  trimmedBytes : ℕ := 0
  deriving DecidableEq, Repr

namespace DiskBlockStore

/-- Adopts options; the store is disabled unless its directory could be prepared. -/
def configure (store : DiskBlockStore) (requested : DiskCacheOptions) (prepared : Bool) :
    DiskBlockStore :=
  let options := requested.normalized
  let reset : DiskBlockStore :=
    { store with
      options
      enabled := false
      root := []
      swept := false
      knownBytes := 0
      bytesSinceSweep := 0
      largestEntryBytes := 0
      epoch := store.epoch + 1 }
  if options.directory = [] then reset
  else if !prepared then reset
  else { reset with root := joinPath options.directory entryRoot, enabled := true }

def effectiveBudget (store : DiskBlockStore) : ℕ :=
  max store.options.budgetBytes (store.largestEntryBytes * minBudgetEntries)

def sweepInterval (store : DiskBlockStore) : ℕ :=
  max (store.effectiveBudget / 8) minPersistentBudgetBytes

/-- Claims the right to sweep, unless somebody has it. -/
def beginSweep (store : DiskBlockStore) : Option SweepPlan × DiskBlockStore :=
  if store.sweeping || !store.enabled then (none, store)
  else
    (some ⟨store.root, store.effectiveBudget, store.epoch⟩,
      { store with
        sweeping := true
        swept := true
        bytesSinceSweep := 0
        stats := { store.stats with sweeps := store.stats.sweeps + 1 } })

/-- Counts an entry that was published, and begins a sweep if one is due. -/
def account (store : DiskBlockStore) (size : ℕ) : Option SweepPlan × DiskBlockStore :=
  let counted : DiskBlockStore :=
    { store with
      bytesSinceSweep := store.bytesSinceSweep + size
      largestEntryBytes := max store.largestEntryBytes size
      stats :=
        { store.stats with
          writes := store.stats.writes + 1
          bytesWritten := store.stats.bytesWritten + size } }
  if !counted.swept || counted.bytesSinceSweep ≥ counted.sweepInterval then counted.beginSweep
  else (none, counted)

/-- Takes over what a sweep found, if it swept the directory the store still has. -/
def endSweep (store : DiskBlockStore) (sweep : Sweep) : DiskBlockStore :=
  { store with
    sweeping := false
    knownBytes := if store.epoch = sweep.plan.epoch then sweep.total else store.knownBytes
    stats :=
      { store.stats with
        trimmed := store.stats.trimmed + sweep.trimmed
        trimmedBytes := store.stats.trimmedBytes + sweep.trimmedBytes } }

def clear (store : DiskBlockStore) : DiskBlockStore :=
  { store with
    knownBytes := 0
    bytesSinceSweep := 0
    largestEntryBytes := 0
    swept := false
    epoch := store.epoch + 1 }

def reject (store : DiskBlockStore) : DiskBlockStore :=
  { store with stats := { store.stats with rejected := store.stats.rejected + 1 } }

def failWrite (store : DiskBlockStore) : DiskBlockStore :=
  { store with stats := { store.stats with writeFailures := store.stats.writeFailures + 1 } }

def discard (store : DiskBlockStore) : DiskBlockStore :=
  { store with stats := { store.stats with discarded := store.stats.discarded + 1 } }

def finish (store : DiskBlockStore) (outcome : DecodeOutcome) (expectedLength : ℕ) :
    DiskBlockStore :=
  match outcome with
  | .ok _ =>
      { store with
        stats :=
          { store.stats with
            hits := store.stats.hits + 1
            bytesRead := store.stats.bytesRead + expectedLength } }
  | .otherKey =>
      { store with
        stats :=
          { store.stats with
            collisions := store.stats.collisions + 1
            misses := store.stats.misses + 1 } }
  | _ => { store with stats := { store.stats with misses := store.stats.misses + 1 } }

end DiskBlockStore

/-! ### Sweeps -/

structure StoredBlock where
  key : CacheKey
  payload : Bytes
  deriving DecidableEq

def StoredBlock.encoded (block : StoredBlock) : Bytes :=
  encodeEntry block.key (digestOf block.key) block.payload

/-- A temporary this old belongs to a process that is not going to finish it. -/
def staleSeconds : ℕ := 3600

/-- A file the walk comes across: whether it is deleted as stale, or counted. -/
def Sweep.visit (sweep : Sweep) (path : Bytes) (file : Option (File StoredBlock)) (now : ℕ) :
    Bool × Sweep :=
  let sweep := { sweep with visited := path :: sweep.visited }
  match file with
  | none => (false, sweep)
  | some file =>
      if isTemporary path && decide (file.written + staleSeconds < now) then (true, sweep)
      else
        (false,
          { sweep with
            candidates := sweep.candidates ++ [⟨path, file.content.length, file.written⟩]
            total := sweep.total + file.content.length })

def Sweep.ordered (sweep : Sweep) : List Candidate :=
  sweep.candidates.mergeSort fun first second => first.written ≤ second.written

def Sweep.target (sweep : Sweep) : ℕ := sweep.plan.budget - sweep.plan.budget / 8

def Sweep.trim (sweep : Sweep) (candidate : Candidate) : Sweep :=
  { sweep with
    total := sweep.total - candidate.size
    trimmed := sweep.trimmed + 1
    trimmedBytes := sweep.trimmedBytes + candidate.size }

/-! ### Calls -/

inductive DiskRequest where
  | configure (options : DiskCacheOptions)
  | load (key : CacheKey) (expectedLength : ℕ) (outIsNull : Bool)
  | store (key : CacheKey) (persistable : Bool) (bytes : Option Bytes)
  | clear
  deriving DecidableEq

inductive DiskResult where
  | answered (value : Bool)
  | loaded (payload : Option Bytes)
  | cleared
  deriving DecidableEq

/-- Where a call is: what it does next. -/
inductive DiskPc where
  | start
  | makeDirectories (path : Bytes)
  | openTemporary (path : Bytes)
  | write (path temporary : Bytes) (file count : ℕ)
  | rename (path temporary : Bytes) (file : ℕ)
  /-- Removes the temporary, after a write or after a rename that failed. -/
  | abandon (temporary : Bytes) (target : Option Bytes)
  | checkPublished (path : Bytes)
  | failWrite
  | account
  | walk (sweep : Sweep)
  | trim (sweep : Sweep) (candidates : List Candidate)
  | endSweep (sweep : Sweep)
  | fileSize (path : Bytes)
  | openEntry (path : Bytes) (size : ℕ)
  | read (path : Bytes) (size file : ℕ) (raw : Bytes)
  | removeCorrupt (path : Bytes)
  | countDiscarded
  | finish (outcome : DecodeOutcome)
  | returned (result : DiskResult)
  | dead
  deriving DecidableEq

structure DiskCall where
  process : ℕ
  request : DiskRequest
  pc : DiskPc := .start

structure DiskProcess where
  nonce : UInt64
  alive : Bool := true
  store : DiskBlockStore := {}

/-- What the file system does to one step. -/
structure Choice where
  succeeds : Bool := true
  count : ℕ := 0
  path : Bytes := []

structure DiskSystem where
  disk : FileSystem StoredBlock := {}
  processes : List DiskProcess := []
  calls : List DiskCall := []

inductive DiskEvent where
  | start (nonce : UInt64)
  | call (process : ℕ) (request : DiskRequest)
  | step (callId : ℕ) (choice : Choice)
  | die (process : ℕ)
  | delete (path : Bytes)
  | truncate (path : Bytes) (length : ℕ)
  | extend (path data : Bytes)
  | tick (seconds : ℕ)

/-- A file that a load may come across. -/
def isEntryPath (path : Bytes) : Bool := entrySuffix.isSuffixOf path

/-- What a step of a call leads to: the disk, the store of its process, and its next step. -/
structure Outcome where
  disk : FileSystem StoredBlock
  store : DiskBlockStore
  pc : DiskPc

section Steps

variable (disk : FileSystem StoredBlock) (process : DiskProcess) (choice : Choice)

def goto (pc : DiskPc) : Outcome := ⟨disk, process.store, pc⟩

def startLoad (key : CacheKey) (expectedLength : ℕ) (outIsNull : Bool) : Outcome :=
  if outIsNull || expectedLength == 0 || decide (maxEntryPayload < expectedLength) then
    goto disk process (.returned (.loaded none))
  else if !process.store.enabled then goto disk process (.returned (.loaded none))
  else goto disk process (.fileSize (pathFor process.store.root (nameFor (digestOf key))))

def startStore (key : CacheKey) (persistable : Bool) (payload : Option Bytes) : Outcome :=
  match payload with
  | none => goto disk process (.returned (.answered false))
  | some bytes =>
      if bytes = [] ∨ maxEntryPayload < bytes.length then
        goto disk process (.returned (.answered false))
      else if !process.store.enabled then goto disk process (.returned (.answered false))
      else if !persistable then ⟨disk, process.store.reject, .returned (.answered false)⟩
      else goto disk process (.makeDirectories (pathFor process.store.root (nameFor (digestOf key))))

def startClear : Outcome :=
  if !process.store.enabled then goto disk process (.returned .cleared)
  else
    ⟨disk.removeUnder (process.store.root ++ [pathSeparator]), process.store.clear,
      .returned .cleared⟩

def start : DiskRequest → Outcome
  | .configure options =>
      let store := process.store.configure options choice.succeeds
      ⟨disk, store, .returned (.answered store.enabled)⟩
  | .load key expectedLength outIsNull => startLoad disk process key expectedLength outIsNull
  | .store key persistable bytes => startStore disk process key persistable bytes
  | .clear => startClear disk process

/-- The name is used up whether or not the file can be made. -/
def openTemporary (block : StoredBlock) (path : Bytes) : Outcome :=
  let temporary := temporaryFor path process.nonce process.store.tempCounter
  let store := { process.store with tempCounter := process.store.tempCounter + 1 }
  if choice.succeeds then
    let created := disk.create temporary block
    ⟨created.1, store, .write path temporary created.2 0⟩
  else ⟨disk, store, .failWrite⟩

/-- Some of the bytes that are left, or the end of the write. -/
def writeSome (block : StoredBlock) (path temporary : Bytes) (file count : ℕ) : Outcome :=
  if !choice.succeeds then goto disk process (.abandon temporary none)
  else if count < block.encoded.length then
    let data := slice block.encoded count choice.count
    ⟨disk.writeAt file count data, process.store, .write path temporary file (count + data.length)⟩
  else goto disk process (.rename path temporary file)

def rename (path temporary : Bytes) : Outcome :=
  if choice.succeeds && (disk.find temporary).isSome then
    ⟨disk.rename temporary path, process.store, .account⟩
  else goto disk process (.abandon temporary (some path))

def abandon (temporary : Bytes) (target : Option Bytes) : Outcome :=
  ⟨if choice.succeeds then disk.remove temporary else disk, process.store,
    match target with
    | none => .failWrite
    | some path => .checkPublished path⟩

/-- An entry that is there is the winner of a race, and no failure. -/
def checkPublished (path : Bytes) : Outcome :=
  if choice.succeeds && (disk.find path).isSome then
    goto disk process (.returned (.answered false))
  else goto disk process .failWrite

def accountEntry (size : ℕ) : Outcome :=
  match process.store.account size with
  | (none, store) => ⟨disk, store, .returned (.answered true)⟩
  | (some plan, store) => ⟨disk, store, .walk { plan }⟩

/-- The walk comes across one more file, or ends. -/
def walk (sweep : Sweep) : Outcome :=
  if choice.succeeds then
    if choice.path ∉ sweep.visited ∧ (sweep.plan.root ++ [pathSeparator]).isPrefixOf choice.path then
      let visit := sweep.visit choice.path (disk.fileAt choice.path) disk.now
      ⟨if visit.1 then disk.remove choice.path else disk, process.store, .walk visit.2⟩
    else goto disk process (.walk sweep)
  else if sweep.plan.budget < sweep.total then goto disk process (.trim sweep sweep.ordered)
  else goto disk process (.endSweep sweep)

def trim (sweep : Sweep) : List Candidate → Outcome
  | [] => goto disk process (.endSweep sweep)
  | candidate :: rest =>
      if sweep.total ≤ sweep.target then goto disk process (.endSweep sweep)
      else if choice.succeeds && (disk.find candidate.path).isSome then
        ⟨disk.remove candidate.path, process.store, .trim (sweep.trim candidate) rest⟩
      else goto disk process (.trim sweep rest)

/-- A file that is too large is not read. -/
def fileSize (path : Bytes) : Outcome :=
  match disk.fileAt path with
  | none => goto disk process (.finish .corrupt)
  | some file =>
      if !choice.succeeds || decide (headerBytes + maxEntryPayload < file.content.length) then
        goto disk process (.finish .corrupt)
      else goto disk process (.openEntry path file.content.length)

def openEntry (path : Bytes) (size : ℕ) : Outcome :=
  match disk.find path with
  | none => goto disk process (.finish .corrupt)
  | some file =>
      if choice.succeeds then goto disk process (.read path size file [])
      else goto disk process (.finish .corrupt)

/-- Some of the bytes that are left, or the end of the read; what was read is decoded. -/
def readSome (key : CacheKey) (expectedLength : ℕ) (path : Bytes) (size file : ℕ) (raw : Bytes) :
    Outcome :=
  if raw.length < size then
    match disk.files[file]? with
    | none => goto disk process (.finish .corrupt)
    | some found =>
        if choice.succeeds then
          goto disk process (.read path size file
            (raw ++ slice found.content raw.length (min choice.count (size - raw.length))))
        else goto disk process (.finish .corrupt)
  else
    match decodeEntry raw key (digestOf key) expectedLength with
    | .corrupt => goto disk process (.removeCorrupt path)
    | outcome => goto disk process (.finish outcome)

def removeCorrupt (path : Bytes) : Outcome :=
  ⟨if choice.succeeds then disk.remove path else disk, process.store, .countDiscarded⟩

def DecodeOutcome.payload? : DecodeOutcome → Option Bytes
  | .ok payload => some payload
  | _ => none

def advanceLoad (key : CacheKey) (expectedLength : ℕ) : DiskPc → Option Outcome
  | .fileSize path => some (fileSize disk process choice path)
  | .openEntry path size => some (openEntry disk process choice path size)
  | .read path size file raw =>
      some (readSome disk process choice key expectedLength path size file raw)
  | .removeCorrupt path => some (removeCorrupt disk process choice path)
  | .countDiscarded => some ⟨disk, process.store.discard, .finish .corrupt⟩
  | .finish outcome =>
      some ⟨disk, process.store.finish outcome expectedLength, .returned (.loaded outcome.payload?)⟩
  | _ => none

def advanceStore (block : StoredBlock) : DiskPc → Option Outcome
  | .makeDirectories path =>
      some (goto disk process (if choice.succeeds then .openTemporary path else .failWrite))
  | .openTemporary path => some (openTemporary disk process choice block path)
  | .write path temporary file count =>
      some (writeSome disk process choice block path temporary file count)
  | .rename path temporary _ => some (rename disk process choice path temporary)
  | .abandon temporary target => some (abandon disk process choice temporary target)
  | .checkPublished path => some (checkPublished disk process choice path)
  | .failWrite => some ⟨disk, process.store.failWrite, .returned (.answered false)⟩
  | .account => some (accountEntry disk process block.encoded.length)
  | .walk sweep => some (walk disk process choice sweep)
  | .trim sweep candidates => some (trim disk process choice sweep candidates)
  | .endSweep sweep => some ⟨disk, process.store.endSweep sweep, .returned (.answered true)⟩
  | _ => none

def advance (call : DiskCall) : Option Outcome :=
  match call.pc with
  | .start => some (start disk process choice call.request)
  | pc =>
      match call.request with
      | .load key expectedLength _ => advanceLoad disk process choice key expectedLength pc
      | .store key _ (some payload) => advanceStore disk process choice ⟨key, payload⟩ pc
      | _ => none

end Steps

/-- What a call has returned outlives its process; anything else does not. -/
def DiskCall.killed (process : ℕ) (call : DiskCall) : DiskCall :=
  match call.pc with
  | .returned _ => call
  | _ => if call.process = process then { call with pc := .dead } else call

namespace DiskSystem

def after (system : DiskSystem) (callId : ℕ) (call : DiskCall) (process : DiskProcess)
    (outcome : Outcome) : DiskSystem where
  disk := outcome.disk
  processes := system.processes.set call.process { process with store := outcome.store }
  calls := system.calls.set callId { call with pc := outcome.pc }

def die (system : DiskSystem) (process : ℕ) : DiskSystem :=
  { system with
    processes := system.processes.modify process fun found => { found with alive := false }
    calls := system.calls.map (DiskCall.killed process) }

/-- Changes the length of an entry's file. -/
def damage (system : DiskSystem) (path : Bytes) (change : Bytes → Bytes) : Option DiskSystem :=
  if isEntryPath path then
    (system.disk.find path).map fun file =>
      { system with disk := system.disk.modify file change }
  else none

def step (system : DiskSystem) : DiskEvent → Option DiskSystem
  | .start nonce => some { system with processes := system.processes ++ [{ nonce }] }
  | .call process request =>
      (system.processes[process]?).bind fun found =>
        if found.alive then some { system with calls := system.calls ++ [{ process, request }] }
        else none
  | .step callId choice =>
      (system.calls[callId]?).bind fun call =>
        (system.processes[call.process]?).bind fun process =>
          (advance system.disk process choice call).map fun outcome =>
            system.after callId call process outcome
  | .die process => some (system.die process)
  | .delete path => some { system with disk := system.disk.remove path }
  | .truncate path length => system.damage path fun content => content.take length
  | .extend path data => system.damage path fun content => content ++ data
  | .tick seconds =>
      some { system with disk := { system.disk with now := system.disk.now + seconds } }

end DiskSystem

end UsdAsset.Cache
