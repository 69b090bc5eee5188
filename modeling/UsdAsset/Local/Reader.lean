import UsdAsset.Io.AssetReader

/-!
# The local reader

Models `LocalAssetReader.cpp` over the four platform operations of
`PlatformFile.h`.  The operating system is a parameter: what it answers to the
calls of one handle, by their number.

The transfer loop is bounded by the length of the range, since every round that
goes on has delivered a byte.
-/

namespace UsdAsset.Local

open ByteString

variable {content : Bytes} {offset length : ℕ}

/-- Everything a filesystem can say about which bytes a file currently holds. -/
structure FileIdentity where
  size : ℕ
  deviceId : ℕ
  fileId : ℕ
  modifiedTicks : ℕ
  deriving DecidableEq, Repr

variable {identity : FileIdentity}

def formatIdentity (identity : FileIdentity) : Bytes :=
  decimal identity.deviceId ++ bytes ":" ++ decimal identity.fileId ++ bytes ":" ++
    decimal identity.size ++ bytes ":" ++ decimal identity.modifiedTicks

/-- An open handle: the answers to its calls, where a failed read delivers nothing. -/
structure PlatformFile where
  stat : ℕ → Except Status FileIdentity
  positionalRead : ℕ → ℕ → ℕ → Except Status Bytes
  delivered_le : ∀ {time offset size : ℕ} {data : Bytes},
    positionalRead time offset size = .ok data → data.length ≤ size

variable {file : PlatformFile}

structure LocalAssetReader where
  metadata : AssetMetadata
  openIdentity : FileIdentity
  /-- Caps what one positional read may deliver; absent outside a test. -/
  fault : Option (ℕ → ℕ → ℕ → ℕ) := none

variable {reader : LocalAssetReader}

/-- Opens `path`, given what the platform makes of it. -/
def localOpen (path : Bytes) (handle : Except Status PlatformFile) :
    Except Status LocalAssetReader :=
  match handle with
  | .error status => .error status
  | .ok file =>
      match file.stat 0 with
      | .error status => .error status
      | .ok identity =>
          let validator : Validator :=
            { value := formatIdentity identity, kind := .derived, strength := .strong }
          .ok
            { metadata :=
                { resolvedIdentifier := path
                  size := identity.size
                  supportsRandomAccess := true
                  validator
                  stability := classifyStability validator }
              openIdentity := identity }

structure Transfer where
  done : ℕ
  transport : Status
  dst : Buffer
  time : ℕ

variable {state : Transfer}

namespace LocalAssetReader

/-- How many bytes the next positional read may deliver. -/
def want (reader : LocalAssetReader) (time offset remaining : ℕ) : ℕ :=
  match reader.fault with
  | none => remaining
  | some fault => min remaining (fault time offset remaining)

def transfer (reader : LocalAssetReader) (file : PlatformFile) (offset length : ℕ) :
    ℕ → Transfer → Transfer
  | 0, state => state
  | rounds + 1, state =>
      if state.done < length then
        let want := reader.want state.time (offset + state.done) (length - state.done)
        if want = 0 then state
        else
          match file.positionalRead state.time (offset + state.done) want with
          | .error transport => { state with transport, time := state.time + 1 }
          | .ok data =>
              let state : Transfer :=
                { done := state.done + data.length
                  transport := .success
                  dst := state.dst.write state.done data
                  time := state.time + 1 }
              if data = [] then state else transfer reader file offset length rounds state
      else state

/-- The result of a transfer that was not republished underneath. -/
def settle (reader : LocalAssetReader) (offset length : ℕ) (state : Transfer) : ReadResult :=
  if !state.transport.isOk then ⟨state.done, state.transport⟩
  else if state.done < length then
    ⟨state.done, shortReadStatus offset length state.done reader.metadata.resolvedIdentifier⟩
  else ⟨state.done, .success⟩

def republishedStatus (reader : LocalAssetReader) (offset size : ℕ) : Status :=
  (Status.failure .assetChanged
    (bytes "asset was republished while it was open (" ++
      elideSecrets reader.metadata.resolvedIdentifier ++ bytes ")")).withRange offset size

def read (reader : LocalAssetReader) (file : PlatformFile) (offset : ℕ) (dstIsNull : Bool)
    (size : ℕ) (dst : Buffer) (time : ℕ) : ReadResult × Buffer :=
  let range := resolveReadRange offset size reader.metadata.size
  if range.outcome = .overflow then (⟨0, overflowStatus offset size⟩, dst)
  else if size > 0 ∧ dstIsNull then (⟨0, nullBufferStatus offset size⟩, dst)
  else if range.outcome = .empty then (⟨0, .success⟩, dst)
  else
    let state := reader.transfer file offset range.length range.length ⟨0, .success, dst, time⟩
    match file.stat state.time with
    | .ok current =>
        if current ≠ reader.openIdentity then
          (⟨0, reader.republishedStatus offset size⟩, state.dst)
        else (reader.settle offset range.length state, state.dst)
    | .error _ => (reader.settle offset range.length state, state.dst)

end LocalAssetReader

/-! ### An unchanging file -/

/--
A file that nobody writes to.  It keeps its identity, and a read of bytes it
holds delivers some of them.
-/
structure UnchangingFile (content : Bytes) (identity : FileIdentity) (file : PlatformFile) :
    Prop where
  size_eq : identity.size = content.length
  stat_eq : ∀ time, file.stat time = .ok identity
  reads : ∀ time offset size, 0 < size → offset < content.length →
    ∃ data, file.positionalRead time offset size = .ok data ∧ data ≠ [] ∧
      data <+: (content.drop offset).take size

namespace LocalAssetReader

/-- The transfer has copied the bytes before `done`, and nothing went wrong. -/
structure Copied (content : Bytes) (offset length : ℕ) (state : Transfer) : Prop where
  within : state.done ≤ length
  intact : state.transport = .success
  copied : ∀ position < state.done, content[offset + position]? = some (state.dst position)

theorem Copied.grow {data : Bytes} (sofar : Copied content offset length state)
    (window : data <+: (content.drop (offset + state.done)).take (length - state.done)) :
    Copied content offset length
      { done := state.done + data.length
        transport := .success
        dst := state.dst.write state.done data
        time := state.time + 1 } where
  within := by
    have within := sofar.within
    have delivered := window.length_le
    rw [List.length_take] at delivered
    dsimp only
    omega
  intact := rfl
  copied := by
    intro position counted
    dsimp only at counted ⊢
    by_cases before : position < state.done
    · rw [Buffer.write_of_not_covers fun covers => absurd covers.1 (by omega)]
      exact sofar.copied position before
    · have covers : Buffer.Covers state.done data position := ⟨by omega, counted⟩
      have byte := getElem?_of_prefix_window window covers.index_lt
      rw [Buffer.write_of_covers covers, ← byte]
      congr 1
      omega

theorem transfer_copied (unchanging : UnchangingFile content identity file)
    (faultless : reader.fault = none) (inside : offset + length ≤ content.length) (rounds : ℕ)
    (enough : length ≤ state.done + rounds) (sofar : Copied content offset length state) :
    Copied content offset length (reader.transfer file offset length rounds state) ∧
      (reader.transfer file offset length rounds state).done = length := by
  induction rounds generalizing state with
  | zero =>
    have within := sofar.within
    exact ⟨sofar, by simp only [transfer]; omega⟩
  | succ rounds ih =>
    by_cases short : state.done < length
    · rcases unchanging.reads state.time (offset + state.done) (length - state.done) (by omega)
        (by omega) with ⟨data, delivered, progress, window⟩
      have wanted : reader.want state.time (offset + state.done) (length - state.done) =
          length - state.done := by
        simp only [want, faultless]
      have positive : 0 < data.length := List.length_pos_iff.mpr progress
      have missing : ¬length - state.done = 0 := by omega
      simp only [transfer, if_pos short, wanted, delivered, if_neg progress, if_neg missing]
      apply ih
      · dsimp only
        omega
      · exact sofar.grow window
    · have within := sofar.within
      simp only [transfer, if_neg short]
      exact ⟨sofar, by omega⟩

theorem settle_complete (intact : state.transport = .success) (complete : state.done = length) :
    reader.settle offset length state = ⟨length, .success⟩ := by
  simp [settle, intact, complete, Status.isOk]

end LocalAssetReader

theorem localOpen_ok {path : Bytes} (stat : file.stat 0 = .ok identity)
    (opened : localOpen path (.ok file) = .ok reader) :
    reader.fault = none ∧ reader.openIdentity = identity ∧
      reader.metadata.size = identity.size := by
  simp only [localOpen, stat, Except.ok.injEq] at opened
  rw [← opened]
  exact ⟨rfl, rfl, rfl⟩

theorem localRead_returns {path : Bytes} (unchanging : UnchangingFile content identity file)
    (opened : localOpen path (.ok file) = .ok reader) (offset : ℕ) (dstIsNull : Bool) (size : ℕ)
    (dst : Buffer) (time : ℕ) :
    Returns (reader.read file offset dstIsNull size dst time).1
      (reader.read file offset dstIsNull size dst time).2
      (contentRead content offset dstIsNull size) := by
  rcases localOpen_ok (unchanging.stat_eq 0) opened with ⟨faultless, sameIdentity, sizeEq⟩
  simp only [LocalAssetReader.read, sizeEq, unchanging.size_eq, unchanging.stat_eq]
  apply returns_guarded id
  intro transfer buffered
  rcases resolveReadRange_transfer transfer with ⟨_, length, _, inside⟩
  rcases LocalAssetReader.transfer_copied unchanging faultless (by omega)
    (resolveReadRange offset size content.length).length (by simp)
    (⟨by simp, rfl, by simp⟩ : LocalAssetReader.Copied content offset
      (resolveReadRange offset size content.length).length ⟨0, .success, dst, time⟩) with
    ⟨copied, complete⟩
  rw [if_neg (by simp [sameIdentity]), LocalAssetReader.settle_complete copied.intact complete]
  apply returns_of_copied transfer buffered rfl rfl
  intro position counted
  exact copied.copied position (by rw [complete]; exact counted)

end UsdAsset.Local
