import UsdAsset.Io.Diagnostics
import UsdAsset.Io.Validator
import UsdAsset.Lib.Buffer

/-!
# The read contract and its range arithmetic

Models `usdAssetIo/AssetReader.h` and `RangeMath.cpp`: the metadata a reader
captures at open, the result of one read, and the resolution of an
`(offset, size)` request against the asset size.  Every backend and the cache
resolve a request through `resolveReadRange`.
-/

namespace UsdAsset

open ByteString

variable {offset size assetSize : ℕ} {content : Bytes} {dstIsNull : Bool}

/-- Everything discovered at open, immutable for the reader's lifetime. -/
structure AssetMetadata where
  resolvedIdentifier : Bytes
  size : ℕ
  supportsRandomAccess : Bool := false
  validator : Validator := {}
  stability : IdentityStability := .unavailable
  contentType : Bytes := []
  deriving DecidableEq, Repr

structure ReadResult where
  bytesRead : ℕ
  status : Status
  deriving DecidableEq, Repr

def maxU64 : ℕ := 2 ^ 64 - 1

/-- What a request resolves to against a known asset size. -/
inductive ReadRangeOutcome where
  | empty
  | transfer
  | overflow
  deriving DecidableEq, Repr

/-- A resolved request; the length is zero unless there are bytes to transfer. -/
structure ReadRange where
  outcome : ReadRangeOutcome
  offset : ℕ
  length : ℕ
  deriving DecidableEq, Repr

/--
Resolves a read request against the asset size captured at open.  Overflow is
checked first, as a subtraction, so that the sum is never evaluated.
-/
def resolveReadRange (offset size assetSize : ℕ) : ReadRange :=
  if offset > maxU64 - size then ⟨.overflow, offset, 0⟩
  else if size = 0 ∨ offset ≥ assetSize then ⟨.empty, offset, 0⟩
  else
    let remaining := assetSize - offset
    let available := if remaining < size then remaining else size
    ⟨.transfer, offset, available⟩

def overflowStatus (offset size : ℕ) : Status :=
  (Status.failure .invalidArgument
    (bytes "read offset " ++ decimal offset ++ bytes " plus length " ++ decimal size ++
      bytes " overflows a 64-bit byte offset")).withRange offset size

def nullBufferStatus (offset size : ℕ) : Status :=
  (Status.failure .invalidArgument (bytes "read destination buffer is null")).withRange
    offset size

/-- The status of a transfer that stopped below the end of the asset. -/
def shortReadStatus (offset expected actual : ℕ) (identifier : Bytes) : Status :=
  let message :=
    bytes "transfer stopped below end of asset (requested " ++ decimal expected ++
      bytes " bytes at offset " ++ decimal offset ++ bytes ", delivered " ++
      decimal actual ++ bytes ")"
  let located := if identifier = [] then message
    else message ++ bytes " " ++ elideSecrets identifier
  (Status.failure .invalidResponse located).withRange offset expected

theorem resolveReadRange_offset (offset size assetSize : ℕ) :
    (resolveReadRange offset size assetSize).offset = offset := by
  unfold resolveReadRange
  split
  · rfl
  · split <;> rfl

theorem resolveReadRange_transfer
    (transfer : (resolveReadRange offset size assetSize).outcome = .transfer) :
    0 < (resolveReadRange offset size assetSize).length ∧
      (resolveReadRange offset size assetSize).length = min size (assetSize - offset) ∧
      (size ≤ maxU64 → offset + size ≤ maxU64) ∧ offset < assetSize := by
  unfold resolveReadRange at transfer ⊢
  split at transfer
  · simp at transfer
  · rename_i fits
    split at transfer
    · simp at transfer
    · rename_i nonempty
      rw [if_neg fits, if_neg nonempty]
      simp only [maxU64] at fits ⊢
      refine ⟨?_, ?_, ?_, ?_⟩
      · split <;> omega
      · split <;> omega
      · omega
      · omega

theorem resolveReadRange_length
    (fits : (resolveReadRange offset size assetSize).outcome ≠ .overflow) :
    (resolveReadRange offset size assetSize).length = min size (assetSize - offset) := by
  unfold resolveReadRange at fits ⊢
  split at fits
  · simp at fits
  · rename_i inRange
    rw [if_neg inRange]
    split
    · dsimp only
      omega
    · dsimp only
      split <;> omega

theorem resolveReadRange_length_of_ne
    (other : (resolveReadRange offset size assetSize).outcome ≠ .transfer) :
    (resolveReadRange offset size assetSize).length = 0 := by
  unfold resolveReadRange at other ⊢
  split
  · rfl
  · split
    · rfl
    · rename_i fits nonempty
      simp [fits, nonempty] at other

/-! ### What a read is for -/

/-- The code and the bytes that a read of a fixed content is meant to return. -/
def contentRead (content : Bytes) (offset : ℕ) (dstIsNull : Bool) (size : ℕ) :
    StatusCode × Bytes :=
  if (resolveReadRange offset size content.length).outcome = .overflow then (.invalidArgument, [])
  else if size > 0 ∧ dstIsNull then (.invalidArgument, [])
  else (.ok, (content.drop offset).take size)

/-- A read returned the code, the count and the bytes that were meant. -/
structure Returns (result : ReadResult) (dst : Buffer) (meant : StatusCode × Bytes) : Prop where
  code : result.status.code = meant.1
  count : result.bytesRead = meant.2.length
  delivered : ∀ position < result.bytesRead, meant.2[position]? = some (dst position)

theorem Returns.agree {left right : ReadResult} {leftDst rightDst : Buffer}
    {meant : StatusCode × Bytes} (leftReturns : Returns left leftDst meant)
    (rightReturns : Returns right rightDst meant) :
    left.status.code = right.status.code ∧ left.bytesRead = right.bytesRead ∧
      ∀ position < left.bytesRead, leftDst position = rightDst position := by
  have count : left.bytesRead = right.bytesRead := leftReturns.count.trans rightReturns.count.symm
  refine ⟨leftReturns.code.trans rightReturns.code.symm, count, ?_⟩
  intro position counted
  have left := leftReturns.delivered position counted
  have right := rightReturns.delivered position (count ▸ counted)
  exact Option.some.inj (left.symm.trans right)

theorem contentRead_transfer
    (transfer : (resolveReadRange offset size content.length).outcome = .transfer)
    (buffered : ¬(size > 0 ∧ dstIsNull = true)) :
    contentRead content offset dstIsNull size = (.ok, (content.drop offset).take size) ∧
      ((content.drop offset).take size).length =
        (resolveReadRange offset size content.length).length := by
  constructor
  · simp [contentRead, transfer, buffered]
  · rw [(resolveReadRange_transfer transfer).2.1]
    simp

theorem returns_of_copied {result : ReadResult} {dst : Buffer}
    (transfer : (resolveReadRange offset size content.length).outcome = .transfer)
    (buffered : ¬(size > 0 ∧ dstIsNull = true)) (code : result.status.code = .ok)
    (count : result.bytesRead = (resolveReadRange offset size content.length).length)
    (copied : ∀ position < result.bytesRead, content[offset + position]? = some (dst position)) :
    Returns result dst (contentRead content offset dstIsNull size) := by
  rcases contentRead_transfer transfer buffered with ⟨meant, length⟩
  rw [meant]
  refine ⟨code, count.trans length.symm, ?_⟩
  intro position counted
  have within : position < size := by
    have shorter := (resolveReadRange_transfer transfer).2.1
    omega
  rw [List.getElem?_take_of_lt within, List.getElem?_drop]
  exact copied position counted

theorem contentRead_empty (empty : (resolveReadRange offset size content.length).outcome = .empty)
    (buffered : ¬(size > 0 ∧ dstIsNull = true)) :
    contentRead content offset dstIsNull size = (.ok, []) := by
  have length := resolveReadRange_length (by simp [empty] :
    (resolveReadRange offset size content.length).outcome ≠ .overflow)
  rw [resolveReadRange_length_of_ne (by simp [empty])] at length
  have none : (content.drop offset).take size = [] := by
    apply List.eq_nil_of_length_eq_zero
    simp
    omega
  simp [contentRead, empty, buffered, none]

/-! ### The guards of a read -/

section Guards

theorem returns_overflow (dst : Buffer)
    (overflow : (resolveReadRange offset size content.length).outcome = .overflow) :
    Returns ⟨0, overflowStatus offset size⟩ dst (contentRead content offset dstIsNull size) := by
  simp only [contentRead, if_pos overflow]
  exact ⟨rfl, rfl, nofun⟩

theorem returns_null (dst : Buffer)
    (fits : (resolveReadRange offset size content.length).outcome ≠ .overflow)
    (unbuffered : size > 0 ∧ dstIsNull = true) :
    Returns ⟨0, nullBufferStatus offset size⟩ dst (contentRead content offset dstIsNull size) := by
  simp only [contentRead, if_neg fits, if_pos unbuffered]
  exact ⟨rfl, rfl, nofun⟩

theorem returns_empty (dst : Buffer)
    (empty : (resolveReadRange offset size content.length).outcome = .empty)
    (buffered : ¬(size > 0 ∧ dstIsNull = true)) :
    Returns ⟨0, .success⟩ dst (contentRead content offset dstIsNull size) := by
  rw [contentRead_empty empty buffered]
  exact ⟨rfl, rfl, nofun⟩

theorem outcome_eq_transfer {outcome : ReadRangeOutcome} (fits : outcome ≠ .overflow)
    (nonempty : outcome ≠ .empty) : outcome = .transfer := by
  cases outcome with
  | overflow => exact absurd rfl fits
  | empty => exact absurd rfl nonempty
  | transfer => rfl

/--
Every reader guards its transfer the same way, so only the transfer itself is
left to be shown to return what is meant.
-/
theorem returns_guarded {State : Type} (memory : State → Buffer) {start : State}
    {transferred : ReadResult × State}
    (returns : (resolveReadRange offset size content.length).outcome = .transfer →
      ¬(size > 0 ∧ dstIsNull = true) →
      Returns transferred.1 (memory transferred.2) (contentRead content offset dstIsNull size)) :
    let range := resolveReadRange offset size content.length
    let outcome :=
      if range.outcome = .overflow then (⟨0, overflowStatus offset size⟩, start)
      else if size > 0 ∧ dstIsNull then (⟨0, nullBufferStatus offset size⟩, start)
      else if range.outcome = .empty then (⟨0, .success⟩, start)
      else transferred
    Returns outcome.1 (memory outcome.2) (contentRead content offset dstIsNull size) := by
  intro range outcome
  simp only [outcome]
  split
  · rename_i overflow
    exact returns_overflow _ overflow
  · rename_i fits
    split
    · rename_i unbuffered
      exact returns_null _ fits unbuffered
    · rename_i buffered
      split
      · rename_i empty
        exact returns_empty _ empty buffered
      · rename_i nonempty
        exact returns (outcome_eq_transfer fits nonempty) buffered

end Guards

end UsdAsset
