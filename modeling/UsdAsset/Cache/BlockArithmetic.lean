import UsdAsset.Lib.ExactWord
import UsdAsset.Cache.ReadCached

/-!
# Blocks tile a range without wrapping

The range, span, extent and copy arithmetic of `RangeMath.cpp`, `BlockPlan.cpp` and
`CachedAssetReader.cpp` once more, in the words of 64 bits the code computes with.  For
an asset of any size a word holds, no operation wraps, and the parts of the blocks that
are copied follow one another from the first byte of the range to its last.
-/

namespace UsdAsset.Cache

open ExactWord

/-- Where the bytes of one block are copied from and to. -/
structure CopyWindow where
  into : ℕ
  source : ℕ
  length : ℕ
  deriving DecidableEq, Repr

/-! ### In words of 64 bits -/

namespace U64

def resolveReadRange (offset size assetSize : ℕ) : Option ReadRange := do
  let room ← sub 64 maxU64 size
  if offset > room then return ⟨.overflow, offset, 0⟩
  if size = 0 ∨ offset ≥ assetSize then return ⟨.empty, offset, 0⟩
  let remaining ← sub 64 assetSize offset
  let available := if remaining < size then remaining else size
  return ⟨.transfer, offset, available⟩

def coveringBlocks (offset length blockSize : ℕ) : Option BlockSpan := do
  let stop ← add 64 offset length
  let last ← sub 64 stop 1
  return ⟨offset / blockSize, last / blockSize⟩

def extentOf (blockIndex blockSize assetSize : ℕ) : Option BlockExtent := do
  let offset ← mul 64 blockIndex blockSize
  if offset ≥ assetSize then return ⟨offset, 0⟩
  let remaining ← sub 64 assetSize offset
  return ⟨offset, min blockSize remaining⟩

/-- What `CopyOverlap` hands to `memcpy`, if it copies anything. -/
def copyOverlap (rangeOffset rangeLength blockOffset blockLength : ℕ) :
    Option (Option CopyWindow) := do
  let rangeEnd ← add 64 rangeOffset rangeLength
  let blockEnd ← add 64 blockOffset blockLength
  let begin := max rangeOffset blockOffset
  let stop := min rangeEnd blockEnd
  if stop ≤ begin then return none
  let length ← sub 64 stop begin
  let into ← sub 64 begin rangeOffset
  let source ← sub 64 begin blockOffset
  return some ⟨into, source, length⟩

end U64

/-! ### The parts of a range -/

def overlapStart (range : ReadRange) (extent : BlockExtent) : ℕ :=
  max range.offset extent.offset

def overlapStop (range : ReadRange) (extent : BlockExtent) : ℕ :=
  min (range.offset + range.length) (extent.offset + extent.length)

def copyWindow (range : ReadRange) (extent : BlockExtent) : CopyWindow where
  into := overlapStart range extent - range.offset
  source := overlapStart range extent - extent.offset
  length := overlapStop range extent - overlapStart range extent

/-- What a window of a block leaves in a buffer, and how many bytes it brings. -/
def CopyWindow.copy (window : CopyWindow) (dst : Buffer) (blockBytes : Bytes) : ℕ × Buffer :=
  (window.length,
    dst.write window.into ((blockBytes.drop window.source).take window.length))

theorem copyOverlap_eq_copy {range : ReadRange} {extent : BlockExtent}
    (overlaps : overlapStart range extent < overlapStop range extent) (dst : Buffer)
    (blockBytes : Bytes) :
    copyOverlap dst range.offset range.length extent.offset blockBytes extent.length =
      (copyWindow range extent).copy dst blockBytes :=
  if_neg (Nat.not_le.mpr overlaps)

/-- A block size that `CacheOptions::Normalized` can leave. -/
structure IsBlockSize (blockSize : ℕ) : Prop where
  power : ∃ exponent, blockSize = 2 ^ exponent
  least : minBlockSize ≤ blockSize
  greatest : blockSize ≤ maxBlockSize

/-- A block that covers some of a range. -/
def BlockSpan.Has (span : BlockSpan) (block : ℕ) : Prop :=
  span.first ≤ block ∧ block ≤ span.last

/-- What is computed for one covering block, and where its part of the range is copied. -/
structure BlockFits (blockSize assetSize : ℕ) (range : ReadRange) (block : ℕ) : Prop where
  extent : U64.extentOf block blockSize assetSize = some (extentOf block blockSize assetSize)
  positive : 0 < (extentOf block blockSize assetSize).length
  overlaps : overlapStart range (extentOf block blockSize assetSize) <
    overlapStop range (extentOf block blockSize assetSize)
  copied : U64.copyOverlap range.offset range.length
      (extentOf block blockSize assetSize).offset (extentOf block blockSize assetSize).length =
    some (some (copyWindow range (extentOf block blockSize assetSize)))
  written : ∀ (dst : Buffer) (blockBytes : Bytes),
    copyOverlap dst range.offset range.length (extentOf block blockSize assetSize).offset blockBytes
        (extentOf block blockSize assetSize).length =
      (copyWindow range (extentOf block blockSize assetSize)).copy dst blockBytes
  insideBlock : (copyWindow range (extentOf block blockSize assetSize)).source +
      (copyWindow range (extentOf block blockSize assetSize)).length ≤
    (extentOf block blockSize assetSize).length
  insideRange : (copyWindow range (extentOf block blockSize assetSize)).into +
      (copyWindow range (extentOf block blockSize assetSize)).length ≤ range.length

/-- The parts follow one another from the start of the range to its end, and share no byte. -/
structure Tiles (blockSize assetSize : ℕ) (range : ReadRange) (span : BlockSpan) : Prop where
  starts : overlapStart range (extentOf span.first blockSize assetSize) = range.offset
  follows : ∀ block, span.first ≤ block → block < span.last →
    overlapStop range (extentOf block blockSize assetSize) =
      overlapStart range (extentOf (block + 1) blockSize assetSize)
  ends : overlapStop range (extentOf span.last blockSize assetSize) = range.offset + range.length
  partition : ∀ position, (range.offset ≤ position ∧ position < range.offset + range.length) ↔
    ∃! block, span.Has block ∧
      overlapStart range (extentOf block blockSize assetSize) ≤ position ∧
      position < overlapStop range (extentOf block blockSize assetSize)

/-! ### A range of an asset -/

section Range

variable {blockSize assetSize block : ℕ} {range : ReadRange}

/-- A non-empty range of the asset, as a request resolves to. -/
structure InAsset (assetSize : ℕ) (range : ReadRange) : Prop where
  positive : 0 < range.length
  inside : range.offset + range.length ≤ assetSize

abbrev spanOf (blockSize : ℕ) (range : ReadRange) : BlockSpan :=
  coveringBlocks range.offset range.length blockSize

theorem bounds_of_has (positive : 0 < blockSize) (inAsset : InAsset assetSize range)
    (has : (spanOf blockSize range).Has block) :
    block * blockSize < range.offset + range.length ∧
      range.offset < block * blockSize + blockSize := by
  have reached : block * blockSize ≤ range.offset + range.length - 1 :=
    Nat.le_trans (Nat.mul_le_mul_right _ has.2) (Nat.div_mul_le_self _ _)
  have behind : range.offset / blockSize < block + 1 := Nat.lt_succ_of_le has.1
  rw [Nat.div_lt_iff_lt_mul positive, Nat.succ_mul] at behind
  have := inAsset.positive
  exact ⟨by omega, behind⟩

theorem extentOf_eq_of_inside (inside : block * blockSize < assetSize) :
    extentOf block blockSize assetSize =
      ⟨block * blockSize, min blockSize (assetSize - block * blockSize)⟩ :=
  if_neg (Nat.not_le.mpr inside)

theorem blockFits (positive : 0 < blockSize) (assetFits : assetSize < 2 ^ 64)
    (inAsset : InAsset assetSize range) (has : (spanOf blockSize range).Has block) :
    BlockFits blockSize assetSize range block := by
  rcases bounds_of_has positive inAsset has with ⟨begins, reaches⟩
  have ranged := inAsset.positive
  have ended := inAsset.inside
  have inside : block * blockSize < assetSize := by omega
  have shape := extentOf_eq_of_inside inside
  have overlaps : overlapStart range (extentOf block blockSize assetSize) <
      overlapStop range (extentOf block blockSize assetSize) := by
    simp only [shape, overlapStart, overlapStop]
    omega
  refine ⟨?_, ?_, overlaps, ?_, copyOverlap_eq_copy overlaps, ?_, ?_⟩
  · have product := @mul_of_lt 64 block blockSize (by omega)
    have difference := @sub_of_le 64 assetSize (block * blockSize) (by omega) assetFits
    simp [U64.extentOf, product, difference, shape, Nat.not_le.mpr inside]
  · rw [shape]
    dsimp only
    omega
  · have rangeEnd := @add_of_lt 64 range.offset range.length (by omega)
    have blockEnd := @add_of_lt 64 (block * blockSize)
      (min blockSize (assetSize - block * blockSize)) (by omega)
    simp only [shape, overlapStart, overlapStop] at overlaps
    simp only [U64.copyOverlap, shape, rangeEnd, blockEnd, Option.bind_eq_bind, Option.bind_some,
      if_neg (Nat.not_le.mpr overlaps), copyWindow, overlapStart, overlapStop]
    rw [sub_of_le (by omega) (by omega), sub_of_le (by omega) (by omega),
      sub_of_le (by omega) (by omega)]
    rfl
  · simp only [shape, copyWindow, overlapStart, overlapStop]
    omega
  · simp only [shape, copyWindow, overlapStart, overlapStop]
    omega

/-- A byte of the range lies in the part of the block it is divided into, and in no other. -/
theorem mem_overlap_iff (positive : 0 < blockSize) (inAsset : InAsset assetSize range)
    (position : ℕ) :
    (overlapStart range (extentOf block blockSize assetSize) ≤ position ∧
        position < overlapStop range (extentOf block blockSize assetSize)) ↔
      (range.offset ≤ position ∧ position < range.offset + range.length) ∧
        position / blockSize = block := by
  have held := mem_extentOf positive block assetSize position
  have ended := inAsset.inside
  rw [overlapStart, overlapStop, extentOf_offset, Nat.max_le, Nat.lt_min]
  constructor
  · rintro ⟨⟨onward, above⟩, before, below⟩
    exact ⟨⟨onward, before⟩, (held.mp ⟨above, below⟩).1⟩
  · rintro ⟨⟨onward, before⟩, divided⟩
    have inside := held.mpr ⟨divided, by omega⟩
    exact ⟨⟨onward, inside.1⟩, before, inside.2⟩

theorem tiles (positive : 0 < blockSize) (inAsset : InAsset assetSize range) :
    Tiles blockSize assetSize range (spanOf blockSize range) := by
  have ranged := inAsset.positive
  have ended := inAsset.inside
  have ordered : (spanOf blockSize range).first ≤ (spanOf blockSize range).last :=
    Nat.div_le_div_right (by omega)
  have first := bounds_of_has positive inAsset ⟨Nat.le_refl _, ordered⟩
  have last := bounds_of_has positive inAsset ⟨ordered, Nat.le_refl _⟩
  refine ⟨?_, ?_, ?_, ?_⟩
  · have below : (spanOf blockSize range).first * blockSize ≤ range.offset :=
      Nat.div_mul_le_self _ _
    rw [overlapStart, extentOf_offset]
    exact Nat.max_eq_left below
  · intro block onward before
    have here := bounds_of_has positive inAsset ⟨onward, Nat.le_of_lt before⟩
    have next := bounds_of_has positive inAsset ⟨Nat.le_succ_of_le onward, before⟩
    rw [Nat.succ_mul] at next
    rw [overlapStart, overlapStop, extentOf_offset, extentOf_offset, Nat.succ_mul,
      extentOf_eq_of_inside (by omega)]
    dsimp only
    omega
  · have within : range.offset + range.length - 1 <
        (spanOf blockSize range).last * blockSize + blockSize := by
      have := Nat.lt_succ_self (spanOf blockSize range).last
      rw [← Nat.succ_mul, ← Nat.div_lt_iff_lt_mul positive]
      exact this
    rw [overlapStop, extentOf_eq_of_inside (by omega)]
    dsimp only
    omega
  · intro position
    simp only [mem_overlap_iff positive inAsset]
    constructor
    · intro within
      refine ⟨position / blockSize, ⟨?_, within, rfl⟩, ?_⟩
      · exact coveringBlocks_mem blockSize within.1 within.2
      · rintro other ⟨_, _, divided⟩
        exact divided.symm
    · rintro ⟨_, ⟨_, within, _⟩, _⟩
      exact within

end Range

/-! ### Every accepted request -/

theorem exact_resolveReadRange {offset size assetSize : ℕ} (sizeFits : size < 2 ^ 64)
    (assetFits : assetSize < 2 ^ 64) :
    U64.resolveReadRange offset size assetSize = some (resolveReadRange offset size assetSize) := by
  have room := @sub_of_le 64 maxU64 size (Nat.le_pred_of_lt sizeFits) (by decide)
  simp only [U64.resolveReadRange, resolveReadRange, room, Option.bind_eq_bind, Option.bind_some]
  split
  · rfl
  · split
    · rfl
    · rw [sub_of_le (by omega) assetFits]
      rfl

theorem exact_coveringBlocks {range : ReadRange} {blockSize : ℕ} (positive : 0 < range.length)
    (fits : range.offset + range.length < 2 ^ 64) :
    U64.coveringBlocks range.offset range.length blockSize = some (spanOf blockSize range) := by
  rw [U64.coveringBlocks, add_of_lt fits, Option.bind_eq_bind, Option.bind_some,
    sub_of_le (by omega) fits]
  rfl

/--
No operation on the way to the copies wraps, every copy stays inside its block and inside
the caller's buffer, and together they bring the range, each byte once.
-/
structure RequestTiled (assetSize offset size blockSize : ℕ) (range : ReadRange) : Prop where
  resolved : U64.resolveReadRange offset size assetSize = some range
  insideBuffer : range.length ≤ size
  covered : U64.coveringBlocks range.offset range.length blockSize = some (spanOf blockSize range)
  blocks : ∀ block, (spanOf blockSize range).Has block → BlockFits blockSize assetSize range block
  tiled : Tiles blockSize assetSize range (spanOf blockSize range)

theorem block_arithmetic_tiles (assetSize offset size : UInt64) (blockSize : ℕ)
    (isBlockSize : IsBlockSize blockSize)
    (accepted : (resolveReadRange offset.toNat size.toNat assetSize.toNat).outcome = .transfer) :
    RequestTiled assetSize.toNat offset.toNat size.toNat blockSize
      (resolveReadRange offset.toNat size.toNat assetSize.toNat) := by
  have assetFits := assetSize.toNat_lt
  have resolved := @exact_resolveReadRange offset.toNat _ _ size.toNat_lt assetFits
  have start := resolveReadRange_offset offset.toNat size.toNat assetSize.toNat
  rcases resolveReadRange_transfer accepted with ⟨nonempty, length, _, before⟩
  generalize resolveReadRange offset.toNat size.toNat assetSize.toNat = range at *
  have positive : 0 < blockSize := Nat.lt_of_lt_of_le (by decide) isBlockSize.least
  have inAsset : InAsset assetSize.toNat range := ⟨nonempty, by omega⟩
  refine ⟨resolved, by omega, ?_, ?_, tiles positive inAsset⟩
  · exact exact_coveringBlocks nonempty (Nat.lt_of_le_of_lt inAsset.inside assetFits)
  · intro block has
    exact blockFits positive assetFits inAsset has

/-- The last two bytes of the largest asset. -/
theorem block_arithmetic_tiles_largest :
    (resolveReadRange 0xFFFFFFFFFFFFFFFD 2 0xFFFFFFFFFFFFFFFF).outcome = .transfer ∧
      RequestTiled 0xFFFFFFFFFFFFFFFF 0xFFFFFFFFFFFFFFFD 2 4096
        (resolveReadRange 0xFFFFFFFFFFFFFFFD 2 0xFFFFFFFFFFFFFFFF) := by
  have isBlockSize : IsBlockSize 4096 := ⟨⟨12, rfl⟩, by decide, by decide⟩
  have accepted : (resolveReadRange 0xFFFFFFFFFFFFFFFD 2 0xFFFFFFFFFFFFFFFF).outcome =
      .transfer := by
    decide +kernel
  exact ⟨accepted, block_arithmetic_tiles 0xFFFFFFFFFFFFFFFF 0xFFFFFFFFFFFFFFFD 2 4096
    isBlockSize accepted⟩

end UsdAsset.Cache
