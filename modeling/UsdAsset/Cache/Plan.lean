import UsdAsset.Cache.Options

/-!
# Block arithmetic and request planning

Models `BlockPlan.h` and `BlockPlan.cpp`: which blocks cover a range, the bytes
of the asset a block holds, and the runs of blocks that are fetched at once.

A byte of the asset lies in the block its position is divided into, which is how
every fact below speaks about it.
-/

namespace UsdAsset.Cache

variable {blockSize assetSize first : ℕ} {blocks : List ℕ}

/-- The blocks that cover a range, both ends included. -/
structure BlockSpan where
  first : ℕ
  last : ℕ
  deriving DecidableEq, Repr

def BlockSpan.count (span : BlockSpan) : ℕ := span.last - span.first + 1

def coveringBlocks (offset length blockSize : ℕ) : BlockSpan where
  first := offset / blockSize
  last := (offset + length - 1) / blockSize

/-- The bytes of the asset that a block holds. -/
structure BlockExtent where
  offset : ℕ
  length : ℕ
  deriving DecidableEq, Repr

def extentOf (blockIndex blockSize assetSize : ℕ) : BlockExtent :=
  let offset := blockIndex * blockSize
  if offset ≥ assetSize then ⟨offset, 0⟩ else ⟨offset, min blockSize (assetSize - offset)⟩

structure FetchRun where
  firstBlock : ℕ
  blockCount : ℕ
  offset : ℕ
  length : ℕ
  deriving DecidableEq, Repr

def FetchRun.last (run : FetchRun) : ℕ := run.firstBlock + run.blockCount - 1

section Planning

variable (blockSize assetSize : ℕ)

/-- The bytes from the start of `first` to the end of `last`. -/
def spanLength (first last : ℕ) : ℕ :=
  let begin := extentOf first blockSize assetSize
  let «end» := extentOf last blockSize assetSize
  («end».offset + «end».length) - begin.offset

def closeRun (first last : ℕ) : FetchRun where
  firstBlock := first
  blockCount := last - first + 1
  offset := (extentOf first blockSize assetSize).offset
  length := spanLength blockSize assetSize first last

/-- The runs of the blocks that follow an open run from `first` to `last`. -/
def planFrom (coalesceGapBlocks maxRequestBytes : ℕ) (first last : ℕ) : List ℕ → List FetchRun
  | [] => [closeRun blockSize assetSize first last]
  | next :: rest =>
      if next - last - 1 ≤ coalesceGapBlocks ∧
          spanLength blockSize assetSize first next ≤ maxRequestBytes then
        planFrom coalesceGapBlocks maxRequestBytes first next rest
      else
        closeRun blockSize assetSize first last ::
          planFrom coalesceGapBlocks maxRequestBytes next next rest

/-- The requests that fetch an ascending list of blocks. -/
def planRuns (coalesceGapBlocks maxRequestBytes : ℕ) : List ℕ → List FetchRun
  | [] => []
  | first :: rest =>
      planFrom blockSize assetSize coalesceGapBlocks maxRequestBytes first first rest

end Planning

def overFetchedBytes (run : FetchRun) (takenBytes : ℕ) : ℕ :=
  if takenBytes < run.length then run.length - takenBytes else 0

/-! ### Where a byte lies -/

theorem extentOf_offset (blockIndex blockSize assetSize : ℕ) :
    (extentOf blockIndex blockSize assetSize).offset = blockIndex * blockSize := by
  simp only [extentOf]
  split <;> rfl

theorem mem_extentOf (positive : 0 < blockSize) (blockIndex assetSize position : ℕ) :
    (blockIndex * blockSize ≤ position ∧
        position < blockIndex * blockSize + (extentOf blockIndex blockSize assetSize).length) ↔
      position / blockSize = blockIndex ∧ position < assetSize := by
  rw [Nat.div_eq_iff positive]
  simp only [extentOf]
  split
  · simp only [Nat.add_zero]
    omega
  · dsimp only
    omega

theorem extentOf_end_le {blockIndex : ℕ} (inside : blockIndex * blockSize < assetSize) :
    blockIndex * blockSize + (extentOf blockIndex blockSize assetSize).length ≤ assetSize := by
  simp only [extentOf]
  split
  · omega
  · dsimp only
    omega

theorem extentOf_length_le (blockIndex blockSize assetSize : ℕ) :
    (extentOf blockIndex blockSize assetSize).length ≤ assetSize - blockIndex * blockSize := by
  simp only [extentOf]
  split
  · exact Nat.zero_le _
  · exact Nat.min_le_right _ _

theorem extentOf_length_le_blockSize (blockIndex blockSize assetSize : ℕ) :
    (extentOf blockIndex blockSize assetSize).length ≤ blockSize := by
  simp only [extentOf]
  split
  · exact Nat.zero_le _
  · exact Nat.min_le_left _ _

theorem coveringBlocks_mem {offset length position : ℕ} (blockSize : ℕ)
    (onward : offset ≤ position) (before : position < offset + length) :
    (coveringBlocks offset length blockSize).first ≤ position / blockSize ∧
      position / blockSize ≤ (coveringBlocks offset length blockSize).last :=
  ⟨Nat.div_le_div_right onward, Nat.div_le_div_right (by omega)⟩

theorem coveringBlocks_inside {offset length blockIndex : ℕ} (nonempty : 0 < length)
    (inside : offset + length ≤ assetSize)
    (covers : blockIndex ≤ (coveringBlocks offset length blockSize).last) :
    blockIndex * blockSize < assetSize := by
  have reaches : blockIndex * blockSize ≤ offset + length - 1 :=
    Nat.le_trans (Nat.mul_le_mul_right _ covers) (Nat.div_mul_le_self _ _)
  omega

/-! ### What the runs cover -/

/--
The runs fetch the blocks in order: each run covers a group of them from its
first to its last, and the blocks of the later runs lie behind it.
-/
inductive Partitions (blockSize assetSize : ℕ) : List FetchRun → List ℕ → Prop where
  | nil : Partitions blockSize assetSize [] []
  | run {first last : ℕ} {group rest : List ℕ} {runs : List FetchRun}
      (firstMem : first ∈ group) (lastMem : last ∈ group)
      (grouped : ∀ block ∈ group, first ≤ block ∧ block ≤ last)
      (behind : ∀ block ∈ rest, last < block) (later : Partitions blockSize assetSize runs rest) :
      Partitions blockSize assetSize (closeRun blockSize assetSize first last :: runs)
        (group ++ rest)

theorem Partitions.blocks_eq_nil (partitions : Partitions blockSize assetSize [] blocks) :
    blocks = [] := by
  cases partitions
  rfl

theorem Partitions.length_le {runs : List FetchRun}
    (partitions : Partitions blockSize assetSize runs blocks) : runs.length ≤ blocks.length := by
  induction partitions with
  | nil => exact Nat.le_refl 0
  | run firstMem _ _ _ _ ih =>
    have nonempty := List.length_pos_of_mem firstMem
    rw [List.length_cons, List.length_append]
    omega

theorem planFrom_partitions {coalesceGapBlocks maxRequestBytes last : ℕ} {group rest : List ℕ}
    (firstMem : first ∈ group) (lastMem : last ∈ group)
    (grouped : ∀ block ∈ group, first ≤ block ∧ block ≤ last)
    (ascending : (last :: rest).Pairwise (· < ·)) :
    Partitions blockSize assetSize
      (planFrom blockSize assetSize coalesceGapBlocks maxRequestBytes first last rest)
      (group ++ rest) := by
  induction rest generalizing first last group with
  | nil => exact .run firstMem lastMem grouped (by simp) .nil
  | cons next rest ih =>
    rcases List.pairwise_cons.mp ascending with ⟨behind, tail⟩
    have nextBehind := behind next (by simp)
    simp only [planFrom]
    split
    · -- The gap is bridged, so the next block joins the group.
      rw [List.append_cons]
      apply ih (by simp [firstMem]) (by simp) _ tail
      intro block blockMem
      rcases List.mem_append.mp blockMem with blockMem | blockMem
      · have := grouped block blockMem
        omega
      · have := grouped last lastMem
        rw [List.mem_singleton.mp blockMem]
        omega
    · apply Partitions.run firstMem lastMem grouped behind
      exact ih (List.mem_singleton_self next) (List.mem_singleton_self next) (by simp) tail

theorem planRuns_partitions {coalesceGapBlocks maxRequestBytes : ℕ}
    (ascending : blocks.Pairwise (· < ·)) :
    Partitions blockSize assetSize
      (planRuns blockSize assetSize coalesceGapBlocks maxRequestBytes blocks) blocks := by
  cases blocks with
  | nil => exact .nil
  | cons first rest =>
    exact planFrom_partitions (List.mem_singleton_self first) (List.mem_singleton_self first)
      (by simp) ascending

theorem closeRun_last {last : ℕ} (ordered : first ≤ last) :
    (closeRun blockSize assetSize first last).last = last := by
  simp only [closeRun, FetchRun.last]
  omega

theorem extentOf_inside_closeRun {last block : ℕ} (onward : first ≤ block) (upTo : block ≤ last)
    (inside : last * blockSize < assetSize) :
    (closeRun blockSize assetSize first last).offset ≤
        (extentOf block blockSize assetSize).offset ∧
      (extentOf block blockSize assetSize).offset + (extentOf block blockSize assetSize).length ≤
        (closeRun blockSize assetSize first last).offset +
          (closeRun blockSize assetSize first last).length := by
  have lower : first * blockSize ≤ block * blockSize := Nat.mul_le_mul_right _ onward
  have upper : block * blockSize ≤ last * blockSize := Nat.mul_le_mul_right _ upTo
  have whole : block < last → block * blockSize + blockSize ≤ last * blockSize := by
    intro before
    have := Nat.mul_le_mul_right blockSize (by omega : block + 1 ≤ last)
    rwa [Nat.succ_mul] at this
  simp only [closeRun, spanLength, extentOf_offset]
  refine ⟨lower, ?_⟩
  rcases Nat.lt_or_eq_of_le upTo with before | rfl
  · have := whole before
    have short := extentOf_length_le_blockSize block blockSize assetSize
    omega
  · omega

end UsdAsset.Cache
