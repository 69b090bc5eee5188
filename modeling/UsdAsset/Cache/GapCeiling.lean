import UsdAsset.Cache.Planning

/-!
# The ceiling of the coalescing gap

A gap is capped where a request of whole blocks cannot carry it.  The last block of an
asset may be short, and under a ceiling that is no multiple of the block size a short block
fits behind a gap that is one wider: there, and only there, the cap changes a plan.
-/

namespace UsdAsset.Cache

variable {options : CacheOptions} {blockSize assetSize maxRequestBytes : ℕ}

/-! ### The options in force -/

theorem CacheOptions.normalized_blockSize_le (options : CacheOptions) :
    options.normalized.blockSize ≤ maxBlockSize := by
  have ceiling : ∀ value, roundDownToPowerOfTwo value ≤ maxBlockSize := by
    intro value
    simp only [roundDownToPowerOfTwo]
    split
    · decide
    · split
      · exact Nat.le_refl _
      · rcases doubleWithin_cases value 14 minBlockSize with floor | within
        · rw [floor]
          decide
        · omega
  exact ceiling _

theorem CacheOptions.normalized_maxRequestBytes_lt (fits : options.maxRequestBytes < 2 ^ 64) :
    options.normalized.maxRequestBytes < 2 ^ 64 := by
  have blocks : maxBlockSize < 2 ^ 64 := by decide
  exact Nat.max_lt.mpr ⟨fits, Nat.lt_of_le_of_lt options.normalized_blockSize_le blocks⟩

/-- The gap in force is the one asked for, or the one that leaves room for a block at each end. -/
theorem CacheOptions.normalized_coalesceGapBlocks (fits : options.coalesceGapBlocks < 2 ^ 32) :
    options.normalized.coalesceGapBlocks = min options.coalesceGapBlocks
      (options.normalized.maxRequestBytes / options.normalized.blockSize - 2) := by
  have room : ∀ blocks : ℕ, (if blocks ≥ 2 then blocks - 2 else 0) = blocks - 2 := by
    intro blocks
    split
    · rfl
    · omega
  have capped : ∀ {gap ceiling : ℕ}, gap < 2 ^ 32 →
      (if gap > ceiling then min ceiling 0xFFFFFFFF else gap) = min gap ceiling := by
    intro gap ceiling gapFits
    split
    · omega
    · omega
  simp only [CacheOptions.normalized, room]
  exact capped fits

/-! ### Plans under two gaps -/

/-- A request that merges across a gap carries the gap, the block before it and a byte behind it. -/
theorem lt_spanLength {first last next : ℕ} (ordered : first ≤ last) (behind : last < next)
    (positive : 0 < blockSize) (inside : next * blockSize < assetSize) :
    (next - last) * blockSize < spanLength blockSize assetSize first next := by
  have starts : first * blockSize ≤ last * blockSize := Nat.mul_le_mul_right _ ordered
  have nonempty : 0 < (extentOf next blockSize assetSize).length := by
    rw [extentOf, if_neg (Nat.not_le.mpr inside)]
    dsimp only
    omega
  have distance : (next - last) * blockSize + last * blockSize = next * blockSize := by
    rw [← Nat.add_mul, Nat.sub_add_cancel (Nat.le_of_lt behind)]
  simp only [spanLength, extentOf_offset]
  omega

theorem planFrom_congr {gap other first last : ℕ} {rest : List ℕ}
    (alike : ∀ first last next, first ≤ last → last < next → next * blockSize < assetSize →
      spanLength blockSize assetSize first next ≤ maxRequestBytes →
        (next - last - 1 ≤ gap ↔ next - last - 1 ≤ other))
    (ordered : first ≤ last) (ascending : (last :: rest).Pairwise (· < ·))
    (inside : ∀ block ∈ rest, block * blockSize < assetSize) :
    planFrom blockSize assetSize gap maxRequestBytes first last rest =
      planFrom blockSize assetSize other maxRequestBytes first last rest := by
  induction rest generalizing first last with
  | nil => rfl
  | cons next rest ih =>
    rcases List.pairwise_cons.mp ascending with ⟨behind, tail⟩
    rcases List.forall_mem_cons.mp inside with ⟨nextInside, restInside⟩
    have nextBehind := behind next List.mem_cons_self
    have joins : (next - last - 1 ≤ gap ∧
          spanLength blockSize assetSize first next ≤ maxRequestBytes) ↔
        (next - last - 1 ≤ other ∧
          spanLength blockSize assetSize first next ≤ maxRequestBytes) :=
      and_congr_left fun room => alike first last next ordered nextBehind nextInside room
    simp only [planFrom, joins]
    rw [ih (by omega) tail restInside, ih (Nat.le_refl next) tail restInside]

theorem planRuns_congr {gap other : ℕ} {blocks : List ℕ}
    (alike : ∀ first last next, first ≤ last → last < next → next * blockSize < assetSize →
      spanLength blockSize assetSize first next ≤ maxRequestBytes →
        (next - last - 1 ≤ gap ↔ next - last - 1 ≤ other))
    (ascending : blocks.Pairwise (· < ·))
    (inside : ∀ block ∈ blocks, block * blockSize < assetSize) :
    planRuns blockSize assetSize gap maxRequestBytes blocks =
      planRuns blockSize assetSize other maxRequestBytes blocks := by
  cases blocks with
  | nil => rfl
  | cons first rest =>
    exact planFrom_congr alike (Nat.le_refl first) ascending (List.forall_mem_cons.mp inside).2

theorem planRuns_pair {gap first next : ℕ} :
    planRuns blockSize assetSize gap maxRequestBytes [first, next] =
      if next - first - 1 ≤ gap ∧ spanLength blockSize assetSize first next ≤ maxRequestBytes then
        [closeRun blockSize assetSize first next]
      else
        [closeRun blockSize assetSize first first, closeRun blockSize assetSize next next] := rfl

/-! ### The cap -/

/-- No plan tells the gap that was asked for from the gap in force. -/
def CapInvisible (options : CacheOptions) : Prop :=
  ∀ assetSize < 2 ^ 64, ∀ blocks : List ℕ, blocks.Pairwise (· < ·) →
    (∀ block ∈ blocks, block * options.normalized.blockSize < assetSize) →
    planRuns options.normalized.blockSize assetSize options.coalesceGapBlocks
        options.normalized.maxRequestBytes blocks =
      planRuns options.normalized.blockSize assetSize options.normalized.coalesceGapBlocks
        options.normalized.maxRequestBytes blocks

/-- Some plan merges across a gap as wide as the gap in force. -/
def GapApplies (options : CacheOptions) : Prop :=
  ∃ assetSize < 2 ^ 64, ∃ first,
    (first + options.normalized.coalesceGapBlocks + 1) * options.normalized.blockSize < assetSize ∧
    planRuns options.normalized.blockSize assetSize options.normalized.coalesceGapBlocks
        options.normalized.maxRequestBytes
        [first, first + options.normalized.coalesceGapBlocks + 1] =
      [closeRun options.normalized.blockSize assetSize first
        (first + options.normalized.coalesceGapBlocks + 1)]

/-- The gap is not capped, or the ceiling has room for less than two blocks or for whole blocks. -/
def CapsWholeBlocks (options : CacheOptions) : Prop :=
  options.normalized.coalesceGapBlocks = options.coalesceGapBlocks ∨
    options.normalized.maxRequestBytes < 2 * options.normalized.blockSize ∨
    options.normalized.blockSize ∣ options.normalized.maxRequestBytes

theorem gapApplies (gapFits : options.coalesceGapBlocks < 2 ^ 32)
    (ceilingFits : options.maxRequestBytes < 2 ^ 64)
    (positive : 0 < options.normalized.coalesceGapBlocks) : GapApplies options := by
  have blockPos := options.normalized_blockSize_pos
  have gapEq := CacheOptions.normalized_coalesceGapBlocks gapFits
  have ceilingLt := CacheOptions.normalized_maxRequestBytes_lt ceilingFits
  simp only [GapApplies]
  generalize options.normalized.coalesceGapBlocks = gap at *
  generalize options.normalized.maxRequestBytes = ceiling at *
  generalize options.normalized.blockSize = blockSize at *
  have room : (gap + 2) * blockSize ≤ ceiling := by
    rw [← Nat.le_div_iff_mul_le blockPos]
    omega
  have split : (gap + 2) * blockSize = (gap + 1) * blockSize + blockSize := Nat.succ_mul _ _
  have whole : spanLength blockSize ((gap + 2) * blockSize) 0 (gap + 1) =
      (gap + 2) * blockSize := by
    rw [spanLength, extentOf_offset, extentOf_offset, extentOf, if_neg (by omega)]
    dsimp only
    omega
  refine ⟨(gap + 2) * blockSize, by omega, 0, by rw [Nat.zero_add]; omega, ?_⟩
  rw [Nat.zero_add, planRuns_pair, whole]
  exact if_pos ⟨by omega, room⟩

theorem capInvisible_of_capsWholeBlocks (gapFits : options.coalesceGapBlocks < 2 ^ 32)
    (wholeBlocks : CapsWholeBlocks options) : CapInvisible options := by
  intro assetSize _ blocks ascending inside
  have blockPos := options.normalized_blockSize_pos
  have gapEq := CacheOptions.normalized_coalesceGapBlocks gapFits
  rcases wholeBlocks with uncapped | bounded
  · rw [uncapped]
  · refine planRuns_congr ?_ ascending inside
    intro first last next ordered behind nextInside room
    have carried := lt_spanLength ordered behind blockPos nextInside
    generalize options.normalized.coalesceGapBlocks = gap at *
    generalize options.normalized.maxRequestBytes = ceiling at *
    generalize options.normalized.blockSize = blockSize at *
    refine ⟨fun allowed => ?_, fun allowed => by omega⟩
    suffices fits : next - last - 1 ≤ ceiling / blockSize - 2 by omega
    rcases bounded with single | ⟨blocksPerRequest, rfl⟩
    · have few : (next - last) * blockSize < 2 * blockSize := by omega
      have := Nat.lt_of_mul_lt_mul_right few
      omega
    · have few : (next - last) * blockSize < blocksPerRequest * blockSize := by
        rw [Nat.mul_comm blocksPerRequest]
        omega
      have := Nat.lt_of_mul_lt_mul_right few
      rw [Nat.mul_div_cancel_left _ blockPos]
      omega

/-- A block of one byte behind the gap that was capped away fits under the ceiling. -/
theorem capsWholeBlocks_of_capInvisible (gapFits : options.coalesceGapBlocks < 2 ^ 32)
    (ceilingFits : options.maxRequestBytes < 2 ^ 64) (invisible : CapInvisible options) :
    CapsWholeBlocks options := by
  by_contra visible
  simp only [CapsWholeBlocks, not_or, Nat.not_lt] at visible
  rcases visible with ⟨capped, several, partly⟩
  have blockPos := options.normalized_blockSize_pos
  have gapEq := CacheOptions.normalized_coalesceGapBlocks gapFits
  have ceilingLt := CacheOptions.normalized_maxRequestBytes_lt ceilingFits
  simp only [CapInvisible] at invisible
  generalize options.normalized.coalesceGapBlocks = gap at *
  generalize options.normalized.maxRequestBytes = ceiling at *
  generalize options.normalized.blockSize = blockSize at *
  have atLeastTwo : 2 ≤ ceiling / blockSize := (Nat.le_div_iff_mul_le blockPos).mpr several
  have rest : 0 < ceiling % blockSize :=
    Nat.pos_of_ne_zero fun none => partly (Nat.dvd_of_mod_eq_zero none)
  have whole := Nat.div_add_mod' ceiling blockSize
  generalize ceiling / blockSize = blocksPerRequest at *
  have plans := invisible (blocksPerRequest * blockSize + 1) (by omega) [0, blocksPerRequest]
    (by simp; omega) (by simp)
  have short : spanLength blockSize (blocksPerRequest * blockSize + 1) 0 blocksPerRequest =
      blocksPerRequest * blockSize + 1 := by
    rw [spanLength, extentOf_offset, extentOf_offset, extentOf, if_neg (by omega)]
    dsimp only
    omega
  rw [planRuns_pair, planRuns_pair, short, if_pos (by omega), if_neg (by omega)] at plans
  exact absurd (congrArg List.length plans) (by simp)

theorem gap_cap_invisible_and_tight_iff (options : CacheOptions)
    (gapFits : options.coalesceGapBlocks < 2 ^ 32)
    (ceilingFits : options.maxRequestBytes < 2 ^ 64) :
    (CapInvisible options ∧ (0 < options.normalized.coalesceGapBlocks → GapApplies options)) ↔
      CapsWholeBlocks options := by
  constructor
  · rintro ⟨invisible, _⟩
    exact capsWholeBlocks_of_capInvisible gapFits ceilingFits invisible
  · intro wholeBlocks
    exact ⟨capInvisible_of_capsWholeBlocks gapFits wholeBlocks, gapApplies gapFits ceilingFits⟩

theorem gap_cap_invisible_and_tight_default :
    CapInvisible {} ∧ (0 < ({} : CacheOptions).normalized.coalesceGapBlocks → GapApplies {}) :=
  (gap_cap_invisible_and_tight_iff {} (by decide) (by decide)).mpr (Or.inl (by decide))

/-- Two blocks and a hundred bytes carry a short block behind a gap of one, which is capped away. -/
theorem gap_cap_visible :
    ¬CapInvisible { blockSize := 4096, coalesceGapBlocks := 1, maxRequestBytes := 8292 } := by
  intro invisible
  have plans := invisible 8242 (by decide) [0, 2] (by decide) (by decide)
  revert plans
  decide

end UsdAsset.Cache
