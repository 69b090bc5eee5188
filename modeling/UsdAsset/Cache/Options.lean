import UsdAsset.Io.Validator

/-!
# Cache options and keys

Models `CacheOptions.h`, `CacheOptions.cpp`, `CacheKey.h`, `CacheKey.cpp` and the
persistence rule of `DiskBlockStore.cpp`.
-/

namespace UsdAsset.Cache

def minBlockSize : ℕ := 4096

def maxBlockSize : ℕ := 64 * 1024 * 1024

def defaultBlockSize : ℕ := 64 * 1024

/-- How one reader caches; every field is clamped by `normalized`. -/
structure CacheOptions where
  blockSize : ℕ := defaultBlockSize
  budgetBytes : ℕ := 128 * 1024 * 1024
  coalesceGapBlocks : ℕ := 1
  maxRequestBytes : ℕ := 8 * 1024 * 1024
  bypassThresholdBytes : ℕ := 1024 * 1024
  deriving DecidableEq, Repr

/-- Doubles `power` while it stays within `value`. -/
def doubleWithin (value : ℕ) : ℕ → ℕ → ℕ
  | 0, power => power
  | rounds + 1, power =>
      if power * 2 ≤ value then doubleWithin value rounds (power * 2) else power

/-- Fourteen doublings lead from the smallest block size to the largest. -/
def roundDownToPowerOfTwo (value : ℕ) : ℕ :=
  if value < minBlockSize then minBlockSize
  else if value ≥ maxBlockSize then maxBlockSize
  else doubleWithin value 14 minBlockSize

def CacheOptions.normalized (options : CacheOptions) : CacheOptions :=
  let blockSize :=
    roundDownToPowerOfTwo (if options.blockSize = 0 then defaultBlockSize else options.blockSize)
  let maxRequestBytes := max options.maxRequestBytes blockSize
  let blocksPerRequest := maxRequestBytes / blockSize
  let gapCeiling := if blocksPerRequest ≥ 2 then blocksPerRequest - 2 else 0
  { blockSize
    budgetBytes := max options.budgetBytes blockSize
    coalesceGapBlocks :=
      if options.coalesceGapBlocks > gapCeiling then min gapCeiling 0xFFFFFFFF
      else options.coalesceGapBlocks
    maxRequestBytes
    bypassThresholdBytes := max options.bypassThresholdBytes blockSize }

theorem le_doubleWithin (value rounds power : ℕ) : power ≤ doubleWithin value rounds power := by
  induction rounds generalizing power with
  | zero => exact Nat.le_refl power
  | succ rounds ih =>
    simp only [doubleWithin]
    split
    · have := ih (power * 2)
      omega
    · exact Nat.le_refl power

theorem doubleWithin_cases (value rounds power : ℕ) :
    doubleWithin value rounds power = power ∨ doubleWithin value rounds power ≤ value := by
  induction rounds generalizing power with
  | zero => exact Or.inl rfl
  | succ rounds ih =>
    simp only [doubleWithin]
    split
    · rename_i within
      rcases ih (power * 2) with stops | more
      · rw [stops]
        exact Or.inr within
      · exact Or.inr more
    · exact Or.inl rfl

theorem CacheOptions.normalized_blockSize_pos (options : CacheOptions) :
    0 < options.normalized.blockSize := by
  have floor : ∀ value, minBlockSize ≤ roundDownToPowerOfTwo value := by
    intro value
    simp only [roundDownToPowerOfTwo]
    split
    · exact Nat.le_refl _
    · split
      · decide
      · exact le_doubleWithin value 14 minBlockSize
  exact Nat.lt_of_lt_of_le (by decide) (floor _)

def defaultPersistentBudgetBytes : ℕ := 1024 * 1024 * 1024

def minPersistentBudgetBytes : ℕ := 1024 * 1024

/-- How the persistent tier stores; an empty directory turns it off. -/
structure DiskCacheOptions where
  directory : Bytes := []
  budgetBytes : ℕ := defaultPersistentBudgetBytes
  deriving DecidableEq, Repr

/-- What a block is a block of; its size is part of the identity. -/
structure AssetIdentity where
  resolvedIdentifier : Bytes
  validator : Bytes
  blockSize : ℕ
  deriving DecidableEq, Repr

/-- Whether entries stored under a validator may be shared between readers. -/
def isShareable (validator : Validator) : Bool :=
  validator.isUsable && validator.strength == .strong

/-- Whether entries stored under a validator may outlive the process. -/
def persistable (validator : Validator) : Bool :=
  validator.strength == .strong && validator.kind == .entityTag

end UsdAsset.Cache
