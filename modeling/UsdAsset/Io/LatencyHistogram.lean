import Mathlib.Algebra.Order.Floor.Div
import Mathlib.Data.List.FinRange
import Mathlib.Data.Nat.Size
import Mathlib.GroupTheory.GroupAction.Ring
import UsdAsset.Lib.OrderStatistics

/-!
# Latency distributions

Models the `LatencyHistogram` of `Metrics.h` and `Metrics.cpp`.  A sample is counted in the
bucket of its number of binary digits, and a quantile is reported as the upper bound of the
bucket at which the counters add up to its rank.  That is the bucket of the sample of the
rank, so the report lies between the sample and twice the sample.

The counters are natural numbers here; `Tallies.representable` says when those of the
source do not wrap.
-/

namespace UsdAsset

open OrderStatistics

/-! ### Buckets -/

def bucketCount : ℕ := 41

/-- The loop of `bucketFor`; each round fills one more bucket. -/
def growBucket (microseconds : ℕ) : ℕ → ℕ → ℕ → ℕ
  | 0, bucket, _ => bucket
  | rounds + 1, bucket, bound =>
      if bucket + 1 < bucketCount ∧ microseconds ≥ bound * 2 then
        growBucket microseconds rounds (bucket + 1) (bound * 2)
      else bucket

/-- The top bucket saturates. -/
def bucketFor (microseconds : ℕ) : ℕ :=
  if microseconds = 0 then 0 else growBucket microseconds bucketCount 1 1

/-- A bound that is doubled for every bucket below. -/
def doubledBound : ℕ → ℕ
  | 0 => 1
  | rounds + 1 => doubledBound rounds * 2

def bucketUpperBound (bucket : ℕ) : ℕ :=
  if bucket = 0 then 0 else doubledBound (bucket - 1) * 2 - 1

theorem growBucket_eq {microseconds rounds bucket bound : ℕ} (positive : 0 < bucket)
    (within : bucket < bucketCount) (enough : bucketCount ≤ bucket + 1 + rounds)
    (power : bound * 2 = 2 ^ bucket) (reached : bound ≤ microseconds) :
    growBucket microseconds rounds bucket bound = min microseconds.size (bucketCount - 1) := by
  have below : bucket ≤ microseconds.size := by
    have half : bound = 2 ^ (bucket - 1) := by
      have split : 2 ^ bucket = 2 ^ (bucket - 1) * 2 := by
        rw [← Nat.pow_succ, Nat.succ_eq_add_one, Nat.sub_add_cancel positive]
      omega
    have := Nat.lt_size.mpr (half ▸ reached)
    omega
  induction rounds generalizing bucket bound with
  | zero =>
    rw [growBucket]
    omega
  | succ rounds ih =>
    simp only [growBucket]
    split
    · rename_i grows
      have next : bound * 2 * 2 = 2 ^ (bucket + 1) := by rw [power, Nat.pow_succ]
      refine ih (by omega) grows.1 (by omega) next grows.2 ?_
      exact Nat.lt_size.mpr (power ▸ grows.2)
    · rename_i stops
      by_cases top : bucket + 1 < bucketCount
      · have small : microseconds < 2 ^ bucket := by
          rw [← power]
          omega
        have := Nat.size_le.mpr small
        omega
      · omega

theorem bucketFor_eq (microseconds : ℕ) :
    bucketFor microseconds = min microseconds.size (bucketCount - 1) := by
  simp only [bucketFor]
  split
  · rename_i zero
    rw [zero]
    rfl
  · exact growBucket_eq Nat.one_pos (by decide) (by decide) rfl (by omega)

theorem bucketFor_lt (microseconds : ℕ) : bucketFor microseconds < bucketCount := by
  rw [bucketFor_eq]
  exact Nat.lt_of_le_of_lt (Nat.min_le_right _ _) (by decide)

def bucketIndex (microseconds : ℕ) : Fin bucketCount :=
  ⟨bucketFor microseconds, bucketFor_lt microseconds⟩

structure LatencyHistogram where
  buckets : Fin bucketCount → ℕ := fun _ => 0
  count : ℕ := 0
  sum : ℕ := 0
  max : ℕ := 0

namespace LatencyHistogram

def record (histogram : LatencyHistogram) (microseconds : ℕ) : LatencyHistogram where
  buckets := fun index =>
    if index = bucketIndex microseconds then histogram.buckets index + 1
    else histogram.buckets index
  count := histogram.count + 1
  sum := histogram.sum + microseconds
  max := Max.max histogram.max microseconds

def fold (histogram other : LatencyHistogram) : LatencyHistogram where
  buckets := fun index => histogram.buckets index + other.buckets index
  count := histogram.count + other.count
  sum := histogram.sum + other.sum
  max := Max.max histogram.max other.max

/-- Quantiles are upper bounds of buckets, not samples. -/
structure Summary where
  count : ℕ := 0
  sum : ℕ := 0
  max : ℕ := 0
  p50 : ℕ := 0
  p90 : ℕ := 0
  p99 : ℕ := 0
  deriving DecidableEq, Repr

/-- The loop of `snapshot`; a quantile that is not found yet is absent. -/
structure Scan where
  cumulative : ℕ := 0
  p50 : Option ℕ := none
  p90 : Option ℕ := none
  p99 : Option ℕ := none

/-- A quantile is assigned once. -/
def assign (rank cumulative bound : ℕ) : Option ℕ → Option ℕ
  | some quantile => some quantile
  | none => if cumulative ≥ rank then some bound else none

section Snapshot

variable (histogram : LatencyHistogram)

def scanBucket (rank50 rank90 rank99 : ℕ) (scan : Scan) (index : Fin bucketCount) : Scan :=
  let cumulative := scan.cumulative + histogram.buckets index
  let bound := bucketUpperBound index
  { cumulative
    p50 := assign rank50 cumulative bound scan.p50
    p90 := assign rank90 cumulative bound scan.p90
    p99 := assign rank99 cumulative bound scan.p99 }

def snapshot : Summary :=
  let summary : Summary :=
    { count := histogram.count, sum := histogram.sum, max := histogram.max }
  if histogram.count = 0 then summary
  else
    let rank50 := (histogram.count * 50 + 99) / 100
    let rank90 := (histogram.count * 90 + 99) / 100
    let rank99 := (histogram.count * 99 + 99) / 100
    let scan := (List.finRange bucketCount).foldl (histogram.scanBucket rank50 rank90 rank99) {}
    { summary with
      p50 := min (scan.p50.getD 0) summary.max
      p90 := min (scan.p90.getD 0) summary.max
      p99 := min (scan.p99.getD 0) summary.max }

end Snapshot

def recorded (samples : List ℕ) : LatencyHistogram := samples.foldl record {}

/-- What a histogram holds after it and those folded into it recorded samples, in any order. -/
inductive Holds : LatencyHistogram → List ℕ → Prop where
  | fresh : Holds {} []
  | record {histogram : LatencyHistogram} {samples : List ℕ} (holds : Holds histogram samples)
      (microseconds : ℕ) : Holds (histogram.record microseconds) (microseconds :: samples)
  | fold {histogram other : LatencyHistogram} {samples others : List ℕ}
      (holds : Holds histogram samples) (otherHolds : Holds other others) :
      Holds (histogram.fold other) (samples ++ others)

/-! ### What the counters count -/

/-- The counters are those of the samples. -/
structure Tallies (histogram : LatencyHistogram) (samples : List ℕ) : Prop where
  buckets : histogram.buckets = tally bucketIndex samples
  count : histogram.count = samples.length
  sum : histogram.sum = samples.sum
  max : histogram.max = samples.foldr Max.max 0

variable {histogram other : LatencyHistogram} {samples others : List ℕ}

theorem Tallies.record (tallies : Tallies histogram samples) (microseconds : ℕ) :
    Tallies (histogram.record microseconds) (microseconds :: samples) := by
  refine ⟨?_, ?_, ?_, ?_⟩
  · funext index
    simp only [LatencyHistogram.record, tallies.buckets, tally, List.countP_cons]
    by_cases here : index = bucketIndex microseconds
    · simp [here]
    · simp [here, Ne.symm here]
  · simp only [LatencyHistogram.record, tallies.count, List.length_cons]
  · simp only [LatencyHistogram.record, tallies.sum, List.sum_cons, Nat.add_comm]
  · simp only [LatencyHistogram.record, tallies.max, List.foldr_cons, Nat.max_comm]

theorem foldr_max_append (first second : List ℕ) :
    (first ++ second).foldr Max.max 0 =
      Max.max (first.foldr Max.max 0) (second.foldr Max.max 0) := by
  induction first with
  | nil => simp
  | cons microseconds first ih => rw [List.cons_append, List.foldr_cons, ih, List.foldr_cons,
      Nat.max_assoc]

theorem Tallies.fold (tallies : Tallies histogram samples) (otherTallies : Tallies other others) :
    Tallies (histogram.fold other) (samples ++ others) := by
  refine ⟨?_, ?_, ?_, ?_⟩
  · funext index
    simp only [LatencyHistogram.fold, tallies.buckets, otherTallies.buckets, tally,
      List.countP_append]
  · simp only [LatencyHistogram.fold, tallies.count, otherTallies.count, List.length_append]
  · simp only [LatencyHistogram.fold, tallies.sum, otherTallies.sum, List.sum_append]
  · simp only [LatencyHistogram.fold, tallies.max, otherTallies.max, foldr_max_append]

theorem Holds.tallies (holds : Holds histogram samples) : Tallies histogram samples := by
  induction holds with
  | fresh => exact ⟨rfl, rfl, rfl, rfl⟩
  | record _ microseconds ih => exact ih.record microseconds
  | fold _ _ ih otherIh => exact ih.fold otherIh

theorem holds_recorded (samples : List ℕ) : ∃ order, order.Perm samples ∧
    Holds (recorded samples) order := by
  have run : ∀ (samples order : List ℕ) (histogram : LatencyHistogram), Holds histogram order →
      ∃ final, final.Perm (order ++ samples) ∧ Holds (samples.foldl record histogram) final := by
    intro samples
    induction samples with
    | nil => exact fun order histogram holds => ⟨order, by simp, holds⟩
    | cons microseconds samples ih =>
      intro order histogram holds
      rcases ih _ _ (holds.record microseconds) with ⟨final, perm, finalHolds⟩
      exact ⟨final, perm.trans (List.perm_middle.symm), finalHolds⟩
  exact run samples [] {} .fresh

theorem Tallies.perm (tallies : Tallies histogram samples) (perm : samples.Perm others) :
    Tallies histogram others := by
  refine ⟨?_, ?_, ?_, ?_⟩
  · rw [tallies.buckets]
    funext index
    exact perm.countP_eq _
  · rw [tallies.count, perm.length_eq]
  · rw [tallies.sum, perm.sum_eq]
  · rw [tallies.max]
    exact perm.foldr_eq 0

theorem tallies_recorded (samples : List ℕ) : Tallies (recorded samples) samples := by
  rcases holds_recorded samples with ⟨order, perm, holds⟩
  exact holds.tallies.perm perm

theorem Tallies.unique (tallies : Tallies histogram samples)
    (otherTallies : Tallies other samples) : histogram = other := by
  cases histogram
  cases other
  rcases tallies with ⟨rfl, rfl, rfl, rfl⟩
  rcases otherTallies with ⟨rfl, rfl, rfl, rfl⟩
  rfl

/-- Everything that is computed from the counters fits 64 bits. -/
structure Representable (histogram : LatencyHistogram) : Prop where
  cumulative : ∀ indices : List (Fin bucketCount), indices.Nodup →
    (indices.map histogram.buckets).sum < 2 ^ 64
  sum : histogram.sum < 2 ^ 64
  ranks : histogram.count * 99 + 99 < 2 ^ 64

theorem Tallies.representable (tallies : Tallies histogram samples)
    (few : samples.length * 99 + 99 < 2 ^ 64) (total : samples.sum < 2 ^ 64) :
    Representable histogram := by
  refine ⟨fun indices distinct => ?_, by rwa [tallies.sum], by rwa [tallies.count]⟩
  rw [tallies.buckets, sum_map_tally bucketIndex samples distinct]
  have := @List.countP_le_length _ (fun sample => bucketIndex sample ∈ indices) samples
  omega

/-! ### Quantiles -/

/-- What is reported for the sample of a rank. -/
def report (maximum sample : ℕ) : ℕ := min (bucketUpperBound (bucketFor sample)) maximum

example : (recorded [0, 3, 5]).snapshot = ⟨3, 8, 5, 3, 5, 5⟩ := by decide

end LatencyHistogram

end UsdAsset
