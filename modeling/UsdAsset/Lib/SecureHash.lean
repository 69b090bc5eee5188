import Mathlib.Analysis.SpecialFunctions.Pow.Real
import Mathlib.NumberTheory.PrimeCounting

/-!
# SHA-256

The digest FIPS 180-4 defines for a string of bits.  The constants are the ones the
standard describes, the bits behind the binary point of the roots of the first primes,
and not a table of them; padding is the least that fills a block.
-/

namespace SecureHash

/-! ### Bits -/

/-- The number a string of bits denotes, the highest bit first. -/
def ofBits (bits : List Bool) : ℕ := bits.foldl (fun value bit => 2 * value + bit.toNat) 0

/-- The lowest bits of a number, the highest one first. -/
def toBits : ℕ → ℕ → List Bool
  | 0, _ => []
  | width + 1, value => toBits width (value / 2) ++ [value % 2 == 1]

@[simp]
theorem length_toBits (width value : ℕ) : (toBits width value).length = width := by
  induction width generalizing value with
  | zero => rfl
  | succ width ih => simp [toBits, ih]

theorem foldl_ofBits (bits : List Bool) (value : ℕ) :
    bits.foldl (fun value bit => 2 * value + bit.toNat) value =
      value * 2 ^ bits.length + ofBits bits := by
  induction bits using List.reverseRecOn with
  | nil => simp [ofBits]
  | append_singleton bits bit ih =>
    simp only [ofBits, List.foldl_append, List.foldl_cons, List.foldl_nil, List.length_append,
      List.length_cons, List.length_nil, Nat.pow_succ] at ih ⊢
    rw [ih]
    ring

theorem ofBits_append (high low : List Bool) :
    ofBits (high ++ low) = ofBits high * 2 ^ low.length + ofBits low := by
  rw [ofBits, List.foldl_append, foldl_ofBits]
  rfl

theorem ofBits_toBits (width value : ℕ) : ofBits (toBits width value) = value % 2 ^ width := by
  induction width generalizing value with
  | zero => simp [toBits, ofBits, Nat.mod_one]
  | succ width ih =>
    have last : ofBits [value % 2 == 1] = value % 2 := by
      rcases Nat.mod_two_eq_zero_or_one value with even | odd
      · simp [ofBits, even]
      · simp [ofBits, odd]
    rw [toBits, ofBits_append, ih, last, Nat.pow_succ', Nat.mod_mul]
    simp only [List.length_singleton, Nat.pow_one]
    ring

theorem toBits_add (high low value : ℕ) :
    toBits (high + low) value = toBits high (value / 2 ^ low) ++ toBits low value := by
  induction low generalizing value with
  | zero => simp [toBits]
  | succ low ih =>
    rw [← Nat.add_assoc, toBits, ih, toBits, List.append_assoc, Nat.div_div_eq_div_mul,
      Nat.pow_succ']

theorem toBits_mod (width value : ℕ) : toBits width (value % 2 ^ width) = toBits width value := by
  induction width generalizing value with
  | zero => rfl
  | succ width ih =>
    have higher : value % 2 ^ (width + 1) / 2 = value / 2 % 2 ^ width := by
      rw [Nat.pow_succ', Nat.mod_mul_right_div_self]
    have lowest : value % 2 ^ (width + 1) % 2 = value % 2 :=
      Nat.mod_mod_of_dvd value (Dvd.intro_left _ rfl)
    rw [toBits, toBits, higher, lowest, ih]

theorem toBits_bytes (count value : ℕ) :
    toBits (8 * count) value =
      (List.range count).reverse.flatMap fun index => toBits 8 (value / 2 ^ (8 * index)) := by
  induction count with
  | zero => rfl
  | succ count ih =>
    rw [Nat.mul_succ, Nat.add_comm, toBits_add, ih, List.range_succ, List.reverse_append]
    rfl

/-! ### Functions and constants -/

abbrev Word := BitVec 32

def rotr (bits : ℕ) (word : Word) : Word := (word >>> bits) ||| (word <<< (32 - bits))

def choose (x y z : Word) : Word := (x &&& y) ^^^ (~~~x &&& z)

def majority (x y z : Word) : Word := (x &&& y) ^^^ (x &&& z) ^^^ (y &&& z)

def bigSigma0 (x : Word) : Word := rotr 2 x ^^^ rotr 13 x ^^^ rotr 22 x

def bigSigma1 (x : Word) : Word := rotr 6 x ^^^ rotr 11 x ^^^ rotr 25 x

def smallSigma0 (x : Word) : Word := rotr 7 x ^^^ rotr 18 x ^^^ (x >>> 3)

def smallSigma1 (x : Word) : Word := rotr 17 x ^^^ rotr 19 x ^^^ (x >>> 10)

/-- The first thirty-two bits behind the binary point of the root of the `index`-th prime. -/
noncomputable def rootFraction (degree index : ℕ) : Word :=
  BitVec.ofNat 32 ⌊(Nat.nth Nat.Prime index : ℝ) ^ (degree : ℝ)⁻¹ * 2 ^ 32⌋₊

/-- A root is enclosed by its powers. -/
theorem rootFraction_eq {degree index prime root : ℕ} (positive : degree ≠ 0)
    (isPrime : Nat.nth Nat.Prime index = prime) (lower : root ^ degree ≤ prime * (2 ^ 32) ^ degree)
    (upper : prime * (2 ^ 32) ^ degree < (root + 1) ^ degree) :
    rootFraction degree index = BitVec.ofNat 32 root := by
  have nonneg : (0 : ℝ) ≤ (prime : ℝ) ^ (degree : ℝ)⁻¹ * 2 ^ 32 := by positivity
  have power : ((prime : ℝ) ^ (degree : ℝ)⁻¹ * 2 ^ 32) ^ degree =
      ((prime * (2 ^ 32) ^ degree : ℕ) : ℝ) := by
    rw [mul_pow, Real.rpow_inv_natCast_pow (Nat.cast_nonneg prime) positive]
    norm_num
  rw [rootFraction, isPrime]
  congr 1
  rw [Nat.floor_eq_iff nonneg]
  constructor
  · rw [← pow_le_pow_iff_left₀ (Nat.cast_nonneg root) nonneg positive, power]
    exact_mod_cast lower
  · rw [← pow_lt_pow_iff_left₀ nonneg (by positivity) positive, power]
    exact_mod_cast upper

theorem nth_of_filter_range {property : ℕ → Prop} [DecidablePred property] {bound index value : ℕ}
    (found : ((List.range bound).filter property)[index]? = some value) :
    Nat.nth property index = value := by
  have count : ∀ bound, ((List.range bound).filter property).length = Nat.count property bound := by
    intro bound
    induction bound with
    | zero => rfl
    | succ bound ih =>
      rw [List.range_succ, List.filter_append, List.length_append, ih, Nat.count_succ]
      by_cases holds : property bound
      · simp [holds]
      · simp [holds]
  induction bound with
  | zero => cases found
  | succ bound ih =>
    rw [List.range_succ, List.filter_append] at found
    rcases Nat.lt_or_ge index ((List.range bound).filter property).length with before | last
    · rw [List.getElem?_append_left before] at found
      exact ih found
    · rw [List.getElem?_append_right last] at found
      by_cases holds : property bound
      · simp only [List.filter_cons, holds, decide_true, if_true, List.filter_nil] at found
        rcases List.getElem?_eq_some_iff.mp found with ⟨within, here⟩
        rw [List.length_singleton] at within
        rw [List.getElem_singleton] at here
        have position : index = Nat.count property bound := by
          rw [← count]
          omega
        rw [position, ← here]
        exact Nat.nth_count holds
      · simp [holds] at found

def firstPrimes : List ℕ :=
  [2, 3, 5, 7, 11, 13, 17, 19, 23, 29, 31, 37, 41, 43, 47, 53, 59, 61, 67, 71, 73, 79, 83, 89, 97,
    101, 103, 107, 109, 113, 127, 131, 137, 139, 149, 151, 157, 163, 167, 173, 179, 181, 191, 193,
    197, 199, 211, 223, 227, 229, 233, 239, 241, 251, 257, 263, 269, 271, 277, 281, 283, 293, 307,
    311]

theorem prime_iff_of_lt {number bound : ℕ} (small : number < bound * bound) :
    number.Prime ↔ 2 ≤ number ∧ ∀ divisor < bound, 2 ≤ divisor → divisor * divisor ≤ number →
      number % divisor ≠ 0 := by
  rw [Nat.prime_def_le_sqrt]
  refine and_congr_right fun _ => ⟨?_, ?_⟩
  · intro prime divisor _ proper square divides
    exact prime divisor proper (Nat.le_sqrt.mpr square) (Nat.dvd_of_mod_eq_zero divides)
  · intro undivided divisor proper root divides
    have square := Nat.le_sqrt.mp root
    have below : divisor < bound :=
      Nat.mul_self_lt_mul_self_iff.mp (Nat.lt_of_le_of_lt square small)
    exact undivided divisor below proper square (Nat.mod_eq_zero_of_dvd divides)

theorem nth_prime {index prime : ℕ} (found : firstPrimes[index]? = some prime) :
    Nat.nth Nat.Prime index = prime := by
  have divided : (List.range 312).filter Nat.Prime = (List.range 312).filter fun number =>
      2 ≤ number ∧ ∀ divisor < 18, 2 ≤ divisor → divisor * divisor ≤ number →
        number % divisor ≠ 0 := by
    refine List.filter_congr ?_
    intro number mem
    exact decide_eq_decide.mpr (prime_iff_of_lt (by have := List.mem_range.mp mem; omega))
  have listed : (List.range 312).filter Nat.Prime = firstPrimes := by
    rw [divided]
    decide +kernel
  rw [← listed] at found
  exact nth_of_filter_range found

/-! ### The digest -/

/-- The hash value between two blocks, and the working variables of one. -/
structure Variables where
  a : Word
  b : Word
  c : Word
  d : Word
  e : Word
  f : Word
  g : Word
  h : Word

namespace Variables

def add (first second : Variables) : Variables where
  a := first.a + second.a
  b := first.b + second.b
  c := first.c + second.c
  d := first.d + second.d
  e := first.e + second.e
  f := first.f + second.f
  g := first.g + second.g
  h := first.h + second.h

def toList (working : Variables) : List Word :=
  [working.a, working.b, working.c, working.d, working.e, working.f, working.g,
    working.h]

noncomputable def initial : Variables :=
  ⟨rootFraction 2 0, rootFraction 2 1, rootFraction 2 2, rootFraction 2 3, rootFraction 2 4,
    rootFraction 2 5, rootFraction 2 6, rootFraction 2 7⟩

def round (working : Variables) (constant word : Word) : Variables :=
  let t1 := working.h + bigSigma1 working.e +
    choose working.e working.f working.g + constant + word
  let t2 := bigSigma0 working.a + majority working.a working.b working.c
  { a := t1 + t2, b := working.a, c := working.b, d := working.c, e := working.d + t1,
    f := working.e, g := working.f, h := working.g }

end Variables

/-- The message schedule of a block, which is given by its sixteen words. -/
def schedule (block : ℕ → Word) (t : ℕ) : Word :=
  if t < 16 then block t
  else smallSigma1 (schedule block (t - 2)) + schedule block (t - 7) +
    smallSigma0 (schedule block (t - 15)) + schedule block (t - 16)
  termination_by t

noncomputable def compress (hash : Variables) (block : ℕ → Word) : Variables :=
  hash.add ((List.range 64).foldl
    (fun working t => working.round (rootFraction 3 t) (schedule block t)) hash)

/-- The fewest zeros that leave room for the length, and for nothing else, in a block. -/
noncomputable def paddingZeros (length : ℕ) : ℕ := sInf {zeros | (length + 1 + zeros) % 512 = 448}

noncomputable def pad (message : List Bool) : List Bool :=
  message ++ true :: (List.replicate (paddingZeros message.length) false ++
    toBits 64 message.length)

def wordAt (message : List Bool) (index : ℕ) : Word :=
  BitVec.ofNat 32 (ofBits ((message.drop (32 * index)).take 32))

/-- The hash value after the first blocks of a padded message. -/
noncomputable def hashBlocks (message : List Bool) (blocks : ℕ) : Variables :=
  (List.range blocks).foldl
    (fun hash block => compress hash fun t => wordAt message (16 * block + t)) .initial

noncomputable def sha256 (message : List Bool) : List Bool :=
  (hashBlocks (pad message) ((pad message).length / 512)).toList.flatMap
    fun word => toBits 32 word.toNat

theorem paddingZeros_eq {length zeros : ℕ} (fills : (length + 1 + zeros) % 512 = 448)
    (least : zeros < 512) : paddingZeros length = zeros := by
  have mem : zeros ∈ {zeros | (length + 1 + zeros) % 512 = 448} := fills
  have smallest : paddingZeros length ≤ zeros := Nat.sInf_le mem
  have solves : (length + 1 + paddingZeros length) % 512 = 448 := Nat.sInf_mem ⟨zeros, mem⟩
  omega

end SecureHash
