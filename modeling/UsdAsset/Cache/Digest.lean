import UsdAsset.Cache.Sha256
import UsdAsset.Lib.SecureHash

/-!
# The digest is SHA-256

Whatever the pieces a message is given in, the class of `Sha256.h` computes the digest
of the whole.  Between two bytes its state is the hash of the whole blocks given so far
and its buffer holds the rest.
-/

namespace UsdAsset.Cache

open ByteString SecureHash

variable {index : ℕ} {data : Bytes} {block : ℕ → SecureHash.Word} {words : List UInt32}

def bitsOf (data : Bytes) : List Bool := data.flatMap fun byte => SecureHash.toBits 8 byte.toNat

section Bits

theorem bitsOf_append (first second : Bytes) :
    bitsOf (first ++ second) = bitsOf first ++ bitsOf second := List.flatMap_append

@[simp]
theorem length_bitsOf (data : Bytes) : (bitsOf data).length = 8 * data.length := by
  simp [bitsOf, List.length_flatMap, Nat.mul_comm]

theorem drop_bitsOf (data : Bytes) (count : ℕ) :
    (bitsOf data).drop (8 * count) = bitsOf (data.drop count) := by
  rcases Nat.le_total count data.length with within | beyond
  · nth_rewrite 1 [← List.take_append_drop count data]
    rw [bitsOf_append]
    exact List.drop_left' (by simp [within])
  · rw [List.drop_of_length_le beyond, List.drop_of_length_le (by simpa using beyond)]
    rfl

end Bits

/-! ### Words and registers -/

def Registers.toVariables (registers : Registers) : SecureHash.Variables where
  a := registers.a.toBitVec
  b := registers.b.toBitVec
  c := registers.c.toBitVec
  d := registers.d.toBitVec
  e := registers.e.toBitVec
  f := registers.f.toBitVec
  g := registers.g.toBitVec
  h := registers.h.toBitVec

theorem toBitVec_rotr (value : UInt32) {bits : UInt32} (positive : 0 < bits.toNat)
    (small : bits.toNat < 32) :
    (rotr value bits).toBitVec = SecureHash.rotr bits.toNat value.toBitVec := by
  have left : (bits.toBitVec % 32).toNat = bits.toNat := by
    simp [BitVec.toNat_umod, Nat.mod_eq_of_lt small]
  have right : ((32 - bits).toBitVec % 32).toNat = 32 - bits.toNat := by
    rw [BitVec.toNat_umod, UInt32.toNat_toBitVec, UInt32.toNat_sub_of_le]
    · simp
      omega
    · rw [UInt32.le_iff_toNat_le]
      simp
      omega
  rw [rotr, UInt32.toBitVec_or, UInt32.toBitVec_shiftRight, UInt32.toBitVec_shiftLeft,
    SecureHash.rotr, BitVec.ushiftRight_eq', BitVec.shiftLeft_eq', left, right]

theorem toVariables_add (first second : Registers) :
    (first.add second).toVariables = first.toVariables.add second.toVariables := by
  simp [Registers.add, Registers.toVariables, SecureHash.Variables.add]

theorem toVariables_round (registers : Registers) (constant word : UInt32) :
    (registers.round constant word).toVariables =
      registers.toVariables.round constant.toBitVec word.toBitVec := by
  simp [Registers.round, Registers.toVariables, SecureHash.Variables.round, bigSigma0,
    bigSigma1, SecureHash.choose, SecureHash.majority, toBitVec_rotr]

/-! ### Constants -/

theorem rootFraction_of_table {degree prime whole : ℕ} {constant : UInt32} (positive : degree ≠ 0)
    (found : firstPrimes[index]? = some prime)
    (lower : (whole * 2 ^ 32 + constant.toNat) ^ degree ≤ prime * (2 ^ 32) ^ degree)
    (upper : prime * (2 ^ 32) ^ degree < (whole * 2 ^ 32 + constant.toNat + 1) ^ degree) :
    rootFraction degree index = constant.toBitVec := by
  rw [rootFraction_eq positive (nth_prime found) lower upper]
  apply BitVec.eq_of_toNat_eq
  have small := constant.toNat_lt
  rw [BitVec.toNat_ofNat, UInt32.toNat_toBitVec]
  omega

theorem toBitVec_roundConstants (within : index < 64) :
    (roundConstants.getD index 0).toBitVec = rootFraction 3 index := by
  have enclosed : ∀ index < 64, ∃ whole < 7,
      (whole * 2 ^ 32 + (roundConstants.getD index 0).toNat) ^ 3 ≤
          firstPrimes.getD index 0 * (2 ^ 32) ^ 3 ∧
        firstPrimes.getD index 0 * (2 ^ 32) ^ 3 <
          (whole * 2 ^ 32 + (roundConstants.getD index 0).toNat + 1) ^ 3 := by
    decide +kernel
  rcases enclosed index within with ⟨whole, _, lower, upper⟩
  have found : firstPrimes[index]? = some (firstPrimes.getD index 0) := by
    rw [List.getD_eq_getElem _ _ within]
    exact List.getElem?_eq_getElem within
  exact (rootFraction_of_table (by decide) found lower upper).symm

theorem toVariables_initial : Registers.initial.toVariables = SecureHash.Variables.initial := by
  have root : ∀ {index prime whole : ℕ} {constant : UInt32},
      firstPrimes[index]? = some prime →
      (whole * 2 ^ 32 + constant.toNat) ^ 2 ≤ prime * (2 ^ 32) ^ 2 →
      prime * (2 ^ 32) ^ 2 < (whole * 2 ^ 32 + constant.toNat + 1) ^ 2 →
      constant.toBitVec = rootFraction 2 index := fun found lower upper =>
    (rootFraction_of_table (by decide) found lower upper).symm
  rw [Registers.toVariables, SecureHash.Variables.initial, Registers.initial]
  simp only [SecureHash.Variables.mk.injEq]
  refine ⟨?_, ?_, ?_, ?_, ?_, ?_, ?_, ?_⟩
  · exact @root 0 2 1 _ rfl (by decide) (by decide)
  · exact @root 1 3 1 _ rfl (by decide) (by decide)
  · exact @root 2 5 2 _ rfl (by decide) (by decide)
  · exact @root 3 7 2 _ rfl (by decide) (by decide)
  · exact @root 4 11 3 _ rfl (by decide) (by decide)
  · exact @root 5 13 3 _ rfl (by decide) (by decide)
  · exact @root 6 17 4 _ rfl (by decide) (by decide)
  · exact @root 7 19 4 _ rfl (by decide) (by decide)

/-! ### Blocks -/

theorem shiftLeft_or_byte (high : ℕ) {byte : ℕ} (small : byte < 2 ^ 8) (low : ℕ) :
    high <<< (low + 8) ||| byte <<< low = (high * 2 ^ 8 + byte) <<< low := by
  have below : byte <<< low < 2 ^ (low + 8) := by
    rw [Nat.shiftLeft_eq, Nat.add_comm, Nat.pow_add]
    exact Nat.mul_lt_mul_of_pos_right small (Nat.two_pow_pos low)
  rw [← Nat.shiftLeft_add_eq_or_of_lt below]
  simp only [Nat.shiftLeft_eq, Nat.pow_add]
  ring

theorem toNat_shiftLeft_byte (byte : UInt8) {bits : UInt32} (small : bits.toNat ≤ 24) :
    (byte.toUInt32 <<< bits).toNat = byte.toNat <<< bits.toNat := by
  have byte_lt := byte.toNat_lt
  have power : 2 ^ bits.toNat ≤ 2 ^ 24 := Nat.pow_le_pow_right (by decide) small
  have amount : bits.toNat % 32 = bits.toNat := Nat.mod_eq_of_lt (by omega)
  rw [UInt32.toNat_shiftLeft, UInt8.toNat_toUInt32, amount, Nat.shiftLeft_eq]
  apply Nat.mod_eq_of_lt
  calc byte.toNat * 2 ^ bits.toNat ≤ 255 * 2 ^ 24 := Nat.mul_le_mul (by omega) power
    _ < 2 ^ 32 := by decide

theorem toNat_bigEndianWord (first second third fourth : UInt8) :
    (bigEndianWord first second third fourth).toNat =
      ((first.toNat * 2 ^ 8 + second.toNat) * 2 ^ 8 + third.toNat) * 2 ^ 8 + fourth.toNat := by
  have two : first.toNat <<< 24 ||| second.toNat <<< 16 = _ :=
    shiftLeft_or_byte first.toNat second.toNat_lt 16
  have three : (first.toNat * 2 ^ 8 + second.toNat) <<< 16 ||| third.toNat <<< 8 = _ :=
    shiftLeft_or_byte _ third.toNat_lt 8
  have four : ((first.toNat * 2 ^ 8 + second.toNat) * 2 ^ 8 + third.toNat) <<< 8 |||
      fourth.toNat = _ := shiftLeft_or_byte _ fourth.toNat_lt 0
  simp only [bigEndianWord, UInt32.toNat_or, UInt8.toNat_toUInt32]
  rw [toNat_shiftLeft_byte first (by decide), toNat_shiftLeft_byte second (by decide),
    toNat_shiftLeft_byte third (by decide)]
  exact (congrArg (· ||| _ ||| _) two).trans ((congrArg (· ||| _) three).trans four)

theorem wordAt_bitsOf {rest : Bytes} {first second third fourth : UInt8}
    (found : data.drop (4 * index) = first :: second :: third :: fourth :: rest) :
    wordAt (bitsOf data) index = (bigEndianWord first second third fourth).toBitVec := by
  have bits : (bitsOf data).drop (32 * index) =
      (toBits 8 first.toNat ++ (toBits 8 second.toNat ++
        (toBits 8 third.toNat ++ toBits 8 fourth.toNat))) ++ bitsOf rest := by
    have position : 32 * index = 8 * (4 * index) := by omega
    rw [position, drop_bitsOf, found]
    simp [bitsOf]
  have byte : ∀ byte : UInt8, ofBits (toBits 8 byte.toNat) = byte.toNat := by
    intro byte
    rw [ofBits_toBits, Nat.mod_eq_of_lt byte.toNat_lt]
  rw [wordAt, bits, List.take_left' (by simp)]
  apply BitVec.eq_of_toNat_eq
  have bounded := (bigEndianWord first second third fourth).toNat_lt
  rw [BitVec.toNat_ofNat, UInt32.toNat_toBitVec, ← Nat.mod_eq_of_lt bounded, toNat_bigEndianWord]
  simp only [ofBits_append, byte, length_toBits, List.length_append]
  refine congrArg (· % 2 ^ 32) ?_
  ring

theorem getElem?_blockWords {block rest : Bytes} {first second third fourth : UInt8}
    (found : block.drop (4 * index) = first :: second :: third :: fourth :: rest) :
    (blockWords block)[index]? = some (bigEndianWord first second third fourth) := by
  induction index generalizing block with
  | zero =>
    rw [Nat.mul_zero, List.drop_zero] at found
    rw [found]
    rfl
  | succ index ih =>
    rcases block with _ | ⟨b0, _ | ⟨b1, _ | ⟨b2, _ | ⟨b3, tail⟩⟩⟩⟩
    · cases found
    · simp [Nat.mul_succ] at found
    · simp [Nat.mul_succ] at found
    · simp [Nat.mul_succ] at found
    · exact ih found

theorem length_blockWords {count : ℕ} {block : Bytes} (length : block.length = 4 * count) :
    (blockWords block).length = count := by
  induction count generalizing block with
  | zero =>
    rw [List.length_eq_zero_iff.mp length]
    rfl
  | succ count ih =>
    rcases block with _ | ⟨b0, _ | ⟨b1, _ | ⟨b2, _ | ⟨b3, tail⟩⟩⟩⟩
    · cases length
    · simp at length
      omega
    · simp at length
      omega
    · simp at length
      omega
    · rw [blockWords, List.length_cons, ih (by simp at length; omega)]

theorem toBitVec_blockWords {block : ℕ} (within : index < 16)
    (whole : 64 * block + 64 ≤ data.length) :
    ((blockWords (slice data (64 * block) 64)).getD index 0).toBitVec =
      wordAt (bitsOf data) (16 * block + index) := by
  have long : 4 ≤ ((slice data (64 * block) 64).drop (4 * index)).length := by
    rw [List.length_drop, length_slice]
    omega
  rcases bytes : (slice data (64 * block) 64).drop (4 * index) with
    _ | ⟨b0, _ | ⟨b1, _ | ⟨b2, _ | ⟨b3, rest⟩⟩⟩⟩
  · simp [bytes] at long
  · simp [bytes] at long
  · simp [bytes] at long
  · simp [bytes] at long
  · have here : data.drop (4 * (16 * block + index)) =
        b0 :: b1 :: b2 :: b3 :: (rest ++ data.drop (64 * block + 64)) := by
      have split : data.drop (64 * block) =
          slice data (64 * block) 64 ++ data.drop (64 * block + 64) := by
        rw [slice, ← List.drop_drop, List.take_append_drop]
      have position : 4 * (16 * block + index) = 64 * block + 4 * index := by omega
      rw [position, ← List.drop_drop, split, List.drop_append_of_le_length, bytes]
      · rfl
      · rw [length_slice]
        omega
    rw [wordAt_bitsOf here, List.getD_eq_getElem?_getD, getElem?_blockWords bytes, Option.getD_some]

/-! ### Compression -/

/-- The words of a schedule are those the standard defines. -/
structure Scheduled (block : ℕ → SecureHash.Word) (words : List UInt32) : Prop where
  long : 16 ≤ words.length
  word : ∀ {t : ℕ}, t < words.length → (words.getD t 0).toBitVec = SecureHash.schedule block t

theorem toBitVec_smallSigma0 (word : UInt32) :
    (rotr word 7 ^^^ rotr word 18 ^^^ (word >>> 3)).toBitVec =
      smallSigma0 word.toBitVec := by
  simp [smallSigma0, toBitVec_rotr]

theorem toBitVec_smallSigma1 (word : UInt32) :
    (rotr word 17 ^^^ rotr word 19 ^^^ (word >>> 10)).toBitVec =
      smallSigma1 word.toBitVec := by
  simp [smallSigma1, toBitVec_rotr]

theorem toBitVec_nextWord (scheduled : Scheduled block words) :
    (nextWord words).toBitVec = SecureHash.schedule block words.length := by
  have long := scheduled.long
  have word : ∀ {back : ℕ}, 0 < back → back ≤ 16 →
      (words.getD (words.length - back) 0).toBitVec =
        SecureHash.schedule block (words.length - back) := fun positive near =>
    scheduled.word (by omega)
  rw [SecureHash.schedule, if_neg (by omega)]
  simp only [nextWord, UInt32.toBitVec_add, toBitVec_smallSigma0, toBitVec_smallSigma1]
  rw [@word 2 (by omega) (by omega), @word 7 (by omega) (by omega),
    @word 15 (by omega) (by omega), @word 16 (by omega) (by omega)]
  ac_rfl

theorem Scheduled.extend (scheduled : Scheduled block words) :
    Scheduled block (words ++ [nextWord words]) := by
  refine ⟨?_, ?_⟩
  · rw [List.length_append]
    exact Nat.le_add_right_of_le scheduled.long
  · intro t within
    rw [List.length_append, List.length_singleton] at within
    rcases Nat.lt_or_ge t words.length with before | last
    · rw [List.getD_append _ _ _ _ before]
      exact scheduled.word before
    · have position : t = words.length := by omega
      rw [position, List.getD_append_right _ _ _ _ (Nat.le_refl _), Nat.sub_self]
      exact toBitVec_nextWord scheduled

theorem Scheduled.extendSchedule (scheduled : Scheduled block words) (count : ℕ) :
    Scheduled block (extendSchedule count words) ∧
      (extendSchedule count words).length = words.length + count := by
  induction count generalizing words with
  | zero => exact ⟨scheduled, rfl⟩
  | succ count ih =>
    rcases ih scheduled.extend with ⟨extended, length⟩
    refine ⟨extended, ?_⟩
    rw [Cache.extendSchedule, length, List.length_append, List.length_singleton]
    omega

theorem foldl_zip {first second : List UInt32} (length : first.length = second.length)
    (step : Registers → UInt32 → UInt32 → Registers) (state : Registers) :
    (first.zip second).foldl (fun registers pair => step registers pair.1 pair.2) state =
      (List.range first.length).foldl
        (fun registers t => step registers (first.getD t 0) (second.getD t 0)) state := by
  have positions : first.zip second =
      (List.range first.length).map fun t => (first.getD t 0, second.getD t 0) := by
    refine List.ext_getElem (by simp [length]) ?_
    intro t left right
    simp at left
    simp [List.getElem?_eq_getElem left.1, List.getElem?_eq_getElem left.2]
  rw [positions, List.foldl_map]

theorem toVariables_rounds (words : List UInt32) (state : Registers) :
    ((List.range 64).foldl (fun registers t =>
        registers.round (roundConstants.getD t 0) (words.getD t 0)) state).toVariables =
      (List.range 64).foldl (fun working t =>
        working.round (rootFraction 3 t) (words.getD t 0).toBitVec)
        state.toVariables := by
  have translated : (List.range 64).foldl (fun working t =>
      working.round (roundConstants.getD t 0).toBitVec (words.getD t 0).toBitVec)
      state.toVariables = _ :=
    List.foldl_hom Registers.toVariables fun registers t =>
      (toVariables_round registers (roundConstants.getD t 0) (words.getD t 0)).symm
  rw [← translated]
  refine List.foldl_ext _ _ _ ?_
  intro working t mem
  rw [toBitVec_roundConstants (List.mem_range.mp mem)]

theorem toVariables_compress (state : Registers) {block : ℕ}
    (whole : 64 * block + 64 ≤ data.length) :
    (compress state (slice data (64 * block) 64)).toVariables =
      SecureHash.compress state.toVariables
        fun t => wordAt (bitsOf data) (16 * block + t) := by
  have words : (blockWords (slice data (64 * block) 64)).length = 16 :=
    length_blockWords (by rw [length_slice]; omega)
  have given : Scheduled (fun t => wordAt (bitsOf data) (16 * block + t))
      (blockWords (slice data (64 * block) 64)) := by
    refine ⟨Nat.le_of_eq words.symm, ?_⟩
    intro t within
    rw [words] at within
    rw [SecureHash.schedule, if_pos within]
    exact toBitVec_blockWords within whole
  rcases given.extendSchedule 48 with ⟨scheduled, length⟩
  rw [words] at length
  simp only [compress]
  rw [foldl_zip (by rw [length]; rfl), toVariables_add, SecureHash.compress]
  refine congrArg state.toVariables.add ?_
  refine (toVariables_rounds _ state).trans (List.foldl_ext _ _ _ ?_)
  intro working t mem
  have within : t < 64 := List.mem_range.mp mem
  rw [scheduled.word (by omega)]

/-! ### Blocks that were absorbed -/

/-- The state after the first blocks of a message. -/
def absorb (data : Bytes) (blocks : ℕ) : Registers :=
  (List.range blocks).foldl
    (fun state block => compress state (slice data (64 * block) 64)) .initial

theorem absorb_succ (data : Bytes) (blocks : ℕ) :
    absorb data (blocks + 1) = compress (absorb data blocks) (slice data (64 * blocks) 64) := by
  simp [absorb, List.range_succ]

/-- A block does not see what follows it. -/
theorem absorb_append {blocks : ℕ} (whole : 64 * blocks ≤ data.length) (more : Bytes) :
    absorb (data ++ more) blocks = absorb data blocks := by
  refine List.foldl_ext _ _ _ ?_
  intro state block mem
  have within := List.mem_range.mp mem
  rw [slice_of_isPrefix (List.prefix_append data more) (by omega)]

theorem toVariables_absorb {blocks : ℕ} (whole : 64 * blocks ≤ data.length) :
    (absorb data blocks).toVariables = hashBlocks (bitsOf data) blocks := by
  induction blocks with
  | zero => exact toVariables_initial
  | succ blocks ih =>
    rw [absorb_succ, toVariables_compress _ (by omega), ih (by omega)]
    simp [hashBlocks, List.range_succ]

namespace Sha256

/-- What the digest holds after some bytes: the blocks in its state, the rest in its buffer. -/
structure Absorbed (sha : Sha256) (data : Bytes) : Prop where
  state : sha.state = absorb data (data.length / 64)
  size : sha.buffer.length = 64
  pending : sha.pending = data.length % 64
  buffered : sha.buffer.take sha.pending = data.drop (64 * (data.length / 64))

variable {sha : Sha256}

namespace Absorbed

theorem initial : Absorbed {} [] := ⟨rfl, rfl, rfl, rfl⟩

variable (absorbed : Absorbed sha data)

include absorbed

theorem pending_lt : sha.pending < 64 := by
  rw [absorbed.pending]
  exact Nat.mod_lt _ (by decide)

theorem updateByte (byte : UInt8) : Absorbed (sha.updateByte byte) (data ++ [byte]) := by
  rcases absorbed with ⟨state, size, pending, buffered⟩
  have room : sha.pending < sha.buffer.length := by omega
  have written : (sha.buffer.set sha.pending byte).take (sha.pending + 1) =
      data.drop (64 * (data.length / 64)) ++ [byte] := by
    rw [← buffered, List.take_add_one, List.getElem?_set_self room, List.take_set,
      List.set_eq_of_length_le (by simp)]
    rfl
  have length : (data ++ [byte]).length = data.length + 1 := by simp
  have rest : (data ++ [byte]).drop (64 * (data.length / 64)) =
      data.drop (64 * (data.length / 64)) ++ [byte] :=
    List.drop_append_of_le_length (by omega)
  simp only [Sha256.updateByte]
  split
  · rename_i full
    have blocks : (data.length + 1) / 64 = data.length / 64 + 1 := by omega
    have block : sha.buffer.set sha.pending byte =
        slice (data ++ [byte]) (64 * (data.length / 64)) 64 := by
      rw [slice, rest, ← written, full, List.take_take, Nat.min_self,
        List.take_of_length_le (by simp [size])]
    refine ⟨?_, ?_, ?_, ?_⟩
    · rw [length, blocks, absorb_succ, absorb_append (by omega), ← state, block]
    · simpa using size
    · change 0 = _
      rw [length]
      omega
    · rw [length, blocks, List.drop_of_length_le (by rw [length]; omega)]
      rfl
  · rename_i partly
    have blocks : (data.length + 1) / 64 = data.length / 64 := by omega
    refine ⟨?_, ?_, ?_, ?_⟩
    · rw [length, blocks, absorb_append (by omega), ← state]
    · simpa using size
    · change sha.pending + 1 = _
      rw [length]
      omega
    · rw [length, blocks, rest]
      exact written

theorem foldl (piece : Bytes) : Absorbed (piece.foldl Sha256.updateByte sha) (data ++ piece) := by
  induction piece generalizing sha data with
  | nil => simpa using absorbed
  | cons byte rest ih =>
    have next := ih (absorbed.updateByte byte)
    rwa [List.append_assoc, List.singleton_append] at next

theorem update (piece : Bytes) : Absorbed (sha.update piece) (data ++ piece) := by
  have next := absorbed.foldl piece
  exact ⟨next.state, next.size, next.pending, next.buffered⟩

/-- Padding with zeros ends at the first one that leaves room for the length. -/
theorem pad {zeros fuel : ℕ}
    (fills : (data.length + zeros) % 64 = 56) (least : zeros < 64) (enough : zeros ≤ fuel) :
    Absorbed (sha.pad fuel) (data ++ List.replicate zeros 0) := by
  induction zeros generalizing sha data fuel with
  | zero =>
    have full : sha.pending = 56 := absorbed.pending.trans fills
    rw [List.replicate_zero, List.append_nil]
    cases fuel with
    | zero => exact absorbed
    | succ fuel =>
      rw [Sha256.pad, if_neg (not_not.mpr full)]
      exact absorbed
  | succ zeros ih =>
    cases fuel with
    | zero => cases enough
    | succ fuel =>
      have partly : sha.pending ≠ 56 := by
        rw [absorbed.pending]
        omega
      rw [Sha256.pad, if_pos partly, List.replicate_succ, List.append_cons]
      refine ih (absorbed.update [0]) ?_ (by omega) (by omega)
      rw [List.length_append, List.length_singleton]
      omega

end Absorbed

/-- Bytes that fill the buffer are compressed as if they had been given as part of the message. -/
theorem compress_place {data : Bytes} (nonempty : data ≠ [])
    (fills : sha.pending + data.length = 64) :
    compress (sha.place data).state (sha.place data).buffer =
      (data.foldl updateByte sha).state := by
  induction data generalizing sha with
  | nil => exact absurd rfl nonempty
  | cons byte rest ih =>
    rw [List.length_cons] at fills
    cases rest with
    | nil =>
      simp only [place, List.foldl_cons, List.foldl_nil, updateByte]
      rw [if_pos (by simpa using fills)]
    | cons next rest =>
      have partly : sha.pending + 1 ≠ 64 := by
        rw [List.length_cons] at fills
        omega
      have step : sha.updateByte byte = { sha with
          buffer := sha.buffer.set sha.pending byte, pending := sha.pending + 1 } := by
        rw [updateByte, if_neg partly]
      have after := @ih { sha with
        buffer := sha.buffer.set sha.pending byte, pending := sha.pending + 1 } (by simp)
        (by simp only; omega)
      rw [List.foldl_cons, step]
      exact after

/-! ### Padding -/

theorem length_foldl_updateByte (sha : Sha256) (piece : Bytes) :
    (piece.foldl updateByte sha).length = sha.length := by
  induction piece generalizing sha with
  | nil => rfl
  | cons byte rest ih =>
    rw [List.foldl_cons, ih, updateByte]
    split
    · rfl
    · rfl

theorem toNat_length_update {sha : Sha256} {count : ℕ} (piece : Bytes)
    (counted : sha.length = UInt64.ofNat (8 * count)) :
    (sha.update piece).length = UInt64.ofNat (8 * (count + piece.length)) := by
  simp only [update, length_foldl_updateByte, counted]
  rw [Nat.mul_add, UInt64.ofNat_add, Nat.mul_comm 8 piece.length, UInt64.ofNat_mul _ 8]
  rfl

theorem bitsOf_replicate_zero (count : ℕ) :
    bitsOf (List.replicate count 0) = List.replicate (8 * count) false := by
  induction count with
  | zero => rfl
  | succ count ih =>
    rw [List.replicate_succ, Nat.mul_succ, Nat.add_comm, List.replicate_add, ← ih]
    rfl

theorem bitsOf_lengthBytes (bits : UInt64) :
    bitsOf (lengthBytes bits) = toBits 64 bits.toNat := by
  have mask : (0xFF : UInt64).toNat = 2 ^ 8 - 1 := rfl
  have lowByte : ∀ shift : UInt64, shift.toNat < 64 →
      toBits 8 ((bits >>> shift) &&& 0xFF).toUInt8.toNat =
        toBits 8 (bits.toNat / 2 ^ shift.toNat) := by
    intro shift small
    rw [UInt64.toNat_toUInt8, UInt64.toNat_and, mask, Nat.and_two_pow_sub_one_eq_mod,
      UInt64.toNat_shiftRight, Nat.mod_eq_of_lt small, Nat.shiftRight_eq_div_pow, Nat.mod_mod,
      toBits_mod]
  have parts : toBits 64 bits.toNat = _ := toBits_bytes 8 bits.toNat
  simp only [lengthBytes, bitsOf, List.flatMap_cons, List.flatMap_nil, List.map_cons, List.map_nil]
  rw [parts, lowByte 56 (by decide), lowByte 48 (by decide), lowByte 40 (by decide),
    lowByte 32 (by decide), lowByte 24 (by decide), lowByte 16 (by decide), lowByte 8 (by decide),
    lowByte 0 (by decide)]
  rfl

theorem bitsOf_wordBytes (word : UInt32) :
    bitsOf (wordBytes word) = toBits 32 word.toNat := by
  have mask : (0xFF : UInt32).toNat = 2 ^ 8 - 1 := rfl
  have lowByte : ∀ shift : UInt32, shift.toNat < 32 →
      toBits 8 ((word >>> shift) &&& 0xFF).toUInt8.toNat =
        toBits 8 (word.toNat / 2 ^ shift.toNat) := by
    intro shift small
    rw [UInt32.toNat_toUInt8, UInt32.toNat_and, mask, Nat.and_two_pow_sub_one_eq_mod,
      UInt32.toNat_shiftRight, Nat.mod_eq_of_lt small, Nat.shiftRight_eq_div_pow, Nat.mod_mod,
      toBits_mod]
  have parts : toBits 32 word.toNat = _ := toBits_bytes 4 word.toNat
  simp only [wordBytes, bitsOf, List.flatMap_cons, List.flatMap_nil, List.map_cons, List.map_nil]
  rw [parts, lowByte 24 (by decide), lowByte 16 (by decide), lowByte 8 (by decide),
    lowByte 0 (by decide)]
  rfl

/-- How many zeros `Finish` appends to a message. -/
def zerosAfter (length : ℕ) : ℕ := (119 - length % 64) % 64

def paddedMessage (message : Bytes) : Bytes :=
  message ++ [0x80] ++ List.replicate (zerosAfter message.length) 0 ++
    lengthBytes (UInt64.ofNat (8 * message.length))

theorem bitsOf_paddedMessage {message : Bytes} (short : message.length < 2 ^ 61) :
    bitsOf (paddedMessage message) = SecureHash.pad (bitsOf message) := by
  have zeros : paddingZeros (8 * message.length) =
      7 + 8 * zerosAfter message.length := by
    refine paddingZeros_eq ?_ ?_
    · rw [zerosAfter]
      omega
    · rw [zerosAfter]
      omega
  have bits : (UInt64.ofNat (8 * message.length)).toNat = 8 * message.length :=
    UInt64.toNat_ofNat_of_lt' (by rw [UInt64.size]; omega)
  have one : bitsOf [0x80] = true :: List.replicate 7 false := rfl
  rw [paddedMessage, SecureHash.pad, length_bitsOf, zeros, bitsOf_append, bitsOf_append,
    bitsOf_append, bitsOf_lengthBytes, bits, bitsOf_replicate_zero, List.replicate_add, one]
  simp only [List.append_assoc, List.cons_append]

theorem zerosAfter_fills (message : Bytes) :
    ((message ++ [0x80]).length + zerosAfter message.length) % 64 = 56 := by
  rw [List.length_append, List.length_singleton, zerosAfter]
  omega

theorem Absorbed.padded (absorbed : Absorbed sha data) :
    Absorbed ((sha.update [0x80]).pad 64)
      (data ++ [0x80] ++ List.replicate (zerosAfter data.length) 0) := by
  have zeros : zerosAfter data.length < 64 := Nat.mod_lt _ (by decide)
  exact (absorbed.update [0x80]).pad (zerosAfter_fills data) zeros (Nat.le_of_lt zeros)

theorem Absorbed.pending_padded (absorbed : Absorbed sha data) :
    ((sha.update [0x80]).pad 64).pending = 56 := by
  rw [absorbed.padded.pending, List.length_append, List.length_replicate, zerosAfter_fills]

theorem finish_eq (absorbed : Absorbed sha data)
    (counted : sha.length = UInt64.ofNat (8 * data.length)) :
    sha.finish = (absorb (paddedMessage data)
      ((paddedMessage data).length / 64)).toList.flatMap wordBytes := by
  have compressed := @compress_place ((sha.update [0x80]).pad 64) (lengthBytes sha.length)
    (by simp [lengthBytes]) (by rw [absorbed.pending_padded]; rfl)
  have last := (absorbed.padded.foldl (lengthBytes sha.length)).state
  simp only [finish]
  rw [compressed, last, counted]
  rfl

end Sha256

theorem bitsOf_digest (registers : Registers) :
    bitsOf (registers.toList.flatMap Sha256.wordBytes) =
      registers.toVariables.toList.flatMap fun word => toBits 32 word.toNat := by
  simp only [Registers.toList, SecureHash.Variables.toList, Registers.toVariables,
    List.flatMap_cons, List.flatMap_nil, bitsOf_append, Sha256.bitsOf_wordBytes,
    UInt32.toNat_toBitVec]
  rfl

/-! ### The whole digest -/

namespace Sha256

/-- The positions of the buffer that bytes of a piece are written to. -/
def updateWrites (sha : Sha256) : Bytes → List ℕ
  | [] => []
  | byte :: rest => sha.pending :: updateWrites (sha.updateByte byte) rest

def padWrites : ℕ → Sha256 → List ℕ
  | 0, _ => []
  | fuel + 1, sha =>
      if sha.pending ≠ 56 then sha.updateWrites [0] ++ padWrites fuel (sha.update [0]) else []

def placeWrites (sha : Sha256) (data : Bytes) : List ℕ :=
  (List.range data.length).map (sha.pending + ·)

def finishWrites (sha : Sha256) : List ℕ :=
  sha.updateWrites [0x80] ++ padWrites 64 (sha.update [0x80]) ++
    ((sha.update [0x80]).pad 64).placeWrites (lengthBytes sha.length)

/-- The positions that are written to for a message in pieces. -/
def writes (sha : Sha256) : List Bytes → List ℕ
  | [] => sha.finishWrites
  | piece :: rest => sha.updateWrites piece ++ writes (sha.update piece) rest

section

variable (absorbed : Absorbed sha data)

include absorbed

theorem Absorbed.updateWrites_lt (piece : Bytes) :
    ∀ position ∈ sha.updateWrites piece, position < 64 := by
  induction piece generalizing sha data with
  | nil => nofun
  | cons byte rest ih =>
    exact List.forall_mem_cons.mpr ⟨absorbed.pending_lt, ih (absorbed.updateByte byte)⟩

theorem Absorbed.padWrites_lt (fuel : ℕ) : ∀ position ∈ padWrites fuel sha, position < 64 := by
  induction fuel generalizing sha data with
  | zero => nofun
  | succ fuel ih =>
    rw [padWrites]
    split
    · exact List.forall_mem_append.mpr
        ⟨absorbed.updateWrites_lt [0], ih (absorbed.update [0])⟩
    · nofun

theorem Absorbed.finishWrites_lt : ∀ position ∈ sha.finishWrites, position < 64 := by
  refine List.forall_mem_append.mpr ⟨List.forall_mem_append.mpr ⟨?_, ?_⟩, ?_⟩
  · exact absorbed.updateWrites_lt [0x80]
  · exact (absorbed.update [0x80]).padWrites_lt 64
  · intro position mem
    rcases List.mem_map.mp mem with ⟨offset, within, rfl⟩
    have eight : offset < 8 := List.mem_range.mp within
    rw [absorbed.pending_padded]
    omega

/-- A message may be given in any pieces: what counts is their concatenation. -/
theorem Absorbed.pieces
    (counted : sha.length = UInt64.ofNat (8 * data.length)) (pieces : List Bytes) :
    Absorbed (pieces.foldl Sha256.update sha) (data ++ pieces.flatten) ∧
      (pieces.foldl Sha256.update sha).length = UInt64.ofNat (8 * (data ++ pieces.flatten).length) ∧
      ∀ position ∈ sha.writes pieces, position < 64 := by
  induction pieces generalizing sha data with
  | nil =>
    rw [List.flatten_nil, List.append_nil]
    exact ⟨absorbed, counted, absorbed.finishWrites_lt⟩
  | cons piece rest ih =>
    have length : (sha.update piece).length = UInt64.ofNat (8 * (data ++ piece).length) := by
      rw [List.length_append]
      exact toNat_length_update piece counted
    rcases ih (absorbed.update piece) length with ⟨absorbedAll, lengthAll, inBounds⟩
    rw [List.flatten_cons, ← List.append_assoc]
    exact ⟨absorbedAll, lengthAll,
      List.forall_mem_append.mpr ⟨absorbed.updateWrites_lt piece, inBounds⟩⟩

end

/--
Whatever the pieces a message is given in, the digest is that of the standard; the loop
that pads it ends, and nothing is written outside the buffer.
-/
theorem finish_is_sha256 (pieces : List Bytes) (short : pieces.flatten.length < 2 ^ 61) :
    bitsOf (pieces.foldl update {}).finish = SecureHash.sha256 (bitsOf pieces.flatten) ∧
      (((pieces.foldl update {}).update [0x80]).pad 64).pending = 56 ∧
      ∀ position ∈ writes {} pieces, position < 64 := by
  rcases Absorbed.initial.pieces rfl pieces with ⟨absorbed, counted, inBounds⟩
  rw [List.nil_append] at absorbed counted
  refine ⟨?_, absorbed.pending_padded, inBounds⟩
  have padded := bitsOf_paddedMessage short
  have blocks : (bitsOf (paddedMessage pieces.flatten)).length / 512 =
      (paddedMessage pieces.flatten).length / 64 := by
    rw [length_bitsOf]
    omega
  rw [finish_eq absorbed counted, bitsOf_digest, toVariables_absorb (by omega), SecureHash.sha256,
    ← padded, blocks]

theorem finish_is_sha256_abc :
    bitsOf ([bytes "a", [], bytes "bc"].foldl update {}).finish =
      SecureHash.sha256 (bitsOf (bytes "abc")) :=
  (finish_is_sha256 [bytes "a", [], bytes "bc"] (by decide)).1

end Sha256

end UsdAsset.Cache
