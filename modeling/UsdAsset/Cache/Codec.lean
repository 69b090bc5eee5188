import UsdAsset.Cache.Entry

/-!
# The entry format is exact

What `DecodeEntry` accepts is what `EncodeEntry` wrote, up to four bytes of the header
that nothing reads; an entry that is cut, extended or changed in one byte is corrupt,
whoever asks for it.
-/

namespace UsdAsset.Cache

open ByteString

variable {payload raw : Bytes}

/-! ### What the decoder checks -/

/-- An entry that is not damaged, whoever it belongs to. -/
structure Intact (raw : Bytes) : Prop where
  long : headerBytes ≤ raw.length
  magic : slice raw 0 8 = magic
  headerSum : checksum (slice raw 0 80) = readLittleEndian (slice raw 80 8)
  version : readLittleEndian (slice raw 8 4) = formatVersion
  fits : readLittleEndian (slice raw 32 8) ≤ maxEntryPayload
  length : raw.length = headerBytes + readLittleEndian (slice raw 32 8)
  payloadSum : checksum (slice raw headerBytes (readLittleEndian (slice raw 32 8))) =
    readLittleEndian (slice raw 72 8)

section Decode

variable {digest : Bytes} {key : CacheKey} {expectedLength : ℕ}

/-- What remains to be decided about an entry that is intact is whose it is. -/
theorem decodeEntry_of_intact (intact : Intact raw) :
    decodeEntry raw key digest expectedLength =
      if slice raw 40 32 ≠ digest then .otherKey
      else if readLittleEndian (slice raw 16 8) ≠ key.identity.blockSize ∨
          readLittleEndian (slice raw 24 8) ≠ key.blockIndex then .wrongShape
      else if readLittleEndian (slice raw 32 8) ≠ expectedLength then .wrongShape
      else .ok (slice raw headerBytes (readLittleEndian (slice raw 32 8))) := by
  simp only [decodeEntry]
  rw [if_neg (Nat.not_lt.mpr intact.long), if_neg (not_not.mpr intact.magic),
    if_neg (not_not.mpr intact.headerSum), if_neg (not_not.mpr intact.version),
    if_neg (Nat.not_lt.mpr intact.fits), if_neg (not_not.mpr intact.length),
    if_neg (not_not.mpr intact.payloadSum)]

theorem of_ne_corrupt {condition : Prop} [Decidable condition] {rest : DecodeOutcome}
    (kept : (if condition then .corrupt else rest) ≠ .corrupt) :
    ¬condition ∧ rest ≠ .corrupt := by
  split at kept
  · exact absurd rfl kept
  · exact ⟨‹_›, kept⟩

theorem intact_of_ne_corrupt (kept : decodeEntry raw key digest expectedLength ≠ .corrupt) :
    Intact raw := by
  simp only [decodeEntry] at kept
  rcases of_ne_corrupt kept with ⟨long, kept⟩
  rcases of_ne_corrupt kept with ⟨magic, kept⟩
  rcases of_ne_corrupt kept with ⟨headerSum, kept⟩
  rcases of_ne_corrupt kept with ⟨version, kept⟩
  rcases of_ne_corrupt kept with ⟨fits, kept⟩
  rcases of_ne_corrupt kept with ⟨length, kept⟩
  rcases of_ne_corrupt kept with ⟨payloadSum, _⟩
  exact ⟨Nat.not_lt.mp long, not_not.mp magic, not_not.mp headerSum, not_not.mp version,
    Nat.not_lt.mp fits, not_not.mp length, not_not.mp payloadSum⟩

theorem decodeEntry_of_not_intact (damaged : ¬Intact raw) :
    decodeEntry raw key digest expectedLength = .corrupt := by
  by_contra kept
  exact damaged (intact_of_ne_corrupt kept)

theorem decodeEntry_eq_ok_iff :
    decodeEntry raw key digest expectedLength = .ok payload ↔
      Intact raw ∧ slice raw 40 32 = digest ∧
        readLittleEndian (slice raw 16 8) = key.identity.blockSize ∧
        readLittleEndian (slice raw 24 8) = key.blockIndex ∧
        readLittleEndian (slice raw 32 8) = expectedLength ∧
        slice raw headerBytes expectedLength = payload := by
  constructor
  · intro decoded
    have intact : Intact raw := intact_of_ne_corrupt (by rw [decoded]; nofun)
    rw [decodeEntry_of_intact intact] at decoded
    split_ifs at decoded with other shape expected
    rcases not_or.mp shape with ⟨size, index⟩
    rw [not_not] at other size index expected
    rw [expected] at decoded
    exact ⟨intact, other, size, index, expected, DecodeOutcome.ok.inj decoded⟩
  · rintro ⟨intact, own, size, index, expected, rfl⟩
    rw [decodeEntry_of_intact intact, if_neg (not_not.mpr own),
      if_neg (not_or.mpr ⟨not_not.mpr size, not_not.mpr index⟩), if_neg (not_not.mpr expected),
      expected]

end Decode

/-! ### The layout of an entry -/

/-- A header with other bytes where the format has four that are zero. -/
def headerWithReserved (reserved : Bytes) (key : CacheKey) (digest payload : Bytes) : Bytes :=
  (entryHeader key digest payload).take 12 ++ reserved ++ (entryHeader key digest payload).drop 16

def encodeWithReserved (reserved : Bytes) (key : CacheKey) (digest payload : Bytes) : Bytes :=
  headerWithReserved reserved key digest payload ++
    littleEndian 8 (checksum (headerWithReserved reserved key digest payload)) ++ payload

section Layout

variable (reserved : Bytes) (key : CacheKey) (digest payload : Bytes)

theorem headerWithReserved_eq :
    headerWithReserved reserved key digest payload =
      magic ++ (littleEndian 4 formatVersion ++ (reserved ++
        (littleEndian 8 key.identity.blockSize ++ (littleEndian 8 key.blockIndex ++
          (littleEndian 8 payload.length ++ (digest ++ littleEndian 8 (checksum payload))))))) := by
  have front : (entryHeader key digest payload).take 12 =
      magic ++ littleEndian 4 formatVersion := by
    rw [entryHeader]
    simp only [List.append_assoc]
    rw [← List.append_assoc]
    exact List.take_left' (by simp [magic, bytes])
  have back : (entryHeader key digest payload).drop 16 =
      littleEndian 8 key.identity.blockSize ++ (littleEndian 8 key.blockIndex ++
        (littleEndian 8 payload.length ++ (digest ++ littleEndian 8 (checksum payload)))) := by
    rw [entryHeader]
    simp only [List.append_assoc]
    rw [← List.append_assoc, ← List.append_assoc]
    exact List.drop_left' (by simp [magic, bytes])
  simp only [headerWithReserved, front, back, List.append_assoc]

theorem encodeWithReserved_zero :
    encodeWithReserved (littleEndian 4 0) key digest payload = encodeEntry key digest payload := by
  have header : headerWithReserved (littleEndian 4 0) key digest payload =
      entryHeader key digest payload := by
    simp only [headerWithReserved_eq, entryHeader, List.append_assoc]
  rw [encodeWithReserved, encodeEntry, header]

def entryFields : List Bytes :=
  [magic, littleEndian 4 formatVersion, reserved, littleEndian 8 key.identity.blockSize,
    littleEndian 8 key.blockIndex, littleEndian 8 payload.length, digest,
    littleEndian 8 (checksum payload),
    littleEndian 8 (checksum (headerWithReserved reserved key digest payload)), payload]

theorem encodeWithReserved_eq_flatten :
    encodeWithReserved reserved key digest payload =
      (entryFields reserved key digest payload).flatten := by
  rw [encodeWithReserved]
  nth_rewrite 1 [headerWithReserved_eq]
  simp [entryFields]

variable {reserved digest}

theorem length_headerWithReserved (four : reserved.length = 4) (wide : digest.length = 32) :
    (headerWithReserved reserved key digest payload).length = 80 := by
  simp [headerWithReserved_eq, four, wide, magic, bytes]

theorem length_encodeWithReserved (four : reserved.length = 4) (wide : digest.length = 32) :
    (encodeWithReserved reserved key digest payload).length = headerBytes + payload.length := by
  simp only [encodeWithReserved, List.length_append, length_littleEndian, headerBytes,
    length_headerWithReserved key payload four wide]

theorem slice_encodeWithReserved (index : ℕ) {field : Bytes} {start count : ℕ}
    (found : (entryFields reserved key digest payload)[index]? = some field)
    (starts : (((entryFields reserved key digest payload).take index).map List.length).sum = start)
    (counts : field.length = count) :
    slice (encodeWithReserved reserved key digest payload) start count = field := by
  rw [encodeWithReserved_eq_flatten]
  exact slice_flatten found starts counts

section

variable (four : reserved.length = 4)

include four

theorem slice_header (wide : digest.length = 32) :
    slice (encodeWithReserved reserved key digest payload) 0 80 =
      headerWithReserved reserved key digest payload := by
  rw [encodeWithReserved, List.append_assoc, slice, List.drop_zero]
  exact List.take_left' (length_headerWithReserved key payload four wide)

theorem slice_payloadLength :
    slice (encodeWithReserved reserved key digest payload) 32 8 = littleEndian 8 payload.length :=
  slice_encodeWithReserved key payload 5 rfl (by simp [entryFields, four, magic, bytes]) (by simp)

theorem slice_digest (wide : digest.length = 32) :
    slice (encodeWithReserved reserved key digest payload) 40 32 = digest :=
  slice_encodeWithReserved key payload 6 rfl (by simp [entryFields, four, magic, bytes]) wide

theorem slice_payload (wide : digest.length = 32) :
    slice (encodeWithReserved reserved key digest payload) headerBytes payload.length = payload :=
  slice_encodeWithReserved key payload 9 rfl
    (by simp [entryFields, four, wide, magic, bytes, headerBytes]) rfl

theorem readLittleEndian_payloadLength (fits : payload.length < 2 ^ 64) :
    readLittleEndian (slice (encodeWithReserved reserved key digest payload) 32 8) =
      payload.length := by
  rw [slice_payloadLength key payload four, readLittleEndian_littleEndian (by simpa using fits)]

end

theorem checksum_lt (data : Bytes) : checksum data < 256 ^ 8 := (fnv1a data fnvOffsetBasis).toNat_lt

theorem intact_encodeWithReserved (four : reserved.length = 4) (wide : digest.length = 32)
    (fits : payload.length ≤ maxEntryPayload) :
    Intact (encodeWithReserved reserved key digest payload) := by
  have length := length_encodeWithReserved key payload four wide
  have payloadLength := @readLittleEndian_payloadLength reserved key digest payload four
    (Nat.lt_of_le_of_lt fits (by decide))
  refine ⟨?_, ?_, ?_, ?_, ?_, ?_, ?_⟩
  · rw [length]
    exact Nat.le_add_right _ _
  · exact slice_encodeWithReserved key payload 0 rfl rfl (by simp [magic, bytes])
  · rw [slice_header key payload four wide, slice_encodeWithReserved key payload 8 rfl
      (by simp [entryFields, four, wide, magic, bytes]) (by simp),
      readLittleEndian_littleEndian (checksum_lt _)]
  · rw [slice_encodeWithReserved key payload 1 rfl (by simp [entryFields, magic, bytes]) (by simp),
      readLittleEndian_littleEndian (by decide)]
  · rw [payloadLength]
    exact fits
  · rw [payloadLength, length]
  · rw [payloadLength, slice_payload key payload four wide, slice_encodeWithReserved key payload 7
      rfl (by simp [entryFields, four, wide, magic, bytes]) (by simp),
      readLittleEndian_littleEndian (checksum_lt _)]

end Layout

/-! ### Exactness -/

section Exact

variable {key : CacheKey}

/-- An intact entry of a key is the encoding of its payload, up to the four bytes. -/
theorem eq_encodeWithReserved (intact : Intact raw)
    (size : readLittleEndian (slice raw 16 8) = key.identity.blockSize)
    (index : readLittleEndian (slice raw 24 8) = key.blockIndex) :
    raw = encodeWithReserved (slice raw 12 4) key (slice raw 40 32)
      (slice raw headerBytes (readLittleEndian (slice raw 32 8))) := by
  rcases intact with ⟨long, magic, headerSum, version, _, length, payloadSum⟩
  simp only [headerBytes] at long length payloadSum ⊢
  generalize counted : readLittleEndian (slice raw 32 8) = count at length payloadSum ⊢
  have width : ∀ {start count : ℕ}, start + count ≤ 88 →
      (slice raw start count).length = count := by
    intro start count within
    rw [length_slice]
    omega
  have payloadLength : (slice raw 88 count).length = count := by
    rw [length_slice]
    omega
  have lengthField : littleEndian 8 count = slice raw 32 8 := by
    rw [← counted, littleEndian_readLittleEndian (width (by omega))]
  -- Each number of the header is the field that it was read from.
  have header : headerWithReserved (slice raw 12 4) key (slice raw 40 32) (slice raw 88 count) =
      slice raw 0 80 := by
    rw [headerWithReserved_eq, ← magic, ← version, ← size, ← index, payloadLength, lengthField,
      payloadSum]
    simp only [littleEndian_readLittleEndian, width, Nat.reduceAdd, Nat.reduceLeDiff]
    simp only [slice_append_slice, Nat.reduceAdd]
  rw [encodeWithReserved, header, headerSum, littleEndian_readLittleEndian (width (by omega)),
    slice_append_slice raw rfl, slice_append_slice raw rfl, ← length, slice, List.drop_zero,
    List.take_length]

theorem decodeEntry_eq_ok_iff_encoded {digest : Bytes} {expectedLength : ℕ}
    (wide : digest.length = 32) (fits : expectedLength ≤ maxEntryPayload) :
    decodeEntry raw key digest expectedLength = .ok payload ↔
      payload.length = expectedLength ∧ ∃ reserved : Bytes, reserved.length = 4 ∧
        raw = encodeWithReserved reserved key digest payload := by
  rw [decodeEntry_eq_ok_iff]
  constructor
  · rintro ⟨intact, own, size, index, expected, rfl⟩
    have encoded := eq_encodeWithReserved intact size index
    have long := intact.long
    have length := intact.length
    rw [own, expected] at encoded
    simp only [headerBytes] at long length encoded ⊢
    refine ⟨?_, slice raw 12 4, ?_, encoded⟩
    · rw [length_slice]
      omega
    · rw [length_slice]
      omega
  · rintro ⟨rfl, reserved, four, rfl⟩
    refine ⟨intact_encodeWithReserved key payload four wide fits,
      slice_digest key payload four wide, ?_, ?_,
      readLittleEndian_payloadLength key payload four (Nat.lt_of_le_of_lt fits (by decide)),
      slice_payload key payload four wide⟩
    · rw [slice_encodeWithReserved key payload 3 rfl (by simp [entryFields, four, magic, bytes])
        (by simp), readLittleEndian_littleEndian key.blockSize_lt]
    · rw [slice_encodeWithReserved key payload 4 rfl (by simp [entryFields, four, magic, bytes])
        (by simp), readLittleEndian_littleEndian key.blockIndex_lt]

end Exact

/--
An entry that is cut or extended says of itself the length it was written with, which
it does not have.
-/
theorem not_intact_of_comparable {whole : Bytes} (comparable : Comparable raw whole)
    (wholeLength : whole.length = headerBytes + readLittleEndian (slice whole 32 8))
    (differs : raw.length ≠ whole.length) : ¬Intact raw := by
  intro intact
  have long := intact.long
  have length := intact.length
  simp only [headerBytes] at long length wholeLength
  rw [comparable.slice_eq (by omega) (by omega)] at length
  omega

@[simp]
theorem length_digestOf (key : CacheKey) : (digestOf key).length = 32 := length_sha256 _

section Written

variable (key : CacheKey) {payload : Bytes}

theorem length_encodeEntry (payload : Bytes) :
    (encodeEntry key (digestOf key) payload).length = headerBytes + payload.length := by
  rw [← encodeWithReserved_zero]
  exact length_encodeWithReserved key payload (by simp) (by simp)

theorem intact_encodeEntry (fits : payload.length ≤ maxEntryPayload) :
    Intact (encodeEntry key (digestOf key) payload) := by
  rw [← encodeWithReserved_zero]
  exact intact_encodeWithReserved key payload (by simp) (by simp) fits

theorem readLittleEndian_encodeEntry (fits : payload.length < 2 ^ 64) :
    readLittleEndian (slice (encodeEntry key (digestOf key) payload) 32 8) = payload.length := by
  rw [← encodeWithReserved_zero]
  exact readLittleEndian_payloadLength key payload (by simp) fits

theorem slice_digest_encodeEntry :
    slice (encodeEntry key (digestOf key) payload) 40 32 = digestOf key := by
  rw [← encodeWithReserved_zero]
  exact slice_digest key payload (by simp) (by simp)

theorem slice_payload_encodeEntry :
    slice (encodeEntry key (digestOf key) payload) headerBytes payload.length = payload := by
  rw [← encodeWithReserved_zero]
  exact slice_payload key payload (by simp) (by simp)

theorem decodeEntry_encodeEntry (fits : payload.length ≤ maxEntryPayload) (other : CacheKey)
    (digest : Bytes) (expectedLength : ℕ) :
    (digest ≠ digestOf key →
      decodeEntry (encodeEntry key (digestOf key) payload) other digest expectedLength =
        .otherKey) ∧
    (expectedLength ≠ payload.length →
      decodeEntry (encodeEntry key (digestOf key) payload) other (digestOf key) expectedLength =
        .wrongShape) := by
  have intact := intact_encodeEntry key fits
  have length := readLittleEndian_encodeEntry key (Nat.lt_of_le_of_lt fits (by decide))
  constructor
  · intro differs
    rw [decodeEntry_of_intact intact, slice_digest_encodeEntry, if_pos differs.symm]
  · intro differs
    rw [decodeEntry_of_intact intact, slice_digest_encodeEntry, if_neg (not_not.mpr rfl), length]
    split
    · rfl
    · rw [if_pos differs.symm]

theorem not_intact_of_resized (fits : payload.length < 2 ^ 64)
    (comparable : Comparable raw (encodeEntry key (digestOf key) payload))
    (differs : raw ≠ encodeEntry key (digestOf key) payload) : ¬Intact raw := by
  refine not_intact_of_comparable comparable ?_ ?_
  · rw [readLittleEndian_encodeEntry key fits, length_encodeEntry]
  · intro sameLength
    exact differs (comparable.eq_of_length sameLength)

/-- The decoder knows no payload that is longer than a block may be. -/
theorem not_intact_of_oversized (large : maxEntryPayload < payload.length)
    (fits : payload.length < 2 ^ 64) : ¬Intact (encodeEntry key (digestOf key) payload) := by
  intro intact
  have bound := intact.fits
  rw [readLittleEndian_encodeEntry key fits] at bound
  omega

theorem decodeEntry_of_comparable {key origin : CacheKey} {content : Bytes} {expectedLength : ℕ}
    (fits : content.length ≤ maxEntryPayload)
    (comparable : Comparable raw (encodeEntry origin (digestOf origin) content))
    (decoded : decodeEntry raw key (digestOf key) expectedLength = .ok payload) :
    digestOf origin = digestOf key ∧ payload = content ∧ payload.length = expectedLength := by
  have machine : content.length < 2 ^ 64 := Nat.lt_of_le_of_lt fits (by decide)
  rcases decodeEntry_eq_ok_iff.mp decoded with ⟨intact, own, _, _, expected, rfl⟩
  have whole : raw = encodeEntry origin (digestOf origin) content := by
    by_contra differs
    exact not_intact_of_resized origin machine comparable differs intact
  rw [whole, slice_digest_encodeEntry] at own
  rw [whole, readLittleEndian_encodeEntry origin machine] at expected
  subst expected
  rw [whole, slice_payload_encodeEntry]
  exact ⟨own, rfl, rfl⟩

/--
An entry is accepted exactly if it is the encoding of the payload, up to four bytes of
the header; an entry that was written is never corrupt to another reader, and an entry
of another length is corrupt to every reader.
-/
theorem decodeEntry_exact :
    (∀ (raw payload : Bytes) (expectedLength : ℕ), expectedLength ≤ maxEntryPayload →
      (decodeEntry raw key (digestOf key) expectedLength = .ok payload ↔
        payload.length = expectedLength ∧ ∃ reserved : Bytes, reserved.length = 4 ∧
          raw = encodeWithReserved reserved key (digestOf key) payload)) ∧
    (∀ payload : Bytes, payload.length ≤ maxEntryPayload →
      ∀ (other : CacheKey) (digest : Bytes) (expectedLength : ℕ),
        (digest ≠ digestOf key →
          decodeEntry (encodeEntry key (digestOf key) payload) other digest expectedLength =
            .otherKey) ∧
        (expectedLength ≠ payload.length →
          decodeEntry (encodeEntry key (digestOf key) payload) other (digestOf key)
            expectedLength = .wrongShape)) ∧
    ∀ payload : Bytes, payload.length < 2 ^ 64 → ∀ raw : Bytes,
      (raw <+: encodeEntry key (digestOf key) payload ∨
        encodeEntry key (digestOf key) payload <+: raw) →
      raw ≠ encodeEntry key (digestOf key) payload →
      ∀ (other : CacheKey) (digest : Bytes) (expectedLength : ℕ),
        decodeEntry raw other digest expectedLength = .corrupt := by
  refine ⟨?_, ?_, ?_⟩
  · intro raw payload expectedLength fits
    exact decodeEntry_eq_ok_iff_encoded (length_digestOf key) fits
  · intro payload fits other digest expectedLength
    exact decodeEntry_encodeEntry key fits other digest expectedLength
  · intro payload fits raw resized differs other digest expectedLength
    exact decodeEntry_of_not_intact (not_intact_of_resized key fits resized differs)

end Written

def sampleKey : CacheKey where
  identity := ⟨bytes "u", bytes "v", 4096⟩
  blockIndex := 0
  identifier_lt := by decide
  validator_lt := by decide
  blockSize_lt := by decide
  blockIndex_lt := by decide

def sampleEntry : Bytes := encodeEntry sampleKey (digestOf sampleKey) (bytes "A")

theorem decodeEntry_exact_sample :
    decodeEntry sampleEntry sampleKey (digestOf sampleKey) 1 = .ok (bytes "A") ∧
    decodeEntry sampleEntry sampleKey [] 1 = .otherKey ∧
    decodeEntry sampleEntry sampleKey (digestOf sampleKey) 2 = .wrongShape ∧
    decodeEntry (sampleEntry ++ [0]) sampleKey (digestOf sampleKey) 1 = .corrupt := by
  rcases decodeEntry_exact sampleKey with ⟨accepts, written, resized⟩
  have small : (bytes "A").length ≤ maxEntryPayload := by decide
  refine ⟨?_, ?_, ?_, ?_⟩
  · refine (accepts _ _ 1 (by decide)).mpr ⟨rfl, littleEndian 4 0, by simp, ?_⟩
    exact (encodeWithReserved_zero _ _ _).symm
  · exact (written _ small sampleKey [] 1).1 (ne_of_apply_ne List.length (by simp))
  · exact (written _ small sampleKey [] 2).2 (by decide)
  · refine resized (bytes "A") (by decide) _ (Or.inr (List.prefix_append _ _)) ?_ _ _ _
    intro same
    have length := congrArg List.length same
    rw [List.length_append] at length
    simp at length

/-- A payload that is too long for a block is corrupt to the reader of another key. -/
theorem decodeEntry_oversized :
    ∃ (key : CacheKey) (payload digest : Bytes), digest ≠ digestOf key ∧
      decodeEntry (encodeEntry key (digestOf key) payload) key digest 1 = .corrupt := by
  refine ⟨sampleKey, List.replicate (maxEntryPayload + 1) 0, [], ?_, ?_⟩
  · exact ne_of_apply_ne List.length (by simp)
  · refine decodeEntry_of_not_intact (not_intact_of_oversized sampleKey ?_ ?_)
    · rw [List.length_replicate]
      exact Nat.lt_succ_self _
    · rw [List.length_replicate]
      decide

/-! ### One byte that changed -/

/-- The factor of the sum has an inverse. -/
theorem fnvPrime_mul_cancel {first second : UInt64}
    (same : first * 0x00000100000001B3 = second * 0x00000100000001B3) : first = second := by
  have inverse : (0x00000100000001B3 : UInt64) * 0xCE965057AFF6957B = 1 := by decide
  have product := congrArg (· * (0xCE965057AFF6957B : UInt64)) same
  simpa only [UInt64.mul_assoc, inverse, UInt64.mul_one] using product

theorem fnv1a_cons (byte : UInt8) (rest : Bytes) (seed : UInt64) :
    fnv1a (byte :: rest) seed =
      fnv1a rest ((seed ^^^ byte.toUInt64) * 0x00000100000001B3) := by
  simp only [fnv1a, List.foldl_cons]

theorem fnv1a_append (before after : Bytes) (seed : UInt64) :
    fnv1a (before ++ after) seed = fnv1a after (fnv1a before seed) := List.foldl_append

theorem fnv1a_injective (data : Bytes) : Function.Injective (fnv1a data) := by
  induction data with
  | nil => exact Function.injective_id
  | cons byte rest ih =>
    intro first second same
    rw [fnv1a_cons, fnv1a_cons] at same
    exact (UInt64.xor_left_inj _).mp (fnvPrime_mul_cancel (ih same))

theorem fnv1a_ne_of_differ (before after : Bytes) {first second : UInt8} (differ : first ≠ second)
    (seed : UInt64) :
    fnv1a (before ++ first :: after) seed ≠ fnv1a (before ++ second :: after) seed := by
  intro same
  rw [fnv1a_append, fnv1a_append, fnv1a_cons, fnv1a_cons] at same
  have mixed := fnvPrime_mul_cancel (fnv1a_injective after same)
  exact differ (UInt8.toUInt64_inj.mp ((UInt64.xor_right_inj _).mp mixed))

theorem checksum_set_ne {data : Bytes} {position : ℕ} {byte : UInt8}
    (within : position < data.length) (differs : data[position]? ≠ some byte) :
    checksum (data.set position byte) ≠ checksum data := by
  rw [List.getElem?_eq_getElem within, Ne, Option.some.injEq] at differs
  have before : data.set position data[position] = data := List.set_getElem_self within
  intro same
  refine fnv1a_ne_of_differ (data.take position) (data.drop (position + 1)) differs
    fnvOffsetBasis ?_
  rw [← UInt64.toNat_inj]
  rw [List.set_eq_take_append_cons_drop, if_pos within] at before same
  rw [before]
  exact same.symm

section Altered

variable {position : ℕ} {byte : UInt8}

/-- Every byte of an intact entry is covered by one of the two sums. -/
theorem not_intact_set (intact : Intact raw) (within : position < raw.length)
    (differs : raw[position]? ≠ some byte) : ¬Intact (raw.set position byte) := by
  intro altered
  have headerSum := altered.headerSum
  have long := intact.long
  have length := intact.length
  rw [headerBytes] at long length
  rcases Nat.lt_or_ge position 80 with header | behind
  · -- In the header, whose sum is kept behind it.
    rw [slice_set_of_inside 80 byte (Nat.zero_le position),
      slice_set_of_outside byte (Or.inl header), ← intact.headerSum] at headerSum
    refine checksum_set_ne ?_ ?_ headerSum
    · rw [length_slice]
      omega
    · rwa [getElem?_slice (by omega), Nat.zero_add]
  rw [slice_set_of_outside byte (Or.inr behind), intact.headerSum] at headerSum
  rcases Nat.lt_or_ge position headerBytes with stored | payload
  · -- In the sum of the header, which is kept whole.
    rw [headerBytes] at stored
    have same := readLittleEndian_injective (by simp) headerSum
    rw [slice_set_of_inside 8 byte behind] at same
    have changed := congrArg (fun field : Bytes => field[position - 80]?) same
    rw [List.getElem?_set_self (by rw [length_slice]; omega), getElem?_slice (by omega),
      Nat.add_sub_cancel' behind] at changed
    exact differs changed
  · -- In the payload, whose length and sum are kept in front of it.
    have kept : ∀ start count, start + count ≤ headerBytes →
        slice (raw.set position byte) start count = slice raw start count := fun start count ends =>
      slice_set_of_outside byte (Or.inr (Nat.le_trans ends payload))
    have payloadSum := altered.payloadSum
    rw [kept 32 8 (by decide), kept 72 8 (by decide), slice_set_of_inside _ byte payload,
      ← intact.payloadSum] at payloadSum
    have inside : position - headerBytes < readLittleEndian (slice raw 32 8) := by
      rw [headerBytes] at payload ⊢
      omega
    refine checksum_set_ne ?_ ?_ payloadSum
    · rw [length_slice]
      exact Nat.lt_min.mpr ⟨inside, Nat.sub_lt_sub_right payload within⟩
    · rwa [getElem?_slice inside, Nat.add_sub_cancel' payload]

end Altered

/--
An entry that was changed in one byte is corrupt to every reader; and the sum tells
apart any two texts that differ in one byte.
-/
theorem altered_byte_is_corrupt :
    (∀ (key : CacheKey) (payload : Bytes), payload.length ≤ maxEntryPayload →
      ∀ (position : ℕ) (byte : UInt8),
        position < (encodeEntry key (digestOf key) payload).length →
        (encodeEntry key (digestOf key) payload)[position]? ≠ some byte →
        ∀ (other : CacheKey) (digest : Bytes) (expectedLength : ℕ),
          decodeEntry ((encodeEntry key (digestOf key) payload).set position byte) other digest
            expectedLength = .corrupt) ∧
    ∀ (before after : Bytes) (first second : UInt8) (seed : UInt64), first ≠ second →
      fnv1a (before ++ first :: after) seed ≠ fnv1a (before ++ second :: after) seed := by
  refine ⟨?_, ?_⟩
  · intro key payload fits position byte within differs other digest expectedLength
    have intact := intact_encodeEntry key fits
    exact decodeEntry_of_not_intact (not_intact_set intact within differs)
  · intro before after first second seed differ
    exact fnv1a_ne_of_differ before after differ seed

theorem altered_byte_is_corrupt_sample :
    decodeEntry (sampleEntry.set 88 'B') sampleKey (digestOf sampleKey) 1 = .corrupt ∧
      fnv1a (bytes "A") fnvOffsetBasis ≠ fnv1a (bytes "B") fnvOffsetBasis := by
  rcases altered_byte_is_corrupt with ⟨altered, differ⟩
  refine ⟨?_, differ [] [] 'A' 'B' fnvOffsetBasis (by decide)⟩
  refine altered sampleKey (bytes "A") (by decide) 88 'B' ?_ ?_ sampleKey _ 1
  · rw [length_encodeEntry]
    decide
  · have field : slice sampleEntry 88 1 = bytes "A" := slice_payload_encodeEntry sampleKey
    have read : (slice sampleEntry 88 1)[0]? = sampleEntry[88]? := getElem?_slice (by decide)
    rw [field] at read
    rw [← sampleEntry, ← read]
    decide

end UsdAsset.Cache
