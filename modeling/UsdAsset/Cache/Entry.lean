import UsdAsset.Cache.Options
import UsdAsset.Cache.Sha256

/-!
# Entries on disk

Models the entry format of `DiskBlockStore.cpp`: the image of a key, its digest, the
name of its file, and the encoding and decoding of an entry.  Sizes and indices are
numbers of eight bytes.
-/

namespace UsdAsset.Cache

open ByteString

/-! ### Keys -/

/-- The key of a block, whose lengths and numbers all fit in eight bytes. -/
structure CacheKey where
  identity : AssetIdentity
  blockIndex : ℕ
  identifier_lt : identity.resolvedIdentifier.length < 2 ^ 64
  validator_lt : identity.validator.length < 2 ^ 64
  blockSize_lt : identity.blockSize < 2 ^ 64
  blockIndex_lt : blockIndex < 2 ^ 64
  deriving DecidableEq

/-- Every field of a key, the strings behind their lengths. -/
def keyImage (key : CacheKey) : Bytes :=
  littleEndian 8 key.identity.resolvedIdentifier.length ++ key.identity.resolvedIdentifier ++
    littleEndian 8 key.identity.validator.length ++ key.identity.validator ++
    littleEndian 8 key.identity.blockSize ++ littleEndian 8 key.blockIndex

theorem lengthPrefixed_inj {first second firstRest secondRest : Bytes}
    (firstFits : first.length < 2 ^ 64) (secondFits : second.length < 2 ^ 64)
    (same : littleEndian 8 first.length ++ (first ++ firstRest) =
      littleEndian 8 second.length ++ (second ++ secondRest)) :
    first = second ∧ firstRest = secondRest := by
  rcases List.append_inj same (by simp) with ⟨lengths, texts⟩
  have length := @littleEndian_injective 8 _ _ firstFits secondFits lengths
  exact List.append_inj texts length

theorem keyImage_injective : Function.Injective keyImage := by
  rintro ⟨⟨identifier, validator, blockSize⟩, index, identifierFits, validatorFits, sizeFits, fits⟩
    ⟨⟨otherIdentifier, otherValidator, otherSize⟩, otherIndex, otherIdentifierFits,
      otherValidatorFits, otherSizeFits, otherFits⟩ same
  simp only [keyImage, List.append_assoc] at same
  rcases lengthPrefixed_inj identifierFits otherIdentifierFits same with ⟨rfl, validators⟩
  rcases lengthPrefixed_inj validatorFits otherValidatorFits validators with ⟨rfl, numbers⟩
  rcases List.append_inj numbers (by simp) with ⟨sizes, indices⟩
  have sizeEq := @littleEndian_injective 8 _ _ sizeFits otherSizeFits sizes
  have indexEq := @littleEndian_injective 8 _ _ fits otherFits indices
  subst sizeEq indexEq
  rfl

/-- All that is written down of a key. -/
def digestOf (key : CacheKey) : Bytes := sha256 (keyImage key)

/-! ### Names -/

def hexDigits : Bytes := bytes "0123456789abcdef"

def hexDigitOf (value : ℕ) : UInt8 := hexDigits.getD (value % 16) 0

/-- The name of an entry's file: the first half of the digest, and no byte of the key. -/
def nameFor (digest : Bytes) : Bytes :=
  (digest.take 16).flatMap fun byte => [hexDigitOf (byte.toNat >>> 4), hexDigitOf byte.toNat]

def hexOf (value : UInt64) : Bytes :=
  (List.range 16).map fun index => hexDigitOf (value.toNat >>> (60 - 4 * index))

/-! ### The codec -/

def fnv1a (data : Bytes) (seed : UInt64) : UInt64 :=
  data.foldl (fun hash byte => (hash ^^^ byte.toUInt64) * 0x00000100000001B3) seed

def fnvOffsetBasis : UInt64 := 0xCBF29CE484222325

def checksum (data : Bytes) : ℕ := (fnv1a data fnvOffsetBasis).toNat

def magic : Bytes := bytes "USDBLK" ++ [0] ++ bytes "1"

def formatVersion : ℕ := 1

def headerBytes : ℕ := 88

/-- The largest payload, which is one block. -/
def maxEntryPayload : ℕ := maxBlockSize

/-- The header up to its own checksum. -/
def entryHeader (key : CacheKey) (digest payload : Bytes) : Bytes :=
  magic ++ littleEndian 4 formatVersion ++ littleEndian 4 0 ++
    littleEndian 8 key.identity.blockSize ++ littleEndian 8 key.blockIndex ++
    littleEndian 8 payload.length ++ digest ++ littleEndian 8 (checksum payload)

def encodeEntry (key : CacheKey) (digest payload : Bytes) : Bytes :=
  entryHeader key digest payload ++ littleEndian 8 (checksum (entryHeader key digest payload)) ++
    payload

/-- Why a load did not produce bytes, or the bytes it produced. -/
inductive DecodeOutcome where
  | ok (payload : Bytes)
  | corrupt
  | otherKey
  | wrongShape
  deriving DecidableEq, Repr

def decodeEntry (raw : Bytes) (key : CacheKey) (digest : Bytes) (expectedLength : ℕ) :
    DecodeOutcome :=
  if raw.length < headerBytes then .corrupt
  else if slice raw 0 8 ≠ magic then .corrupt
  else if checksum (slice raw 0 80) ≠ readLittleEndian (slice raw 80 8) then .corrupt
  else if readLittleEndian (slice raw 8 4) ≠ formatVersion then .corrupt
  else
    let payloadLength := readLittleEndian (slice raw 32 8)
    if payloadLength > maxEntryPayload then .corrupt
    else if raw.length ≠ headerBytes + payloadLength then .corrupt
    else
      let payload := slice raw headerBytes payloadLength
      if checksum payload ≠ readLittleEndian (slice raw 72 8) then .corrupt
      else if slice raw 40 32 ≠ digest then .otherKey
      else if readLittleEndian (slice raw 16 8) ≠ key.identity.blockSize ∨
          readLittleEndian (slice raw 24 8) ≠ key.blockIndex then .wrongShape
      else if payloadLength ≠ expectedLength then .wrongShape
      else .ok payload

end UsdAsset.Cache
