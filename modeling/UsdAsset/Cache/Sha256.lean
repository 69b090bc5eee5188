import UsdAsset.Lib.ByteString

/-!
# The digest of an entry's identity

Models `Sha256.h`: a digest that takes its message in pieces, through a buffer of one
block.
-/

namespace UsdAsset.Cache

def rotr (value bits : UInt32) : UInt32 := (value >>> bits) ||| (value <<< (32 - bits))

def roundConstants : List UInt32 :=
  [0x428a2f98, 0x71374491, 0xb5c0fbcf, 0xe9b5dba5, 0x3956c25b,
    0x59f111f1, 0x923f82a4, 0xab1c5ed5, 0xd807aa98, 0x12835b01,
    0x243185be, 0x550c7dc3, 0x72be5d74, 0x80deb1fe, 0x9bdc06a7,
    0xc19bf174, 0xe49b69c1, 0xefbe4786, 0x0fc19dc6, 0x240ca1cc,
    0x2de92c6f, 0x4a7484aa, 0x5cb0a9dc, 0x76f988da, 0x983e5152,
    0xa831c66d, 0xb00327c8, 0xbf597fc7, 0xc6e00bf3, 0xd5a79147,
    0x06ca6351, 0x14292967, 0x27b70a85, 0x2e1b2138, 0x4d2c6dfc,
    0x53380d13, 0x650a7354, 0x766a0abb, 0x81c2c92e, 0x92722c85,
    0xa2bfe8a1, 0xa81a664b, 0xc24b8b70, 0xc76c51a3, 0xd192e819,
    0xd6990624, 0xf40e3585, 0x106aa070, 0x19a4c116, 0x1e376c08,
    0x2748774c, 0x34b0bcb5, 0x391c0cb3, 0x4ed8aa4a, 0x5b9cca4f,
    0x682e6ff3, 0x748f82ee, 0x78a5636f, 0x84c87814, 0x8cc70208,
    0x90befffa, 0xa4506ceb, 0xbef9a3f7, 0xc67178f2]

/-- Eight words: the state of the digest, and the variables of its rounds. -/
structure Registers where
  a : UInt32
  b : UInt32
  c : UInt32
  d : UInt32
  e : UInt32
  f : UInt32
  g : UInt32
  h : UInt32
  deriving DecidableEq, Repr

namespace Registers

def initial : Registers :=
  ⟨0x6a09e667, 0xbb67ae85, 0x3c6ef372, 0xa54ff53a, 0x510e527f, 0x9b05688c, 0x1f83d9ab, 0x5be0cd19⟩

def round (registers : Registers) (constant word : UInt32) : Registers :=
  let ⟨a, b, c, d, e, f, g, h⟩ := registers
  let s1 := rotr e 6 ^^^ rotr e 11 ^^^ rotr e 25
  let ch := (e &&& f) ^^^ (~~~e &&& g)
  let t1 := h + s1 + ch + constant + word
  let s0 := rotr a 2 ^^^ rotr a 13 ^^^ rotr a 22
  let maj := (a &&& b) ^^^ (a &&& c) ^^^ (b &&& c)
  let t2 := s0 + maj
  { a := t1 + t2, b := a, c := b, d := c, e := d + t1, f := e, g := f, h := g }

def add (first second : Registers) : Registers where
  a := first.a + second.a
  b := first.b + second.b
  c := first.c + second.c
  d := first.d + second.d
  e := first.e + second.e
  f := first.f + second.f
  g := first.g + second.g
  h := first.h + second.h

def toList (registers : Registers) : List UInt32 :=
  [registers.a, registers.b, registers.c, registers.d, registers.e, registers.f, registers.g,
    registers.h]

end Registers

/-- A word of four bytes, the first one highest. -/
def bigEndianWord (first second third fourth : UInt8) : UInt32 :=
  (first.toUInt32 <<< 24) ||| (second.toUInt32 <<< 16) ||| (third.toUInt32 <<< 8) |||
    fourth.toUInt32

def blockWords : Bytes → List UInt32
  | first :: second :: third :: fourth :: rest =>
      bigEndianWord first second third fourth :: blockWords rest
  | _ => []

def nextWord (schedule : List UInt32) : UInt32 :=
  let w := fun back => schedule.getD (schedule.length - back) 0
  let s0 := rotr (w 15) 7 ^^^ rotr (w 15) 18 ^^^ (w 15 >>> 3)
  let s1 := rotr (w 2) 17 ^^^ rotr (w 2) 19 ^^^ (w 2 >>> 10)
  w 16 + s0 + w 7 + s1

def extendSchedule : ℕ → List UInt32 → List UInt32
  | 0, schedule => schedule
  | words + 1, schedule => extendSchedule words (schedule ++ [nextWord schedule])

/-- The state after one block of sixty-four bytes. -/
def compress (state : Registers) (block : Bytes) : Registers :=
  let schedule := extendSchedule 48 (blockWords block)
  let rounds := (roundConstants.zip schedule).foldl
    (fun registers step => registers.round step.1 step.2) state
  state.add rounds

structure Sha256 where
  state : Registers := .initial
  /-- Sixty-four bytes, of which the first `pending` are part of the message. -/
  buffer : Bytes := List.replicate 64 0
  pending : ℕ := 0
  length : UInt64 := 0

namespace Sha256

def updateByte (sha : Sha256) (byte : UInt8) : Sha256 :=
  let buffer := sha.buffer.set sha.pending byte
  if sha.pending + 1 = 64 then
    { sha with state := compress sha.state buffer, buffer, pending := 0 }
  else { sha with buffer, pending := sha.pending + 1 }

def update (sha : Sha256) (data : Bytes) : Sha256 :=
  let updated := data.foldl updateByte sha
  { updated with length := updated.length + UInt64.ofNat data.length * 8 }

/-- Zeros until the block has room for the length and nothing else. -/
def pad : ℕ → Sha256 → Sha256
  | 0, sha => sha
  | fuel + 1, sha => if sha.pending ≠ 56 then pad fuel (sha.update [0]) else sha

def lengthBytes (bits : UInt64) : Bytes :=
  ([56, 48, 40, 32, 24, 16, 8, 0] : List UInt64).map fun shift => ((bits >>> shift) &&& 0xFF).toUInt8

/-- Puts bytes into the buffer behind the pending ones. -/
def place (sha : Sha256) (data : Bytes) : Sha256 :=
  data.foldl (fun sha byte =>
    { sha with buffer := sha.buffer.set sha.pending byte, pending := sha.pending + 1 }) sha

def wordBytes (word : UInt32) : Bytes :=
  ([24, 16, 8, 0] : List UInt32).map fun shift => ((word >>> shift) &&& 0xFF).toUInt8

/-- A block has room again after sixty-four zeros at most. -/
def finish (sha : Sha256) : Bytes :=
  let padded := ((sha.update [0x80]).pad 64).place (lengthBytes sha.length)
  (compress padded.state padded.buffer).toList.flatMap wordBytes

end Sha256

def sha256 (message : Bytes) : Bytes := ((({} : Sha256).update message)).finish

@[simp]
theorem length_sha256 (message : Bytes) : (sha256 message).length = 32 := by
  simp [sha256, Sha256.finish, Sha256.wordBytes, Registers.toList]

/-- The digest of a message of three bytes. -/
example : sha256 (bytes "abc") =
    [0xba, 0x78, 0x16, 0xbf, 0x8f, 0x01, 0xcf, 0xea, 0x41, 0x41, 0x40, 0xde, 0x5d, 0xae, 0x22, 0x23,
      0xb0, 0x03, 0x61, 0xa3, 0x96, 0x17, 0x7a, 0x9c, 0xb4, 0x10, 0xff, 0x61, 0xf2, 0x00, 0x15,
      0xad] := by
  decide +kernel

end UsdAsset.Cache
