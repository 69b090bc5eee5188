import UsdAsset.Local.Reader

/-!
# What a local read returns while the file is rewritten

The file may hold any contents while a read goes on, and one positional read may
deliver bytes of several of them.  The read compares the identity of the file with the
captured one when all bytes are copied, but only if the platform can tell the identity.
-/

namespace UsdAsset.Local

open ByteString

/-- Bytes that one positional read delivered. -/
structure Piece where
  time : ℕ
  position : ℕ
  data : Bytes

def Piece.Of (piece : Piece) (content : Bytes) : Prop :=
  ∀ {index : ℕ} {byte : UInt8}, piece.data[index]? = some byte →
    content[piece.position + index]? = some byte

namespace LocalAssetReader

/-- The pieces a transfer is made of. -/
def pieces (reader : LocalAssetReader) (file : PlatformFile) (offset length : ℕ) :
    ℕ → Transfer → List Piece
  | 0, _ => []
  | rounds + 1, state =>
      if state.done < length then
        let want := reader.want state.time (offset + state.done) (length - state.done)
        if want = 0 then []
        else
          match file.positionalRead state.time (offset + state.done) want with
          | .error _ => []
          | .ok data =>
              ⟨state.time, offset + state.done, data⟩ ::
                if data = [] then []
                else pieces reader file offset length rounds
                  { done := state.done + data.length
                    transport := .success
                    dst := state.dst.write state.done data
                    time := state.time + 1 }
      else []

section Transfer

variable {reader : LocalAssetReader} {file : PlatformFile} {offset length : ℕ} {state : Transfer}

/-- What the pieces of a transfer tell about the buffer it fills. -/
structure Traced (file : PlatformFile) (offset : ℕ) (pieces : List Piece)
    (before after : Transfer) : Prop where
  grows : before.done ≤ after.done
  keeps : ∀ position < before.done, after.dst position = before.dst position
  later : before.time ≤ after.time
  read : ∀ piece ∈ pieces, piece.time < after.time ∧
    ∃ want, file.positionalRead piece.time piece.position want = .ok piece.data
  within : ∀ piece ∈ pieces, offset + before.done ≤ piece.position ∧
    piece.position + piece.data.length ≤ offset + after.done
  placed : ∀ piece ∈ pieces, ∀ {index : ℕ} {byte : UInt8}, piece.data[index]? = some byte →
    after.dst (piece.position - offset + index) = byte
  covered : ∀ position, before.done ≤ position → position < after.done →
    ∃ piece ∈ pieces, ∃ index, ∃ byte, piece.data[index]? = some byte ∧
      offset + position = piece.position + index

theorem Traced.stop {after : Transfer} (done : after.done = state.done)
    (dst : after.dst = state.dst) (time : state.time ≤ after.time) :
    Traced file offset [] state after := by
  refine ⟨Nat.le_of_eq done.symm, fun _ _ => by rw [dst], time, nofun, nofun, nofun, ?_⟩
  intro position onward beyond
  omega

theorem Traced.cons {pieces : List Piece} {after : Transfer} {want : ℕ} {data : Bytes}
    (answer : file.positionalRead state.time (offset + state.done) want = .ok data)
    (rest : Traced file offset pieces ⟨state.done + data.length, .success,
      state.dst.write state.done data, state.time + 1⟩ after) :
    Traced file offset (⟨state.time, offset + state.done, data⟩ :: pieces) state after := by
  rcases rest with ⟨grows, keeps, later, read, within, placed, covered⟩
  dsimp only at grows keeps later within covered
  refine ⟨by omega, ?_, by omega, ?_, ?_, ?_, ?_⟩
  · intro position before
    rw [keeps position (by omega), Buffer.write_of_not_covers]
    rintro ⟨onward, _⟩
    omega
  · exact List.forall_mem_cons.mpr ⟨⟨later, want, answer⟩, read⟩
  · refine List.forall_mem_cons.mpr ⟨⟨Nat.le_refl _, by dsimp only; omega⟩, ?_⟩
    intro piece mem
    have := within piece mem
    omega
  · refine List.forall_mem_cons.mpr ⟨?_, placed⟩
    intro index byte found
    have inside : index < data.length := (List.getElem?_eq_some_iff.mp found).1
    have covers : Buffer.Covers state.done data (state.done + index) := ⟨by omega, by omega⟩
    rw [Nat.add_sub_cancel_left, keeps _ (by omega), Buffer.write_of_covers covers,
      Nat.add_sub_cancel_left, List.getD_eq_getElem?_getD, found, Option.getD_some]
  · intro position onward beyond
    rcases Nat.lt_or_ge position (state.done + data.length) with here | behind
    · have inside : position - state.done < data.length := by omega
      refine ⟨_, List.mem_cons_self, position - state.done, data[position - state.done],
        List.getElem?_eq_getElem inside, ?_⟩
      dsimp only
      omega
    · rcases covered position behind beyond with ⟨piece, mem, found⟩
      exact ⟨piece, List.mem_cons_of_mem _ mem, found⟩

/-- The buffer holds a content exactly if every piece is of it. -/
theorem Traced.holds_iff {pieces : List Piece} {before after : Transfer} {content : Bytes}
    (traced : Traced file offset pieces before after) (start : before.done = 0) :
    (∀ position < after.done, content[offset + position]? = some (after.dst position)) ↔
      ∀ piece ∈ pieces, piece.Of content := by
  constructor
  · intro holds piece mem index byte found
    have inside := (List.getElem?_eq_some_iff.mp found).1
    rcases traced.within piece mem with ⟨onward, within⟩
    have here := holds (piece.position - offset + index) (by omega)
    have place : offset + (piece.position - offset + index) = piece.position + index := by omega
    rwa [traced.placed piece mem found, place] at here
  · intro every position before
    rcases traced.covered position (by omega) before with
      ⟨piece, mem, index, byte, found, place⟩
    have placed := traced.placed piece mem found
    have byteEq := every piece mem found
    rw [place, byteEq, ← placed]
    congr 2
    have := (traced.within piece mem).1
    omega

end Transfer

section Read

variable (reader : LocalAssetReader) (file : PlatformFile) (offset size time : ℕ) (dst : Buffer)

def transferred : Transfer :=
  let length := (resolveReadRange offset size reader.metadata.size).length
  reader.transfer file offset length length ⟨0, .success, dst, time⟩

variable {reader file offset size time dst} {dstIsNull : Bool}

end Read

end LocalAssetReader

/-! ### Revision binding -/

section Binding

variable {openContent path : Bytes} {identity : FileIdentity} {held : ℕ → Set Bytes}
  {file : PlatformFile} {opened : LocalAssetReader}

end Binding

/-! A file of two bytes that may be rewritten right after it was opened. -/

end UsdAsset.Local
