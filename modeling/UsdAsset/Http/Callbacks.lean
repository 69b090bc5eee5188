import Mathlib.Data.List.DropRight
import UsdAsset.Lib.ExactWord
import UsdAsset.Lib.Machine
import UsdAsset.Http.Transport

/-!
# The callbacks of the transport

Models `OnHeader` and `OnBody` of `CurlTransport.cpp`: what libcurl's callbacks leave of
one exchange.  A callback that returns less than it was given ends the transfer, so the
calls of an exchange are those up to the first that does.

This is what `Transport` takes for granted: the bytes of a response are the first of those
the server sent, and no more than there is room for.  Whether an operation on lengths
could wrap is part of the question, so they are made in words of 64 bits.
-/

namespace UsdAsset.Http

open ByteString

/-- What a callback is given: `size * count` bytes. -/
structure Chunk where
  size : ℕ
  count : ℕ
  data : Bytes
  length_eq : data.length = size * count
  fits : size * count < 2 ^ 64

inductive Callback where
  | onHeader (chunk : Chunk)
  | onBody (chunk : Chunk)

def Callback.chunk : Callback → Chunk
  | onHeader chunk | onBody chunk => chunk

/-- The state of one request that the two callbacks write into. -/
structure Exchange where
  headers : HeaderTable := {}
  headersComplete : Bool := false
  headerBytes : ℕ := 0
  headersTooLarge : Bool := false
  body : Buffer
  capacity : ℕ
  written : ℕ := 0
  overflowed : Bool := false

def isLineEnd (byte : UInt8) : Bool := byte == '\r' || byte == '\n'

def trimLine (line : Bytes) : Bytes := line.rdropWhile isLineEnd

namespace Exchange

def readLine (exchange : Exchange) (line : Bytes) : Exchange :=
  if line = [] then { exchange with headersComplete := true }
  else if (bytes "HTTP/").isPrefixOf line then
    { exchange with headers := {}, headersComplete := false }
  else
    match splitFirst ':' line with
    | none => exchange
    | some (name, value) =>
        { exchange with
          headers := ⟨exchange.headers.entries ++ [(name, value.dropWhile isSpace)]⟩ }

/-- Returns what the callback returns. -/
def onHeader (exchange : Exchange) (chunk : Chunk) : Option (ℕ × Exchange) := do
  let bytes ← ExactWord.mul 64 chunk.size chunk.count
  let room ← ExactWord.sub 64 maxResponseHeaderBytes exchange.headerBytes
  if bytes > room then return (0, { exchange with headersTooLarge := true })
  let headerBytes ← ExactWord.add 64 exchange.headerBytes bytes
  return (bytes, { exchange with headerBytes }.readLine (trimLine chunk.data))

/-- Copies as much as there is room for. -/
def take (exchange : Exchange) (data : Bytes) (count : ℕ) : Option Exchange :=
  if count > 0 then do
    let written ← ExactWord.add 64 exchange.written count
    return { exchange with
      body := exchange.body.write exchange.written (data.take count), written }
  else some exchange

def onBody (exchange : Exchange) (chunk : Chunk) : Option (ℕ × Exchange) := do
  let bytes ← ExactWord.mul 64 chunk.size chunk.count
  let room ← ExactWord.sub 64 exchange.capacity exchange.written
  let count := if bytes < room then bytes else room
  let taken ← exchange.take chunk.data count
  if count < bytes then return (count, { taken with overflowed := true })
  return (bytes, taken)

def call (exchange : Exchange) : Callback → Option (ℕ × Exchange)
  | .onHeader chunk => exchange.onHeader chunk
  | .onBody chunk => exchange.onBody chunk

end Exchange

/-- An exchange while libcurl transfers, until a callback ends it. -/
structure Transfer where
  exchange : Exchange
  ended : Bool := false

namespace Transfer

def opened (memory : Buffer) (capacity : ℕ) : Transfer where
  exchange := { body := memory, capacity }

def step (transfer : Transfer) (callback : Callback) : Option Transfer :=
  if transfer.ended then none
  else
    (transfer.exchange.call callback).map fun returned =>
      ⟨returned.2, returned.1 < callback.chunk.data.length⟩

end Transfer

/-! ### What the calls were given -/

def headerLines (calls : List Callback) : List Bytes :=
  calls.filterMap fun
    | .onHeader chunk => some chunk.data
    | .onBody _ => none

def bodyData (calls : List Callback) : Bytes :=
  calls.flatMap fun
    | .onHeader _ => []
    | .onBody chunk => chunk.data

/-- The lines within the limit; only the last can be beyond it. -/
def linesHeard (lines : List Bytes) : List Bytes :=
  if lines.flatten.length ≤ maxResponseHeaderBytes then lines else lines.dropLast

def isStatusLine (line : Bytes) : Bool := (bytes "HTTP/").isPrefixOf (trimLine line)

/-- The lines behind the last status line. -/
def sinceStatusLine (lines : List Bytes) : List Bytes :=
  lines.rtakeWhile fun line => !isStatusLine line

/-- The name in front of the colon as it stands, and the value without leading blanks. -/
def lineField (line : Bytes) : Option (Bytes × Bytes) :=
  (splitFirst ':' (trimLine line)).map fun halves => (halves.1, halves.2.dropWhile isSpace)

/-- What an exchange holds of the calls that were made. -/
structure Exchange.Holds (memory : Buffer) (capacity : ℕ) (calls : List Callback)
    (exchange : Exchange) : Prop where
  headerBytes_le : exchange.headerBytes ≤ maxResponseHeaderBytes
  headers : exchange.headers.entries =
    (sinceStatusLine (linesHeard (headerLines calls))).filterMap lineField
  headersTooLarge : exchange.headersTooLarge = true ↔
    maxResponseHeaderBytes < (headerLines calls).flatten.length
  capacity_eq : exchange.capacity = capacity
  written_le : exchange.written ≤ capacity
  written_eq : exchange.written = min (bodyData calls).length capacity
  body : exchange.body = memory.write 0 ((bodyData calls).take exchange.written)
  overflowed : exchange.overflowed = true ↔ capacity < (bodyData calls).length

/-! ### One call -/

theorem Chunk.bytes_eq (chunk : Chunk) :
    ExactWord.mul 64 chunk.size chunk.count = some chunk.data.length := by
  rw [ExactWord.mul_of_lt chunk.fits, chunk.length_eq]

namespace Exchange

variable {exchange : Exchange} {chunk : Chunk}

theorem readLine_frame (exchange : Exchange) (line : Bytes) :
    exchange.readLine line =
      { exchange with
        headers := (exchange.readLine line).headers
        headersComplete := (exchange.readLine line).headersComplete } := by
  simp only [readLine]
  split
  · rfl
  · split
    · rfl
    · split <;> rfl

theorem entries_readLine (exchange : Exchange) (line : Bytes) :
    (exchange.readLine (trimLine line)).headers.entries =
      if isStatusLine line then []
      else exchange.headers.entries ++ (lineField line).toList := by
  by_cases blank : trimLine line = []
  · simp [readLine, isStatusLine, lineField, blank, bytes, splitFirst]
  · rw [readLine, if_neg blank]
    by_cases status : isStatusLine line = true
    · have prefixed : (bytes "HTTP/").isPrefixOf (trimLine line) = true := status
      rw [if_pos prefixed, if_pos status]
    · have other : ¬(bytes "HTTP/").isPrefixOf (trimLine line) = true := status
      rw [if_neg other, if_neg status, lineField]
      cases splitFirst ':' (trimLine line) with
      | none => simp
      | some halves => rfl

/-- No operation of `OnHeader` wraps, and a line beyond the limit is not read. -/
theorem onHeader_eq (bounded : exchange.headerBytes ≤ maxResponseHeaderBytes) :
    exchange.onHeader chunk = some
      (if maxResponseHeaderBytes < exchange.headerBytes + chunk.data.length then
        (0, { exchange with headersTooLarge := true })
      else
        (chunk.data.length,
          { exchange with headerBytes := exchange.headerBytes + chunk.data.length }.readLine
            (trimLine chunk.data))) := by
  have room := @ExactWord.sub_of_le 64 _ _ bounded (by decide)
  simp only [onHeader, chunk.bytes_eq, room, Option.bind_eq_bind, Option.bind_some]
  have compared : chunk.data.length > maxResponseHeaderBytes - exchange.headerBytes ↔
      maxResponseHeaderBytes < exchange.headerBytes + chunk.data.length := by
    omega
  by_cases beyond : maxResponseHeaderBytes < exchange.headerBytes + chunk.data.length
  · rw [if_pos (compared.mpr beyond), if_pos beyond]
    rfl
  · have small : maxResponseHeaderBytes < 2 ^ 64 := by decide
    rw [if_neg (fun more => beyond (compared.mp more)), if_neg beyond,
      ExactWord.add_of_lt (by omega)]
    rfl

theorem take_eq {data : Bytes} {count : ℕ} (fits : exchange.written + count < 2 ^ 64) :
    exchange.take data count = some
      { exchange with
        body := exchange.body.write exchange.written (data.take count)
        written := exchange.written + count } := by
  simp only [take]
  split
  · rw [ExactWord.add_of_lt fits]
    rfl
  · rename_i none
    have zero : count = 0 := by omega
    subst zero
    rw [List.take_zero, Buffer.write_nil]
    rfl

/-- No operation of `OnBody` wraps, and it takes what there is room for. -/
theorem onBody_eq (bounded : exchange.written ≤ exchange.capacity)
    (capacityFits : exchange.capacity < 2 ^ 64) :
    exchange.onBody chunk = some
      (min chunk.data.length (exchange.capacity - exchange.written),
        { exchange with
          body := exchange.body.write exchange.written
            (chunk.data.take (exchange.capacity - exchange.written))
          written := exchange.written +
            min chunk.data.length (exchange.capacity - exchange.written)
          overflowed := exchange.overflowed ||
            decide (exchange.capacity < exchange.written + chunk.data.length) }) := by
  have room := @ExactWord.sub_of_le 64 _ _ bounded capacityFits
  simp only [onBody, chunk.bytes_eq, room, Option.bind_eq_bind, Option.bind_some]
  by_cases fits : chunk.data.length < exchange.capacity - exchange.written
  · have within : ¬exchange.capacity < exchange.written + chunk.data.length := by omega
    have whole : chunk.data.take (exchange.capacity - exchange.written) =
        chunk.data.take chunk.data.length := by
      rw [List.take_length, List.take_of_length_le (by omega)]
    rw [if_pos fits, take_eq (by omega), Nat.min_eq_left (by omega), whole]
    simp [within]
  · rw [if_neg fits, take_eq (by omega), Nat.min_eq_right (by omega)]
    by_cases more : exchange.capacity - exchange.written < chunk.data.length
    · have beyond : exchange.capacity < exchange.written + chunk.data.length := by omega
      simp [more, beyond]
    · have within : ¬exchange.capacity < exchange.written + chunk.data.length := by omega
      have same : chunk.data.length = exchange.capacity - exchange.written := by omega
      rw [Option.bind_some, if_neg more, decide_eq_false within, Bool.or_false, same]
      rfl

end Exchange

/-! ### Along the calls -/

section Calls

variable (calls : List Callback) (chunk : Chunk)

@[simp]
theorem headerLines_onHeader :
    headerLines (calls ++ [.onHeader chunk]) = headerLines calls ++ [chunk.data] := by
  simp [headerLines]

@[simp]
theorem headerLines_onBody : headerLines (calls ++ [.onBody chunk]) = headerLines calls := by
  simp [headerLines]

@[simp]
theorem bodyData_onHeader : bodyData (calls ++ [.onHeader chunk]) = bodyData calls := by
  simp [bodyData]

@[simp]
theorem bodyData_onBody :
    bodyData (calls ++ [.onBody chunk]) = bodyData calls ++ chunk.data := by
  simp [bodyData]

end Calls

theorem linesHeard_of_le {lines : List Bytes}
    (within : lines.flatten.length ≤ maxResponseHeaderBytes) : linesHeard lines = lines :=
  if_pos within

theorem linesHeard_of_lt {lines : List Bytes} {line : Bytes}
    (beyond : maxResponseHeaderBytes < (lines ++ [line]).flatten.length) :
    linesHeard (lines ++ [line]) = lines := by
  rw [linesHeard, if_neg (Nat.not_le.mpr beyond), List.dropLast_concat]

theorem fields_sinceStatusLine (lines : List Bytes) (line : Bytes) :
    (sinceStatusLine (lines ++ [line])).filterMap lineField =
      if isStatusLine line then []
      else (sinceStatusLine lines).filterMap lineField ++ (lineField line).toList := by
  simp only [sinceStatusLine, List.rtakeWhile_concat]
  cases isStatusLine line with
  | true => rfl
  | false =>
    cases field : lineField line <;> simp [field]

/-- What a transfer holds, and that it counted all it was given as long as it goes on. -/
structure Transfer.Follows (memory : Buffer) (capacity : ℕ) (calls : List Callback)
    (transfer : Transfer) : Prop where
  holds : transfer.exchange.Holds memory capacity calls
  counted : transfer.ended = false →
    transfer.exchange.headerBytes = (headerLines calls).flatten.length ∧
      (bodyData calls).length ≤ capacity

namespace Transfer

variable {memory : Buffer} {capacity : ℕ} {calls : List Callback} {transfer next : Transfer}
  {chunk : Chunk}

theorem follows_opened (memory : Buffer) (capacity : ℕ) :
    (opened memory capacity).Follows memory capacity [] := by
  refine ⟨⟨?_, ?_, ?_, ?_, ?_, ?_, ?_, ?_⟩, ?_⟩ <;>
    simp [opened, headerLines, bodyData, linesHeard, sinceStatusLine]

theorem Follows.onHeader (follows : transfer.Follows memory capacity calls)
    (going : transfer.ended = false) (stepped : transfer.step (.onHeader chunk) = some next) :
    next.Follows memory capacity (calls ++ [.onHeader chunk]) := by
  rcases follows with ⟨holds, counted⟩
  rcases counted going with ⟨total, room⟩
  have bounded := holds.headerBytes_le
  rw [step, going, if_neg (by simp), Exchange.call, Exchange.onHeader_eq bounded, Option.map_some,
    Option.some.injEq] at stepped
  have length : (headerLines (calls ++ [.onHeader chunk])).flatten.length =
      transfer.exchange.headerBytes + chunk.data.length := by
    simp [total]
  have heard := holds.headers
  rw [linesHeard_of_le (by omega)] at heard
  subst stepped
  by_cases beyond : maxResponseHeaderBytes < transfer.exchange.headerBytes + chunk.data.length
  · -- the line is refused, and was the last that could be
    rw [if_pos beyond]
    refine ⟨⟨bounded, ?_, ?_, holds.capacity_eq, holds.written_le, ?_, ?_, ?_⟩, ?_⟩
    · rw [headerLines_onHeader] at length ⊢
      rw [linesHeard_of_lt (by omega)]
      exact heard
    · simpa only [length, true_iff] using beyond
    · simpa using holds.written_eq
    · simpa using holds.body
    · simpa using holds.overflowed
    · intro more
      have positive : 0 < chunk.data.length := by omega
      simp [Callback.chunk, positive] at more
  · rw [if_neg beyond, Exchange.readLine_frame]
    refine ⟨⟨Nat.not_lt.mp beyond, ?_, ?_, holds.capacity_eq, holds.written_le, ?_, ?_, ?_⟩, ?_⟩
    · rw [headerLines_onHeader] at length ⊢
      rw [linesHeard_of_le (by omega), fields_sinceStatusLine, ← heard]
      exact Exchange.entries_readLine _ chunk.data
    · have quiet : transfer.exchange.headersTooLarge ≠ true := by
        intro large
        have := holds.headersTooLarge.mp large
        omega
      exact iff_of_false quiet (by rw [length]; exact beyond)
    · simpa using holds.written_eq
    · simpa using holds.body
    · simpa using holds.overflowed
    · intro _
      exact ⟨length.symm, by simpa using room⟩

theorem Follows.onBody (follows : transfer.Follows memory capacity calls)
    (capacityFits : capacity < 2 ^ 64) (going : transfer.ended = false)
    (stepped : transfer.step (.onBody chunk) = some next) :
    next.Follows memory capacity (calls ++ [.onBody chunk]) := by
  rcases follows with ⟨holds, counted⟩
  rcases counted going with ⟨total, room⟩
  have capacityEq := holds.capacity_eq
  have written : transfer.exchange.written = (bodyData calls).length := by
    rw [holds.written_eq, Nat.min_eq_left room]
  have quiet : transfer.exchange.overflowed = false := by
    rw [← Bool.not_eq_true, holds.overflowed]
    omega
  rw [step, going, if_neg (by simp), Exchange.call,
    Exchange.onBody_eq (by rw [capacityEq]; exact holds.written_le)
      (by rw [capacityEq]; exact capacityFits), Option.map_some, Option.some.injEq, capacityEq,
    written, quiet] at stepped
  have heard := holds.body
  rw [written, List.take_length] at heard
  subst stepped
  refine ⟨⟨holds.headerBytes_le, ?_, ?_, rfl, ?_, ?_, ?_, ?_⟩, ?_⟩
  · simpa using holds.headers
  · simpa using holds.headersTooLarge
  · dsimp only
    omega
  · simp only [bodyData_onBody, List.length_append]
    omega
  · have joined := Buffer.write_append memory 0 (bodyData calls)
      (chunk.data.take (capacity - (bodyData calls).length))
    rw [Nat.zero_add] at joined
    simp only [bodyData_onBody, heard]
    rw [joined, List.take_length_add_append, Nat.min_comm, ← List.take_eq_take_min]
  · simp
  · intro more
    have kept : ¬min chunk.data.length (capacity - (bodyData calls).length) < chunk.data.length :=
      of_decide_eq_false more
    refine ⟨by simpa using total, ?_⟩
    simp only [bodyData_onBody, List.length_append]
    omega

theorem step_ended {callback : Callback} (ended : transfer.ended = true) :
    transfer.step callback = none := if_pos ended

theorem Follows.step {callback : Callback} (capacityFits : capacity < 2 ^ 64)
    (follows : transfer.Follows memory capacity calls)
    (stepped : transfer.step callback = some next) :
    next.Follows memory capacity (calls ++ [callback]) := by
  cases going : transfer.ended with
  | true =>
    rw [step_ended going] at stepped
    cases stepped
  | false =>
    cases callback with
    | onHeader chunk => exact follows.onHeader going stepped
    | onBody chunk => exact follows.onBody capacityFits going stepped

theorem Follows.isSome_step (follows : transfer.Follows memory capacity calls)
    (capacityFits : capacity < 2 ^ 64) (going : transfer.ended = false) (callback : Callback) :
    (transfer.step callback).isSome = true := by
  rw [Transfer.step, going, if_neg (by simp), Option.isSome_map]
  have holds := follows.holds
  cases callback with
  | onHeader chunk =>
    rw [Exchange.call, Exchange.onHeader_eq holds.headerBytes_le]
    rfl
  | onBody chunk =>
    have bounded : transfer.exchange.written ≤ transfer.exchange.capacity := by
      rw [holds.capacity_eq]
      exact holds.written_le
    rw [Exchange.call, Exchange.onBody_eq bounded (by rw [holds.capacity_eq]; exact capacityFits)]
    rfl

end Transfer

/-- Whatever libcurl calls and whatever it passes, no length wraps, the table holds the fields of
the last response, and the buffer the first bytes of the body. -/
theorem callbacks_are_faithful (memory : Buffer) (capacity : UInt64) (calls : List Callback)
    (transfer : Transfer)
    (reached : Machine.run Transfer.step (.opened memory capacity.toNat) calls = some transfer) :
    transfer.exchange.Holds memory capacity.toNat calls ∧
      (transfer.ended = false → ∀ callback, (transfer.step callback).isSome = true) := by
  have capacityFits : capacity.toNat < 2 ^ 64 := capacity.toNat_lt
  have follows : transfer.Follows memory capacity.toNat ([] ++ calls) := by
    refine Machine.invariant_of_history ?_ (Transfer.follows_opened memory capacity.toNat) reached
    intro past before callback after follows stepped
    exact follows.step capacityFits stepped
  rw [List.nil_append] at follows
  exact ⟨follows.holds, follows.isSome_step capacityFits⟩

def Chunk.ofText (text : String) (fits : (bytes text).length < 2 ^ 64) : Chunk where
  size := 1
  count := (bytes text).length
  data := bytes text
  length_eq := (Nat.one_mul _).symm
  fits := by rwa [Nat.one_mul]

/-- An interim response, the one that follows it, and a body one byte too long. -/
def interimCalls : List Callback :=
  [.onHeader (.ofText "HTTP/1.1 100\r\n" (by decide)), .onHeader (.ofText "A: b\r\n" (by decide)),
    .onHeader (.ofText "HTTP/1.1 200\r\n" (by decide)),
    .onHeader (.ofText "ETag: \tx \r\n" (by decide)), .onBody (.ofText "ab" (by decide)),
    .onBody (.ofText "cd" (by decide))]

def interimTransfer : Transfer where
  exchange :=
    { headers := ⟨[(bytes "ETag", bytes "x ")]⟩
      headerBytes := 45
      body := (Buffer.write (fun _ => 0) 0 (bytes "ab")).write 2 (bytes "c")
      capacity := 3
      written := 3
      overflowed := true }
  ended := true

theorem callbacks_are_faithful_interim :
    Machine.run Transfer.step (.opened (fun _ => 0) (3 : UInt64).toNat) interimCalls =
        some interimTransfer ∧
      interimTransfer.exchange.Holds (fun _ => 0) (3 : UInt64).toNat interimCalls := by
  have reached : Machine.run Transfer.step (.opened (fun _ => 0) (3 : UInt64).toNat) interimCalls =
      some interimTransfer := by
    rfl
  exact ⟨reached, (callbacks_are_faithful _ 3 _ _ reached).1⟩

end UsdAsset.Http
