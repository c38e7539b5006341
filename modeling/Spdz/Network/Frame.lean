import Spdz.Bytes

/-!
# Frames on a byte stream

A channel between two parties is a stream of bytes. Each message travels in a frame: the length of
the body in four bytes, then the body, which is the number of bytes of the message and the message
itself. So a stream can be cut anywhere and the messages are still told apart, and a body that is
no message spoils only its own frame.

* `encodeCount`, `decodeCount` — numbers of bytes, in as few bytes as they need.
* `encodeBody`, `decodeBody` — bodies of frames.
* `encode?`, `read` — frames. Main statements: what was written is read back, whatever comes after
  it (`decodeBody_encodeBody`, `read_encode?`).
-/

namespace Spdz.Frame

open Bytes

-- Powers are those of the core library, whatever else is imported.
attribute [local instance (high)] instPowNat

/-! ## Counts -/

/-- A count in its shortest form: one byte up to 250, else a mark and 2, 4 or 8 bytes. -/
def encodeCount (n : Nat) : Bytes :=
  if n ≤ 250 then [UInt8.ofNat n]
  else if n < UInt16.size then 0xfb :: littleEndian 2 n
  else if n < UInt32.size then 0xfc :: littleEndian 4 n
  else 0xfd :: littleEndian 8 n

/-- A number of the given width at the start of a byte string, and what follows it. -/
def decodeFixed (width : Nat) (bytes : Bytes) : Option (Nat × Bytes) :=
  if bytes.length < width then none
  else some (ofLittleEndian (bytes.take width), bytes.drop width)

/-- The count at the start of a byte string, and what follows it. Longer forms than needed count
as well; the two marks for still wider numbers do not. -/
def decodeCount : Bytes → Option (Nat × Bytes)
  | [] => none
  | mark :: rest =>
    if mark.toNat ≤ 250 then some (mark.toNat, rest)
    else if mark = 0xfb then decodeFixed 2 rest
    else if mark = 0xfc then decodeFixed 4 rest
    else if mark = 0xfd then decodeFixed 8 rest
    else none

theorem decodeFixed_append {width n : Nat} (fits : n < 256 ^ width) (rest : Bytes) :
    decodeFixed width (littleEndian width n ++ rest) = some (n, rest) := by
  have enough : ¬ (littleEndian width n ++ rest).length < width := by simp
  rw [decodeFixed, if_neg enough, List.take_left' (by simp), List.drop_left' (by simp),
    ofLittleEndian_littleEndian, Nat.mod_eq_of_lt fits]

/-- Reading a count that was written gives it back, whatever follows. -/
theorem decodeCount_encodeCount {n : Nat} (fits : n < UInt64.size) (rest : Bytes) :
    decodeCount (encodeCount n ++ rest) = some (n, rest) := by
  unfold encodeCount
  split
  · next small =>
    have same : (UInt8.ofNat n).toNat = n := by simp; omega
    simp [decodeCount, same, small]
  · split
    · next fits => exact decodeFixed_append (show n < 256 ^ 2 by simpa using fits) rest
    · split
      · next fits => exact decodeFixed_append (show n < 256 ^ 4 by simpa using fits) rest
      · exact decodeFixed_append (show n < 256 ^ 8 by simpa using fits) rest

/-! ## Bodies -/

/-- The body of the frame of a message. -/
def encodeBody (message : Bytes) : Bytes := encodeCount message.length ++ message

/-- The message of a body. Its count must be that of the bytes that follow. -/
def decodeBody (body : Bytes) : Option Bytes :=
  match decodeCount body with
  | none => none
  | some (count, message) => if message.length = count then some message else none

theorem decodeBody_encodeBody {message : Bytes} (fits : message.length < UInt64.size) :
    decodeBody (encodeBody message) = some message := by
  simp [decodeBody, encodeBody, decodeCount_encodeCount fits]

/-! ## Frames -/

/-- The number of bytes in front of a body, which tell its length. -/
def headLength : Nat := 4

/-- The length of the longest body that a frame may have. -/
def maxLength : Nat := 8388608

/-- The frame of a message, if the message is not too long for one. -/
def encode? (message : Bytes) : Option Bytes :=
  let body := encodeBody message
  if body.length > maxLength then none else some (bigEndian headLength body.length ++ body)

/-- What a stream starts with. -/
inductive Start where
  /-- Part of a frame, or nothing. -/
  | incomplete
  /-- A frame that is too long. -/
  | oversized
  | frame (body rest : Bytes)
  deriving DecidableEq

/-- The length of the body of the frame that a stream starts with, once its head is there. -/
def bodyLength? (stream : Bytes) : Option Nat :=
  if stream.length < headLength then none else some (ofBigEndian (stream.take headLength))

/-- The frame that a stream starts with. -/
def read (stream : Bytes) : Start :=
  match bodyLength? stream with
  | none => .incomplete
  | some length =>
    let rest := stream.drop headLength
    if length > maxLength then .oversized
    else if rest.length < length then .incomplete
    else .frame (rest.take length) (rest.drop length)

/-- Reading a frame that was written gives its body, whatever follows. -/
theorem read_encode? {message written : Bytes} (h : encode? message = some written)
    (rest : Bytes) : read (written ++ rest) = .frame (encodeBody message) rest := by
  simp only [encode?] at h
  split at h
  · simp at h
  · next fits =>
    obtain rfl := Option.some.inj h
    have small : (encodeBody message).length ≤ 8388608 := by
      simpa [maxLength, Nat.not_lt] using fits
    have told : ofBigEndian (bigEndian headLength (encodeBody message).length) =
        (encodeBody message).length := by
      rw [ofBigEndian, bigEndian, List.reverse_reverse, ofLittleEndian_littleEndian]
      exact Nat.mod_eq_of_lt (by simp only [headLength]; omega)
    have width : (bigEndian headLength (encodeBody message).length).length = headLength := by
      simp [bigEndian]
    have enough : ¬ (bigEndian headLength (encodeBody message).length ++
        (encodeBody message ++ rest)).length < headLength := by
      rw [List.length_append, width]
      omega
    rw [read, bodyLength?, List.append_assoc, if_neg enough, List.take_left' width, told]
    simp only [List.drop_left' width]
    rw [if_neg fits, if_neg (by simp), List.take_left, List.drop_left]

end Spdz.Frame
