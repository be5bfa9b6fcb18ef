import Tether.Bytes
import Tether.Narrow

/-!
# Frames in a stream

A frame is written as its length in four bytes and its bytes. A stream that ends
within the length counts as ended; one that ends within the frame is cut short.

A stream comes in chunks. What is read depends only on the chunks joined
(`take_eq`).
-/

namespace Tether.Framing

/-- How many bytes the length takes. -/
def prefixLength : Nat := 4

/-! ### Reading -/

/-- Why reading fails. -/
inductive ReadError where
  /-- The frame is longer than allowed. -/
  | oversized (length max : Nat)
  /-- The stream ends within a frame. -/
  | cutShort
  /-- The connection broke. -/
  | reset
  deriving DecidableEq

/-- The bytes that the chunks still hold. -/
def remaining (chunks : List Bytes) : Nat := chunks.flatten.length

/-- The first `n` bytes of the chunks, or all if there are fewer, and what is left. -/
def take : Nat → List Bytes → Bytes × List Bytes
  | _, [] => ([], [])
  | n, c :: cs =>
    if n < c.length then (c.take n, c.drop n :: cs)
    else
      let more := take (n - c.length) cs
      (c ++ more.1, more.2)

theorem take_eq (n : Nat) (chunks : List Bytes) :
    (take n chunks).1 = chunks.flatten.take n ∧ (take n chunks).2.flatten = chunks.flatten.drop n := by
  induction chunks generalizing n with
  | nil => simp [take]
  | cons c cs ih =>
    unfold take
    split
    · next h =>
      have h' : n - c.length = 0 := by omega
      simp [List.take_append, List.drop_append, h']
    · next h =>
      obtain ⟨h₁, h₂⟩ := ih (n - c.length)
      have h' : c.length ≤ n := by omega
      simp [h₁, h₂, List.take_append, List.drop_append, List.take_of_length_le h',
        List.drop_of_length_le h']

/-- What one attempt to read a frame gives. -/
inductive Read where
  /-- A frame, and the chunks after it. -/
  | frame (bytes : Bytes) (rest : List Bytes)
  /-- The stream ended between two frames. -/
  | ended
  /-- There is no frame to be had. -/
  | failed (error : ReadError)

/-- Read a frame of at most `max` bytes. After the chunks the stream ends, or breaks
if `breaks`. -/
def read (max : Nat) (breaks : Bool) (chunks : List Bytes) : Read :=
  let head := take prefixLength chunks
  if head.1.length < prefixLength then if breaks then .failed .reset else .ended else
  let length := BigEndian.decode head.1
  if max < length then .failed (.oversized length max) else
  let body := take length head.2
  if body.1.length < length then .failed (if breaks then .reset else .cutShort)
  else .frame body.1 body.2

theorem remaining_of_read {max : Nat} {breaks : Bool} {chunks rest : List Bytes} {bytes : Bytes}
    (h : read max breaks chunks = .frame bytes rest) : remaining rest < remaining chunks := by
  unfold read at h
  simp only at h
  repeat' split at h
  all_goals try contradiction
  next h₁ _ _ =>
    injection h with _ hrest
    rw [(take_eq _ _).1] at h₁
    simp only [← hrest, remaining, (take_eq _ _).2, List.length_drop, prefixLength,
      List.length_take] at h₁ ⊢
    omega

/-- All the frames of a stream, and the error that ended the reading, if one did. -/
def readAll (max : Nat) (breaks : Bool) (chunks : List Bytes) : List Bytes × Option ReadError :=
  match _h : read max breaks chunks with
  | .frame bytes rest =>
    let more := readAll max breaks rest
    (bytes :: more.1, more.2)
  | .ended => ([], none)
  | .failed error => ([], some error)
termination_by remaining chunks
decreasing_by exact remaining_of_read _h

/-! ### Writing -/

/-- Why writing fails. -/
inductive WriteError where
  /-- The frame is longer than allowed. -/
  | oversized (length max : Nat)
  /-- The length does not fit in front of the frame. -/
  | outOfRange (error : OutOfRange)
  /-- The stream takes no more. -/
  | full
  deriving DecidableEq

/-- A stream that is written to. -/
structure Sink where
  /-- What arrived in it. -/
  written : Bytes := []
  /-- How many bytes it still takes, if there is a bound. -/
  room : Option Nat := none

/-- Write some bytes, as many as there is room for, and say whether that was all. -/
def Sink.put (s : Sink) (bs : Bytes) : Bool × Sink :=
  match s.room with
  | none => (true, { s with written := s.written ++ bs })
  | some n => (bs.length ≤ n, ⟨s.written ++ bs.take n, some (n - bs.length)⟩)

/-- Write a frame of at most `max` bytes, and say how many bytes that took. -/
def write (max : Nat) (s : Sink) (frame : Bytes) : Except WriteError Nat × Sink :=
  if max < frame.length then (.error (.oversized frame.length max), s) else
  match Narrow.toUInt32 frame.length with
  | .error e => (.error (.outOfRange e), s)
  | .ok length =>
    match s.put (BigEndian.encode prefixLength length.toNat) with
    | (false, s) => (.error .full, s)
    | (true, s) =>
      match s.put frame with
      | (false, s) => (.error .full, s)
      | (true, s) => (.ok (frame.length + prefixLength), s)

/-- Write frames one after the other, going on after a failure. -/
def writeAll (max : Nat) (s : Sink) : List Bytes → List (Except WriteError Nat) × Sink
  | [] => ([], s)
  | frame :: frames =>
    let one := write max s frame
    let more := writeAll max one.2 frames
    (one.1 :: more.1, more.2)

/-- The frame as it stands in a stream. -/
def encode (frame : Bytes) : Bytes := BigEndian.encode prefixLength frame.length ++ frame

/-- The error in words, for a frame that is too long. -/
def ReadError.oversizedMessage (length max : Nat) : String :=
  s!"received a frame of {length} bytes which exceeds the configured maximum ({max}) - closing the connection because it is apparently compromised"

/-- The error in words, for a frame that is too long. -/
def WriteError.oversizedMessage (length max : Nat) : String :=
  s!"frame of {length} bytes exceeds the configured maximum ({max})"

end Tether.Framing
