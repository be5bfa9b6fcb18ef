import Tether.Checksum
import Tether.Message.Basic

/-!
# Messages as frames

A frame is a header of thirty-seven bytes and the payload. The header holds the
session id, the kind, the sequence number, the acknowledgement and the checksum
of all that comes before it and of the payload:

    0         16     17         25              33         37
    session   kind   sequence   acknowledged    checksum   payload

Reading a frame checks its length, then the checksum, then what the fields mean;
the first check that fails names the error.
-/

namespace Tether

/-- Why a frame is no message. -/
inductive DecodeError where
  /-- It is shorter than a header. -/
  | truncated (actual : Nat)
  /-- The checksum in it is not the one of its bytes. -/
  | checksum (stored computed : UInt32)
  /-- No kind has this number. -/
  | unknownKind (code : UInt8)
  /-- Only a `send` may carry a payload. -/
  | unexpectedPayload (kind : Kind)
  /-- The number is neither a sequence number nor, in an acknowledgement, none. -/
  | invalidSequence (seq : Int)
  deriving DecidableEq

namespace Message

/-- How many bytes of the header the checksum covers. -/
def checkedLength : Nat := SessionId.width + 1 + 8 + 8

/-- How many bytes a header has. -/
def headerLength : Nat := checkedLength + 4

/-! ### Writing -/

/-- The part of the header that the checksum covers. -/
def checkedHeader (m : Message) : Bytes :=
  m.session.toBytes ++ [m.kind.code] ++ BigEndian.encodeInt 8 m.seq ++ BigEndian.encodeInt 8 m.acked

/-- Append the frame of a message to a buffer. The checksum covers what was
appended, not what the buffer held before. -/
def writeTo (buffer : Bytes) (m : Message) : Bytes :=
  let start := buffer.length
  let buffer := buffer ++ m.checkedHeader
  let sum := Checksum.checksum (buffer.drop start) m.payload
  buffer ++ BigEndian.encode 4 sum.toNat ++ m.payload

/-- The frame of a message. Nothing is checked. -/
def encode (m : Message) : Bytes := m.writeTo []

@[simp] theorem length_checkedHeader (m : Message) : m.checkedHeader.length = 33 := by
  simp [checkedHeader]

/-! ### Reading -/

/-- The field of `width` bytes that begins at `start`. -/
def field (frame : Bytes) (start width : Nat) : Bytes := (frame.drop start).take width

/-- The message that a frame holds. -/
def decode (frame : Bytes) : Except DecodeError Message :=
  if frame.length < headerLength then .error (.truncated frame.length) else
  let payload := frame.drop headerLength
  let stored := UInt32.ofNat (BigEndian.decode (field frame checkedLength 4))
  let computed := Checksum.checksum (frame.take checkedLength) payload
  if computed ≠ stored then .error (.checksum stored computed) else
  let code := UInt8.ofNat (BigEndian.decode (field frame SessionId.width 1))
  match Kind.ofCode? code with
  | none => .error (.unknownKind code)
  | some kind =>
    let seq := BigEndian.decodeInt (field frame 17 8)
    let acked := BigEndian.decodeInt (field frame 25 8)
    if kind = .send ∧ seq < 0 then .error (.invalidSequence seq)
    else if kind ≠ .send ∧ payload ≠ [] then .error (.unexpectedPayload kind)
    else if acked < noSequence then .error (.invalidSequence acked)
    else .ok ⟨.ofBytes (field frame 0 SessionId.width), kind, seq, acked, payload⟩

end Message

namespace DecodeError

/-- The eight digits of a checksum. -/
def checksumText (sum : UInt32) : String := Hex.encode (BigEndian.encode 4 sum.toNat)

/-- The error in words. -/
def message : DecodeError → String
  | truncated actual =>
    s!"truncated header: frame has {actual} bytes, the header requires {Message.headerLength}"
  | checksum stored computed =>
    s!"header checksum mismatch: expected {checksumText stored}, was {checksumText computed}"
  | unknownKind code => s!"unknown message flag {code.toNat}"
  | unexpectedPayload kind => s!"{kind.name} message must not carry a payload"
  | invalidSequence seq => s!"invalid sequence number {seq}"

end DecodeError

end Tether
