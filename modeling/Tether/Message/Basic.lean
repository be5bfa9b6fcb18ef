import Tether.Sequence
import Tether.SessionId

/-!
# Messages

What two hosts of a session tell each other. A message of kind `send` carries a
payload under a sequence number; the other kinds keep the session going. Every
message carries an acknowledgement: the highest sequence number its sender has
received, or `-1` before the first.
-/

namespace Tether

/-- What a message is for. -/
inductive Kind where
  /-- It carries a payload. -/
  | send
  /-- It only acknowledges. -/
  | ack
  /-- Its sender is done with the session. -/
  | goodbye
  /-- A client asks to use a new connection for the session. -/
  | handshake
  /-- The server agrees. -/
  | handshakeOk
  /-- The server knows of no such session. -/
  | handshakeFail
  deriving DecidableEq, Repr

namespace Kind

/-- The number of a kind on the wire. -/
def code : Kind → UInt8
  | send => 0
  | ack => 1
  | goodbye => 2
  | handshake => 3
  | handshakeOk => 4
  | handshakeFail => 5

/-- The kind with a number. -/
def ofCode? (n : UInt8) : Option Kind :=
  if n = 0 then some send
  else if n = 1 then some ack
  else if n = 2 then some goodbye
  else if n = 3 then some handshake
  else if n = 4 then some handshakeOk
  else if n = 5 then some handshakeFail
  else none

/-- The name of a kind. -/
def name : Kind → String
  | send => "Send"
  | ack => "Ack"
  | goodbye => "Goodbye"
  | handshake => "Handshake"
  | handshakeOk => "HandshakeOk"
  | handshakeFail => "HandshakeFail"

/-- The kinds, in the order of their numbers. -/
def all : List Kind := [send, ack, goodbye, handshake, handshakeOk, handshakeFail]

@[simp] theorem ofCode?_code (k : Kind) : ofCode? k.code = some k := by
  cases k <;> rfl

theorem code_of_ofCode? {n : UInt8} {k : Kind} (h : ofCode? n = some k) : k.code = n := by
  unfold ofCode? at h
  repeat' split at h
  all_goals first | (cases h; subst_vars; rfl) | cases h

end Kind

/-- Why a payload can not be sent under a number. -/
inductive NumberError where
  /-- The number is negative. -/
  | negative
  deriving DecidableEq

/-- The error in words. -/
def NumberError.message : NumberError → String
  | negative => "assertion failed: sequence >= 0"

/-- A message. -/
structure Message where
  /-- The session it belongs to. -/
  session : SessionId
  /-- What it is for. -/
  kind : Kind
  /-- Its sequence number. A handshake has here how many handshakes the client
  completed before. -/
  seq : Int
  /-- The highest sequence number its sender has received. -/
  acked : Int
  /-- What it carries, empty unless it is a `send`. -/
  payload : Bytes
  deriving DecidableEq

namespace Message

/-- A message that carries nothing and has no sequence number. -/
def control (session : SessionId) (kind : Kind) (acked : Int) : Message :=
  ⟨session, kind, noSequence, acked, []⟩

/-- The message that carries a payload. -/
def send (session : SessionId) (seq acked : Int) (payload : Bytes) : Message :=
  ⟨session, .send, seq, acked, payload⟩

/-- The message that carries a payload under a number that was not checked before. -/
def sendChecked (session : SessionId) (seq acked : Int) (payload : Bytes) :
    Except NumberError Message :=
  if 0 ≤ seq then .ok (send session seq acked payload) else .error .negative

/-- The message that only acknowledges. -/
def ack (session : SessionId) (acked : Int) : Message := control session .ack acked

/-- The message that ends the session. -/
def goodbye (session : SessionId) : Message := control session .goodbye noSequence

/-- The message that opens a connection. The count of earlier handshakes tells a
server that does not know the session whether it ever existed. -/
def handshake (session : SessionId) (previous acked : Int) : Message :=
  { control session .handshake acked with seq := previous }

/-- The message that accepts a connection. -/
def handshakeOk (session : SessionId) (acked : Int) : Message := control session .handshakeOk acked

/-- The message that refuses a connection. -/
def handshakeFail (session : SessionId) : Message := control session .handshakeFail noSequence

/-- The numbers fit on the wire. -/
structure Representable (m : Message) : Prop where
  seq : InRange m.seq
  acked : InRange m.acked

/-- **The message means something**: it acknowledges a sequence number or none,
and either carries a payload under a sequence number, or carries nothing. -/
structure WellFormed (m : Message) : Prop where
  acked : noSequence ≤ m.acked
  body : (m.kind = .send ∧ 0 ≤ m.seq) ∨ (m.kind ≠ .send ∧ m.payload = [])

end Message

end Tether
