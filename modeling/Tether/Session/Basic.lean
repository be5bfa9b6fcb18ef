import Tether.Deadline
import Tether.Inbox
import Tether.Lifecycle
import Tether.Outbox

/-!
# Sessions

A session joins an outbox, an inbox and a lifecycle, and knows the connections it
runs over: the *active* one, which completed its handshake and carries messages,
and the *pending* one, which did not yet. It does no input or output of its own.
Whoever owns the connections tells it what happens on them, and gets back what is
to be done: the *effects*.

An operation happens at a moment, which says what time it is and which connection
takes which message. Connections are numbered as they come.
-/

namespace Tether

/-- The number of a connection within a session. -/
abbrev ConnectionId := Nat

/-- Which side of the session a host is. -/
inductive Role where
  /-- It opens connections and asks for a handshake. -/
  | client
  /-- It answers. -/
  | server
  deriving DecidableEq, Repr

/-- What a session tells the layer above, besides messages. -/
inductive Notice where
  /-- Another connection replaced the lost one. -/
  | restored
  /-- The session is over. -/
  | lost (reason : Loss)
  deriving DecidableEq, Repr

/-- What an operation does to the world. -/
inductive Effect where
  /-- A message is handed to a connection, which takes it or not. -/
  | transmit (conn : ConnectionId) (message : Message) (taken : Bool)
  /-- A connection is asked to close. -/
  | close (conn : ConnectionId) (forced : Bool)
  /-- A payload is delivered. -/
  | deliver (payload : Bytes)
  /-- The layer above is told something. -/
  | notify (notice : Notice)
  /-- A send that had to wait is done. -/
  | sent (ticket : Nat) (result : Except Refusal Int)

/-- Why a session refuses a connection or a frame. -/
inductive Fault where
  /-- The frame is no message. -/
  | undecodable (error : DecodeError)
  /-- The message belongs to another session. -/
  | wrongSession (expected actual : SessionId)
  /-- The session is over. -/
  | terminated (session : SessionId)
  /-- No connection is to complete its handshake. -/
  | noPending
  /-- The peer does not know the session. -/
  | rejected (session : SessionId)
  /-- A connection begins with a handshake. -/
  | expectedHandshake (conn : ConnectionId) (kind : Kind)
  /-- A connection has only one handshake. -/
  | unexpected (kind : Kind) (conn : ConnectionId)

/-- The fault in words. -/
def Fault.message : Fault → String
  | undecodable error => error.message
  | wrongSession expected actual =>
    s!"session id mismatch: expected {expected.text}, was {actual.text}"
  | terminated session => s!"session {session.text} is terminated"
  | noPending => "no pending connection"
  | rejected session => s!"peer rejected the handshake for session {session.text}"
  | expectedHandshake conn kind =>
    s!"expected handshake on connection {conn}, received {kind.name}"
  | unexpected kind conn => s!"unexpected {kind.name} on established connection {conn}"

/-- When an operation happens, and which connection takes which message then. -/
structure Moment where
  now : Nat
  takes : ConnectionId → Message → Bool

/-- A connection that did not complete its handshake yet. -/
structure Pending where
  conn : ConnectionId
  /-- When it is given up. -/
  deadline : Nat
  deriving DecidableEq

/-- The end of a window in which a lost connection may be replaced. -/
structure WindowEnd where
  /-- The number of the window. -/
  epoch : Nat
  deadline : Nat
  deriving DecidableEq

/-- A send that waits for room. -/
structure Waiting where
  ticket : Nat
  payload : Bytes
  /-- There may be room now. -/
  woken : Bool
  deriving DecidableEq

/-- A session. -/
structure Session where
  role : Role
  id : SessionId
  config : Config
  /-- When the session was created. -/
  created : Nat
  outbox : Outbox
  inbox : Inbox := {}
  lifecycle : Lifecycle
  /-- The connection that carries messages. -/
  active : Option ConnectionId := none
  /-- The connection that is to complete its handshake. -/
  pending : Option Pending := none
  /-- The end of the window that is open. -/
  windowEnd : Option WindowEnd := none
  /-- The number of the next connection. -/
  nextConnection : ConnectionId := 0
  /-- How many handshakes were completed. -/
  handshakes : Nat := 0
  /-- Whether the end of the session was made known. -/
  terminated : Bool := false
  /-- The sends that wait, in the order in which they began. -/
  waiting : List Waiting := []
  /-- The ticket of the next send. -/
  nextTicket : Nat := 0

/-- What an operation answers, leaves behind and does. -/
structure Outcome (α : Type) where
  answer : α
  session : Session
  effects : List Effect := []

namespace Session

/-- A new session. -/
def start (role : Role) (id : SessionId) (config : Config) (now : Nat) : Session where
  role := role
  id := id
  config := config
  created := now
  outbox := .new id config
  lifecycle := { reconnects := config.reconnects }

/-- A new session, if its configuration is acceptable. -/
def create (role : Role) (id : SessionId) (config : Config) (now : Nat) :
    Except ConfigError Session :=
  match config.validate with
  | .error e => .error e
  | .ok () => .ok (start role id config now)

/-- A connection is the active one. -/
def Active (s : Session) (conn : ConnectionId) : Prop := s.active = some conn

instance (s : Session) (conn : ConnectionId) : Decidable (s.Active conn) :=
  inferInstanceAs (Decidable (_ = _))

/-- Hand a message to a connection. -/
def transmit (m : Moment) (conn : ConnectionId) (message : Message) : Effect :=
  .transmit conn message (m.takes conn message)

/-- Send an acknowledgement on the active connection. -/
def sendAck (m : Moment) (s : Session) (n : Int) : List Effect :=
  s.active.toList.map fun c => transmit m c (.ack s.id n)

/-- The sends that wait shall try again. -/
def wake (s : Session) : Session :=
  { s with waiting := s.waiting.map fun w => { w with woken := true } }

/-- The peer has received what it acknowledges. If that makes room, those who wait
for it are woken. -/
def acknowledge (s : Session) (n : Int) : Session :=
  let r := s.outbox.acknowledge n
  let s := { s with outbox := r.2 }
  if 0 < r.1 then s.wake else s

/-- Let go of all connections, after the lifecycle came to its end. -/
def shutDown (s : Session) : Session × List Effect :=
  let closings := (s.pending.toList.map fun p => Effect.close p.conn false) ++
    s.active.toList.map fun c => Effect.close c false
  (wake { s with
      windowEnd := none, pending := none, active := none, outbox := s.outbox.disconnect,
      terminated := true },
    closings)

end Session

end Tether
