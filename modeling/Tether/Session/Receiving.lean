import Tether.Session.Basic

/-!
# Connections and what comes over them

A new connection is pending until its handshake is complete. Then it is the active
one: what the peer acknowledged is retired, and the rest is replayed on it.

A frame on a connection that is neither pending nor active is ignored, unless it is
no message of the session: then it is a fault, on whatever connection it comes.
-/

namespace Tether.Session

/-! ### Handshakes -/

/-- There is a new connection. A pending one is closed in its favour. The client
asks for the handshake at once. -/
def connect (m : Moment) (s : Session) : Outcome (Except Fault ConnectionId) :=
  if s.lifecycle.Over then ⟨.error (.terminated s.id), s, []⟩ else
  let conn := s.nextConnection
  let closings := s.pending.toList.map fun p => Effect.close p.conn false
  let deadline := Deadline.after m.now s.config.handshakeTimeout
  let s' := { s with nextConnection := conn + 1, pending := some ⟨conn, deadline⟩ }
  match s.role with
  | .client =>
    ⟨.ok conn, { s' with inbox := s.inbox.flush },
      closings ++ [transmit m conn (.handshake s.id s.handshakes s.inbox.received)]⟩
  | .server => ⟨.ok conn, s', closings⟩

/-- Transmit messages one after the other, up to the first that is not taken. -/
def transmitAll (m : Moment) (conn : ConnectionId) : List Message → List Effect
  | [] => []
  | message :: rest =>
    transmit m conn message :: if m.takes conn message then transmitAll m conn rest else []

/-- The pending connection completes its handshake, in which the peer acknowledged
`peerAck`. -/
def completeHandshake (m : Moment) (s : Session) (peerAck : Int) : Outcome (Except Fault Unit) :=
  match s.pending with
  | none => ⟨.error .noPending, s, []⟩
  | some ⟨conn, _⟩ =>
    let s := { s with pending := none }
    match s.lifecycle.connect with
    | (.rejected, _) =>
      ⟨.error (.terminated s.id), s,
        if s.role = .server then [transmit m conn (.handshakeFail s.id)] else []⟩
    | (outcome, lifecycle) =>
      let closings := s.active.toList.map fun c => Effect.close c false
      let s := { s with lifecycle, windowEnd := none }.acknowledge peerAck
      let received := s.inbox.received
      let greeting :=
        if s.role = .server then [transmit m conn (.handshakeOk s.id received)] else []
      let replay := transmitAll m conn (s.outbox.replay received)
      let s := { s with
        outbox := s.outbox.reconnect, inbox := s.inbox.flush, active := some conn,
        handshakes := s.handshakes + 1 }
      ⟨.ok (), s.wake,
        closings ++ greeting ++ replay ++ if outcome = .restored then [.notify .restored] else []⟩

/-! ### Frames -/

/-- A message of the session comes on the active connection. -/
def receiveActive (m : Moment) (s : Session) (conn : ConnectionId) (message : Message) :
    Outcome (Except Fault Unit) :=
  match message.kind with
  | .send =>
    let s := s.acknowledge message.acked
    let r := s.inbox.receive s.config.maxDelayedAcks message.seq
    let s' := { s with inbox := r.2 }
    match r.1 with
    | .deliver ack =>
      ⟨.ok (), s', (ack.toList.flatMap fun n => s.sendAck m n) ++ [.deliver message.payload]⟩
    | .duplicate n | .gap n => ⟨.ok (), s', s.sendAck m n⟩
  | .ack => ⟨.ok (), s.acknowledge message.acked, []⟩
  | .goodbye =>
    match s.lifecycle.goodbye with
    | (false, _) => ⟨.ok (), s, []⟩
    | (true, lifecycle) =>
      let r := { s with lifecycle }.shutDown
      ⟨.ok (), r.1, r.2 ++ [.notify (.lost .goodbye)]⟩
  | .handshake | .handshakeOk | .handshakeFail => ⟨.error (.unexpected message.kind conn), s, []⟩

/-- A message of the session comes on the pending connection. -/
def receivePending (m : Moment) (s : Session) (conn : ConnectionId) (message : Message) :
    Outcome (Except Fault Unit) :=
  match s.role, message.kind with
  | .server, .handshake | .client, .handshakeOk => s.completeHandshake m message.acked
  | .client, .handshakeFail => ⟨.error (.rejected s.id), s, []⟩
  | _, kind => ⟨.error (.expectedHandshake conn kind), s, []⟩

/-- A message comes on a connection. A handshake for another session is refused
before it is a fault. -/
def receiveMessage (m : Moment) (s : Session) (conn : ConnectionId) (message : Message) :
    Outcome (Except Fault Unit) :=
  let isPending := s.pending.any (·.conn = conn)
  if message.session ≠ s.id then
    ⟨.error (.wrongSession s.id message.session), s,
      if message.kind = .handshake ∧ isPending then
        [transmit m conn (.handshakeFail message.session)] else []⟩
  else if isPending then s.receivePending m conn message
  else if s.Active conn then s.receiveActive m conn message
  else ⟨.ok (), s, []⟩

/-- A frame comes on a connection. After a fault the connection is to be closed. -/
def receive (m : Moment) (s : Session) (conn : ConnectionId) (frame : Bytes) :
    Outcome (Except Fault Unit) :=
  match Message.decode frame with
  | .error e => ⟨.error (.undecodable e), s, []⟩
  | .ok message => s.receiveMessage m conn message

/-! ### Losses -/

/-- Do what the loss of a connection means for the session. -/
def afterLoss (m : Moment) (s : Session) : Disconnection → Session × List Effect
  | .windowOpened epoch =>
    let deadline := Deadline.after m.now s.config.restoreTimeout
    ({ s with windowEnd := some ⟨epoch, deadline⟩ }, [])
  | .lost reason =>
    let r := s.shutDown
    (r.1, r.2 ++ [.notify (.lost reason)])
  | .ignored => (s, [])

/-- A connection was lost. Losing the pending one means nothing, unless it was
intended. -/
def disconnected (m : Moment) (s : Session) (conn : ConnectionId) (forced : Bool) :
    Session × List Effect :=
  if s.pending.any (·.conn = conn) then
    let s := { s with pending := none }
    if forced then
      let r := s.lifecycle.disconnect true
      { s with lifecycle := r.2 }.afterLoss m r.1
    else (s, [])
  else if s.Active conn then
    let r := s.lifecycle.disconnect forced
    { s with active := none, outbox := s.outbox.disconnect, lifecycle := r.2 }.afterLoss m r.1
  else (s, [])

end Tether.Session
