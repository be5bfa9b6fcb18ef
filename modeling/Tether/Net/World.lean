import Tether.Net.Client
import Tether.Net.Server
import Tether.Net.Wire

/-!
# Hosts on a network

A server, a client, and the connections between them and to others. What can happen
is an *event*. Some happen by themselves: a host handles what came over a connection,
the client dials, a session that is over is removed, sends that were woken try again,
time passes. Some come from outside: others connect and write what they please, and
the layers above use the sessions. A run is any sequence of events, so a host may take
as long as it likes over anything. The order within one direction of a connection is
all that the network keeps.

The network may have no route at all. Then nobody ever reaches anybody.
-/

namespace Tether.Net

/-- What the layer above a session was told. -/
structure Log where
  messages : List Bytes := []
  notices : List Notice := []

/-- Hosts, connections and the time. -/
structure World where
  now : Nat := 0
  /-- Whether a host can reach another. -/
  reachable : Bool
  server : Option Server := none
  client : Option Client := none
  wires : Array Wire := #[]
  /-- What the layer above each of the server's sessions was told. -/
  serverLogs : Array Log := #[]
  clientLog : Log := {}
  /-- The sends that are done. -/
  sent : List (Owner × Nat × Except Refusal Int) := []

namespace World

/-! ### Sessions -/

/-- The session of an owner. -/
def session? (w : World) : Owner → Option Session
  | .client => w.client.map (·.session)
  | .server i => w.server.bind (·.hosted[i]?)

/-- Change the session of an owner. -/
def setSession (w : World) (s : Session) : Owner → World
  | .client => { w with client := w.client.map fun c => { c with session := s } }
  | .server i =>
    { w with server := w.server.map fun v => { v with hosted := v.hosted.setIfInBounds i s } }

/-- What the layer above an owner's session was told. -/
def log? (w : World) : Owner → Option Log
  | .client => w.client.map fun _ => w.clientLog
  | .server i => w.serverLogs[i]?

/-- Tell the layer above an owner's session something. -/
def tell (w : World) (f : Log → Log) : Owner → World
  | .client => { w with clientLog := f w.clientLog }
  | .server i => { w with serverLogs := w.serverLogs.modify i f }

/-- The moment for an operation of an owner's session. -/
def moment (w : World) (o : Owner) : Moment := ⟨w.now, fun conn _ => w.wires.any (·.takes o conn)⟩

/-- What an effect of an owner's session does. -/
def apply (o : Owner) (w : World) (e : Effect) : World :=
  let w := { w with wires := w.wires.map (Wire.apply o e) }
  match e with
  | .deliver payload => w.tell (fun l => { l with messages := l.messages ++ [payload] }) o
  | .notify n => w.tell (fun l => { l with notices := l.notices ++ [n] }) o
  | .sent ticket r => { w with sent := w.sent ++ [(o, ticket, r)] }
  | _ => w

/-- An owner's session becomes another with some effects. -/
def become (w : World) (o : Owner) (r : Session × List Effect) : World :=
  r.2.foldl (apply o) (w.setSession r.1 o)

/-- An owner's session does something. -/
def act (w : World) (o : Owner) (f : Moment → Session → Session × List Effect) : World :=
  match w.session? o with
  | none => w
  | some s => w.become o (f (w.moment o) s)

/-! ### Connections -/

/-- Change a connection. -/
def modifyWire (w : World) (i : Nat) (f : Wire → Wire) : World :=
  { w with wires := w.wires.modify i f }

/-- How far one end of connection `i` is. -/
def stage? (w : World) (i : Nat) (side : Side) : Option Stage :=
  (w.wires[i]?).map fun wire => (wire.socket side).stage

/-- An owner's session runs over one end of connection `i` from now on. If it takes no
connections any more, the end is done with. -/
def bind (w : World) (i : Nat) (side : Side) (o : Owner) : World :=
  match w.session? o with
  | none => w
  | some s =>
    let stage := .bound o s.nextConnection s.handshakes
    let w := w.modifyWire i fun wire => wire.setSocket { wire.socket side with stage } side
    let outcome := s.connect (w.moment o)
    match outcome.answer with
    | .error _ => w.modifyWire i (·.finish side)
    | .ok _ => w.become o (outcome.session, outcome.effects)

/-- A frame comes to one end of connection `i`, over which an owner's session runs. -/
def receive (w : World) (i : Nat) (side : Side) (o : Owner) (conn : ConnectionId) (frame : Bytes) :
    World :=
  match w.session? o with
  | none => w
  | some s =>
    let outcome := s.receive (w.moment o) conn frame
    let w := w.become o (outcome.session, outcome.effects)
    match outcome.answer with
    | .error _ => w.modifyWire i (·.close side false)
    | .ok () => w

/-- The first frame comes to a server: a handshake, or the server is done with the
connection. -/
def greet (w : World) (i : Nat) (frame : Bytes) : World :=
  let giveUp := w.modifyWire i (·.finish .acceptor)
  match w.server, Message.decode frame with
  | some v, .ok message =>
    if message.kind ≠ .handshake then giveUp else
    match v.resolve w.now message.session message.seq with
    | (.unknown, v) =>
      { w with server := some v }.modifyWire i fun wire =>
        (wire.write .acceptor (Framing.encode (Message.handshakeFail message.session).encode)).finish
          .acceptor
    | (.known n, v) =>
      welcome { w with server := some v } n
    | (.created n, v) =>
      welcome { w with server := some v, serverLogs := w.serverLogs.push {} } n
  | _, _ => giveUp
where
  /-- The connection is for session number `n`, which also gets the first frame. -/
  welcome (w : World) (n : Nat) : World :=
    let w := w.bind i .acceptor (.server n)
    match w.stage? i .acceptor with
    | some (.bound o conn _) => w.receive i .acceptor o conn frame
    | _ => w

/-- The session that runs over one end of connection `i` learns that it is lost. The
client thinks about another one. -/
def lose (w : World) (i : Nat) (side : Side) (o : Owner) (conn : ConnectionId) (before : Nat)
    (forced : Bool) : World :=
  let completed := (w.session? o).any fun s => before < s.handshakes
  let w := (w.act o fun m s => s.disconnected m conn forced).modifyWire i (·.finish side)
  match o with
  | .client => { w with client := w.client.map fun c => c.afterwards w.now completed }
  | .server _ => w

/-- The greatest length of a frame for the host at one end. -/
def maxFrame (w : World) : Side → Nat
  | .dialer => (w.client.map (·.session.config.maxFrameLength)).getD 0
  | .acceptor => (w.server.map (·.config.maxFrameLength)).getD 0

/-- A host handles what is next at one end of connection `i`, if anything is. -/
def handle? (w : World) (i : Nat) (side : Side) : Option World := do
  let wire ← w.wires[i]?
  let socket := wire.socket side
  let consume (rest : Pipe) := w.modifyWire i fun wire => wire.setInbound rest side
  match socket.stage with
  | .outside | .done => none
  | .greeting deadline =>
    match (wire.inbound side).next (w.maxFrame side) with
    | .frame bytes rest => some ((consume rest).greet i bytes)
    | .over => some (w.modifyWire i (·.finish side))
    | .partly => if deadline ≤ w.now then some (w.modifyWire i (·.finish side)) else none
  | .bound o conn before =>
    if socket.closed then some (w.lose i side o conn before socket.forced) else
    match (wire.inbound side).next (w.maxFrame side) with
    | .frame bytes rest => some ((consume rest).receive i side o conn bytes)
    | .over => some (w.modifyWire i (·.close side false))
    | .partly => none

/-! ### Dialing -/

/-- A server waits for the first handshake on a new connection; without a server,
someone else will take it. -/
def acceptor (w : World) : Socket :=
  match w.server with
  | some v => { stage := .greeting (Deadline.after w.now v.config.handshakeTimeout) }
  | none => {}

/-- The client dials, if it is time to. -/
def dial? (w : World) : Option World := do
  let c ← w.client
  if ¬ c.Dials w.now then none
  else if c.session.terminated then some { w with client := some { c with dialing := .stopped } }
  else if 0 < c.failures ∨ c.refused ∨ ¬ w.reachable then
    some { w with client := some ({ c with failures := c.failures - 1 }.afterwards w.now false) }
  else
    let i := w.wires.size
    let wires := w.wires.push { dialer := {}, acceptor := w.acceptor }
    some ({ w with wires, client := some { c with dialing := .connected } }.bind i .dialer .client)

/-! ### Others on the network -/

/-- Someone else connects to the server. -/
def visit? (w : World) : Option (Nat × World) :=
  if w.reachable ∧ w.server.isSome then
    some (w.wires.size, { w with wires := w.wires.push { dialer := {}, acceptor := w.acceptor } })
  else none

/-- Someone else writes bytes at one end of connection `i`, if no host has that end. -/
def write? (w : World) (i : Nat) (side : Side) (bytes : Bytes) : Option World :=
  if w.stage? i side = some .outside then some (w.modifyWire i (·.write side bytes)) else none

/-- Someone else writes no more at one end of connection `i`, if no host has that end. -/
def shut? (w : World) (i : Nat) (side : Side) : Option World :=
  if w.stage? i side = some .outside then some (w.modifyWire i (·.shut side)) else none

/-- Someone else reads a frame of at most `max` bytes at one end of connection `i`. -/
def take (w : World) (i : Nat) (side : Side) (max : Nat) : Incoming × World :=
  match w.wires[i]? with
  | none => (.over, w)
  | some wire =>
    match (wire.inbound side).next max with
    | .frame bytes rest =>
      (.frame bytes rest, w.modifyWire i fun wire => wire.setInbound rest side)
    | incoming => (incoming, w)

/-! ### Events -/

/-- What the layer above asks of a session. -/
inductive Request where
  | trySend (payload : Bytes)
  | send (payload : Bytes)
  | close
  | disconnect (forced : Bool)
  | flush

/-- The input of the session that a request is. -/
def Request.input : Request → Session.Input
  | trySend payload => .trySend payload
  | send payload => .send payload
  | close => .close
  | disconnect forced => .disconnect forced
  | flush => .flush

/-- What can happen. -/
inductive Event where
  /-- Someone else connects to the server. -/
  | visit
  /-- Someone else writes bytes at one end of a connection. -/
  | write (wire : Nat) (side : Side) (bytes : Bytes)
  /-- Someone else writes no more at one end of a connection. -/
  | shut (wire : Nat) (side : Side)
  /-- The layer above uses a session. -/
  | use (o : Owner) (request : Request)
  /-- A host handles what is next at one end of a connection. -/
  | handle (wire : Nat) (side : Side)
  /-- The client dials. -/
  | dial
  /-- A session of the server that is over is removed. -/
  | remove (i : Nat)
  /-- The sends of a session that were woken try again. -/
  | resume (o : Owner)
  /-- A millisecond passes. -/
  | tick

/-- A millisecond passes, and what falls due in it happens. -/
def tick (w : World) : World :=
  let owners := Owner.client :: (List.range ((w.server.map (·.hosted.size)).getD 0)).map .server
  let aged := owners.foldl
    (fun w o => w.act o fun m s => s.advance m.takes w.now (w.now + 1)) w
  { aged with now := w.now + 1 }

/-- What an event leads to, if it can happen. -/
def happen? (w : World) : Event → Option World
  | .visit => w.visit?.map (·.2)
  | .write i side bytes => w.write? i side bytes
  | .shut i side => w.shut? i side
  | .use o request => (w.session? o).map fun _ => w.act o fun m s => s.step m request.input
  | .handle i side => w.handle? i side
  | .dial => w.dial?
  | .remove i => do
    let v ← w.server
    if i ∈ v.removals ∧ v.Ended i then some { w with server := some (v.remove i) } else none
  | .resume o => do
    let s ← w.session? o
    if s.waiting.any (·.woken) then some (w.act o fun m s => s.resume m) else none
  | .tick => some w.tick

/-- What a run of events leads to. An event that can not happen is passed over. -/
def run (w : World) (events : List Event) : World :=
  events.foldl (fun w e => (w.happen? e).getD w) w

/-- All that can happen by itself but dialing and the passing of time. -/
def agenda (w : World) : List Event :=
  let wires := (List.range w.wires.size).flatMap fun i =>
    [Event.handle i .acceptor, Event.handle i .dialer]
  let hosted := List.range ((w.server.map (·.hosted.size)).getD 0)
  wires ++ [.resume .client] ++ hosted.flatMap fun i => [.resume (.server i), .remove i]

/-- The first event on the agenda that can happen does. -/
def next? (w : World) : Option World := w.agenda.findSome? w.happen?

/-- At most `n` events happen, until none can. -/
def exhaust : Nat → World → World
  | 0, w => w
  | n + 1, w =>
    match w.next? with
    | none => w
    | some w => exhaust n w

/-- More events than a millisecond has room for. -/
def maxEvents : Nat := 10000

/-- Everything that can happen now does. The client dials once at most: if its delays are
zero and nobody answers, there is no end to its attempts. -/
def settle (w : World) : World :=
  let w := exhaust maxEvents w
  match w.dial? with
  | none => w
  | some w => exhaust maxEvents w

/-- Time passes until a condition holds, for `time` milliseconds at most. -/
def await (condition : World → Bool) : Nat → World → World
  | 0, w => w.settle
  | time + 1, w =>
    let w := w.settle
    if condition w then w else await condition time w.tick

end World

end Tether.Net
