import Tether.Net.World

/-!
# Scenarios on a network

A script drives the hosts of a network and plays the others on it: it connects to the
server, or takes the connections of the client, and reads and writes on them. Before
each command everything has happened that can happen, and a command that waits for
something gives up after five seconds.
-/

namespace Tether.Net

/-- Why there can be no scenario. -/
inductive SetupError where
  | config (error : ConfigError)
  | backoff (error : BackoffError)

/-- What a client is set up with. -/
structure ClientSetup where
  config : Config
  /-- The first and the longest delay, unless they are the usual ones. -/
  delays : Option (Duration × Duration) := none
  /-- How many attempts are to fail. -/
  failures : Nat := 0
  /-- Every attempt is to fail. -/
  refused : Bool := false

/-- A connection that the script has, by the end that it holds. -/
structure Grip where
  wire : Nat
  side : Side
  deriving DecidableEq

/-- A network in the hands of a script. -/
structure Scenario where
  world : World
  /-- The connections that the script has, by the numbers it gave them. -/
  grips : List (Nat × Grip) := []
  /-- How many connections of the client were taken. -/
  accepted : Nat := 0

/-- Whose session is meant. -/
inductive Subject where
  /-- The client's. -/
  | client
  /-- The server's with an id. -/
  | hosted (id : SessionId)

/-- What a session is to look like. What is not given does not matter. -/
structure Look where
  phase : Option Phase := none
  terminated : Option Bool := none
  handshakes : Option Nat := none
  received : Option Int := none
  acked : Option Int := none
  unacked : Option (List Int) := none

/-- What to wait for. -/
inductive Goal where
  /-- The session looks like something. -/
  | looks (look : Look)
  /-- The session is not there. -/
  | gone

/-- What a script can do. -/
inductive Command where
  /-- Connect to the server. -/
  | visit (conn : Nat)
  /-- Take the next connection of the client. -/
  | accept (conn : Nat)
  /-- Write a message in a frame. -/
  | message (conn : Nat) (m : Message)
  /-- Write bytes. -/
  | bytes (conn : Nat) (bs : Bytes)
  /-- Write no more. -/
  | shut (conn : Nat)
  /-- Let go of a connection. -/
  | drop (conn : Nat)
  /-- Read so many frames, or to the end. -/
  | read (conn : Nat) (count : Option Nat)
  /-- Look at a session. -/
  | look (who : Subject)
  /-- Wait for a session. -/
  | await (who : Subject) (goal : Goal)
  /-- Tell the ids of the server's sessions. -/
  | ids
  /-- Count the listeners that the server asked for. -/
  | created
  | trySend (who : Subject) (payload : Bytes)
  | send (who : Subject) (payload : Bytes)
  | close (who : Subject)
  | disconnect (who : Subject) (forced : Bool)
  /-- Wait until so many messages were delivered. -/
  | messages (who : Subject) (count : Nat)
  /-- Wait until the layer above was told something. -/
  | notice (who : Subject)
  /-- Tell what the layer above was told. -/
  | notices (who : Subject)

/-- What is read from a connection. -/
inductive Item where
  | message (m : Except DecodeError Message)
  /-- There is no more. -/
  | ended
  /-- Nothing comes. -/
  | timeout

/-- What a command answers. -/
inductive Answer where
  | nothing
  /-- Nothing comes. -/
  | timeout
  /-- The script has no such connection. -/
  | noConnection
  /-- The server has no such session. -/
  | noSession
  | count (n : Nat)
  | flag (b : Bool)
  | items (l : List Item)
  | session (s : Option Session)
  | ids (l : List SessionId)
  | sequence (r : Except Refusal Int)
  | messages (l : Option (List Bytes))
  | notice (n : Option Notice)
  | notices (l : Option (List Notice))

/-- A session looks like something. -/
def Look.Matches (l : Look) (s : Session) : Prop :=
  (∀ p ∈ l.phase, s.lifecycle.phase = p) ∧ (∀ b ∈ l.terminated, s.terminated = b) ∧
    (∀ n ∈ l.handshakes, s.handshakes = n) ∧ (∀ n ∈ l.received, s.inbox.received = n) ∧
    (∀ n ∈ l.acked, s.inbox.acked = n) ∧ (∀ u ∈ l.unacked, s.outbox.sequences = u)

instance (l : Look) (s : Session) : Decidable (l.Matches s) :=
  inferInstanceAs (Decidable (_ ∧ _ ∧ _ ∧ _ ∧ _ ∧ _))

namespace Scenario

/-- How long a command waits. -/
def patience : Nat := 5000

/-- The greatest length of a frame for the script. -/
def maxFrame : Nat := UInt32.size - 1

/-- A client that is set up with an id. -/
def createClient (id : SessionId) (setup : ClientSetup) : Except SetupError Client :=
  let backoff := match setup.delays with
    | none => Client.defaultBackoff
    | some (first, longest) => Backoff.new first longest Backoff.double
  match backoff with
  | .error e => .error (.backoff e)
  | .ok backoff =>
    match Client.create id setup.config backoff with
    | .error e => .error (.config e)
    | .ok c => .ok { c with failures := setup.failures, refused := setup.refused }

/-- A server, a client whose session has an id, or both. -/
def create (reachable : Bool) (server : Option Config) (id : SessionId)
    (client : Option ClientSetup) : Except SetupError Scenario := do
  let server ← server.mapM fun config => (Server.create config).mapError SetupError.config
  let client ← client.mapM (createClient id)
  return { world := { reachable, server, client } }

/-! ### Looking -/

/-- Whose session it is, if it is there. -/
def owner? (w : World) : Subject → Option Owner
  | .client => w.client.map fun _ => .client
  | .hosted id => (w.server.bind (·.find? id)).map .server

/-- Whose session it is, if it ever was there. -/
def newest? (w : World) : Subject → Option Owner
  | .client => w.client.map fun _ => .client
  | .hosted id => (w.server.bind (·.newest? id)).map .server

/-- The session, if it is there. -/
def session? (w : World) (who : Subject) : Option Session := (owner? w who).bind w.session?

/-- What the layer above the newest session was told. -/
def log? (w : World) (who : Subject) : Option Log := (newest? w who).bind w.log?

/-- A goal is reached. -/
def reached (w : World) (who : Subject) : Goal → Bool
  | .looks look => (session? w who).any fun s => decide (look.Matches s)
  | .gone => (session? w who).isNone

/-! ### Commands -/

/-- The connection that the script gave a number. -/
def grip? (sc : Scenario) (conn : Nat) : Option Grip := sc.grips.lookup conn

/-- The script gives a connection a number. -/
def hold (sc : Scenario) (conn : Nat) (g : Grip) : Scenario :=
  { sc with grips := (conn, g) :: sc.grips.filter (·.1 ≠ conn) }

/-- Wait until something holds, or patience ends. -/
def wait (sc : Scenario) (condition : World → Bool) : Scenario :=
  { sc with world := sc.world.await condition patience }

/-- Read at most `n` frames, waiting for each. -/
def readUpTo (g : Grip) : Nat → Scenario → List Item × Scenario
  | 0, sc => ([], sc)
  | n + 1, sc =>
    let arrived (w : World) : Bool :=
      match (w.take g.wire g.side maxFrame).1 with
      | .partly => false
      | _ => true
    let sc := sc.wait arrived
    match sc.world.take g.wire g.side maxFrame with
    | (.frame bytes _, world) =>
      let rest := readUpTo g n { sc with world }
      (.message (Message.decode bytes) :: rest.1, rest.2)
    | (.over, _) => ([.ended], sc)
    | (.partly, _) => ([.timeout], sc)

/-- More frames than anybody sends. -/
def manyFrames : Nat := 1000000

/-- Send as soon as there is room, and wait for the result. -/
def send (sc : Scenario) (o : Owner) (payload : Bytes) : Answer × Scenario :=
  match sc.world.session? o with
  | none => (.noSession, sc)
  | some s =>
    let outcome := s.send (sc.world.moment o) payload
    let result? (w : World) : Option (Except Refusal Int) :=
      (w.sent.find? fun r => r.1 = o ∧ r.2.1 = outcome.answer).map (·.2.2)
    let sc := { sc with world := sc.world.become o (outcome.session, outcome.effects) }
    let sc := sc.wait fun w => (result? w).isSome
    match result? sc.world with
    | some r => (.sequence r, sc)
    | none => (.timeout, sc)

/-- Do something with a connection that the script has. -/
def withGrip (sc : Scenario) (conn : Nat) (f : Grip → Answer × Scenario) :
    Option (Answer × Scenario) :=
  some <| match sc.grip? conn with
    | none => (.noConnection, sc)
    | some g => f g

/-- Something happens, if it can. -/
def happen (sc : Scenario) (e : World.Event) : Scenario :=
  { sc with world := sc.world.run [e] }

/-- The layer above uses a session, if it is there. -/
def use (sc : Scenario) (who : Subject) (request : World.Request) : Option (Answer × Scenario) :=
  some <| match owner? sc.world who with
    | none => (.nothing, sc)
    | some o => (.nothing, sc.happen (.use o request))

/-- What a command answers and leaves behind. There is nothing if it needs a server
that can not be reached. -/
def perform (sc : Scenario) : Command → Option (Answer × Scenario)
  | .visit conn =>
    sc.world.visit?.map fun (wire, world) => (.nothing, { sc with world }.hold conn ⟨wire, .dialer⟩)
  | .accept conn =>
    let sc := sc.wait fun w => sc.accepted < w.wires.size
    if sc.accepted < sc.world.wires.size then
      some (.nothing, { sc with accepted := sc.accepted + 1 }.hold conn ⟨sc.accepted, .acceptor⟩)
    else some (.timeout, sc)
  | .message conn m =>
    let frame := Framing.encode m.encode
    sc.withGrip conn fun g => (.count frame.length, sc.happen (.write g.wire g.side frame))
  | .bytes conn bs => sc.withGrip conn fun g => (.flag true, sc.happen (.write g.wire g.side bs))
  | .shut conn =>
    match sc.grip? conn with
    | none => some (.nothing, sc)
    | some g => some (.nothing, sc.happen (.shut g.wire g.side))
  | .drop conn =>
    match sc.grip? conn with
    | none => some (.nothing, sc)
    | some g =>
      let sc := sc.happen (.shut g.wire g.side)
      some (.nothing, { sc with grips := sc.grips.filter (·.1 ≠ conn) })
  | .read conn count =>
    sc.withGrip conn fun g =>
      let r := readUpTo g (count.getD manyFrames) sc
      (.items r.1, r.2)
  | .look who => some (.session (session? sc.world who), sc)
  | .await who goal =>
    let sc := sc.wait fun w => reached w who goal
    some (.flag (reached sc.world who goal), sc)
  | .ids => some (.ids ((sc.world.server.map (·.ids)).getD []), sc)
  | .created => some (.count ((sc.world.server.map (·.listeners.length)).getD 0), sc)
  | .trySend who payload =>
    match (owner? sc.world who).bind fun o => (sc.world.session? o).map fun s => (o, s) with
    | none => some (.noSession, sc)
    | some (o, s) =>
      let outcome := s.trySend (sc.world.moment o) payload
      some (.sequence outcome.answer,
        { sc with world := sc.world.become o (outcome.session, outcome.effects) })
  | .send who payload =>
    match owner? sc.world who with
    | none => some (.noSession, sc)
    | some o => some (sc.send o payload)
  | .close who => sc.use who .close
  | .disconnect who forced => sc.use who (.disconnect forced)
  | .messages who count =>
    let sc := sc.wait fun w => (log? w who).any (count ≤ ·.messages.length)
    some (.messages ((log? sc.world who).map (·.messages)), sc)
  | .notice who =>
    let sc := sc.wait fun w => (log? w who).any (·.notices ≠ [])
    some (.notice ((log? sc.world who).bind (·.notices.head?)), sc)
  | .notices who => some (.notices ((log? sc.world who).map (·.notices)), sc)

/-- What a command answers and leaves behind, once everything that can happen before
it has happened. -/
def step (sc : Scenario) (c : Command) : Option (Answer × Scenario) :=
  { sc with world := sc.world.settle }.perform c

/-- What commands answer, one after the other, unless the server can not be reached. -/
def run (sc : Scenario) : List Command → Option (List Answer)
  | [] => some []
  | c :: cs => do
    let (answer, sc) ← sc.step c
    let answers ← sc.run cs
    return answer :: answers

end Scenario

end Tether.Net
