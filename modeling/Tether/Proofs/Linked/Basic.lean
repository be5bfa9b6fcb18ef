import Tether.Proofs.Peers.ExactlyOnce

/-!
# Two sides joined by connections

A connection joins a connection number of the client with one of the server. Each of
its two lanes carries messages in order and each at most once, and loses only what
comes last: once a message is lost, or not taken, nothing that is handed to the lane
later arrives.

The two sides do the same as in `Peers`; what differs is which messages can come, and
where.
-/

namespace Tether

/-! ### Lanes -/

/-- One direction of a connection. -/
structure Lane where
  /-- What is on the way, oldest first. -/
  queue : List Message := []
  /-- Something was lost. -/
  broken : Bool := false

namespace Lane

/-- A message is handed to the lane. -/
def push (l : Lane) (x : Message) (taken : Bool) : Lane :=
  if l.broken then l
  else if taken then { l with queue := l.queue ++ [x] }
  else { l with broken := true }

/-- Messages are handed to the lane one after the other. -/
def pushAll (l : Lane) : List Transmission → Lane
  | [] => l
  | τ :: rest => (l.push τ.message τ.taken).pushAll rest

/-- The oldest message is off the lane. -/
def pop (l : Lane) : Lane := { l with queue := l.queue.tail }

/-- All but the oldest `keep` messages are lost. -/
def lose (l : Lane) (keep : Nat) : Lane :=
  if keep < l.queue.length then ⟨l.queue.take keep, true⟩ else l

/-- Nothing was lost, and nothing is on the way. -/
def Clear (l : Lane) : Prop := l.broken = false ∧ l.queue = []

end Lane

/-! ### Connections -/

/-- A connection. -/
structure Link where
  /-- The number that a side has for it, once it has one. -/
  conn : Role → Option ConnectionId := fun _ => none
  /-- What is on the way to a side. -/
  lane : Role → Lane := fun _ => {}

namespace Link

variable (l : Link) (side : Role)

/-- A side has a number for the connection. -/
def attach (c : ConnectionId) : Link := { l with conn := Function.update l.conn side (some c) }

/-- The oldest message on the way to a side is off. -/
def pop : Link := { l with lane := Function.update l.lane side (l.lane side).pop }

/-- All but the oldest messages on the way to a side are lost. -/
def lose (keep : Nat) : Link :=
  { l with lane := Function.update l.lane side ((l.lane side).lose keep) }

/-- The messages that a side hands to the connection among others. -/
def share (t : List Transmission) : List Transmission := t.filter fun τ => l.conn side = some τ.conn

/-- A side hands messages to connections. -/
def carry (t : List Transmission) : Link :=
  { l with lane := Function.update l.lane side.other ((l.lane side.other).pushAll (l.share side t)) }

end Link

/-! ### The whole -/

/-- Two sides and their connections, of which there may be any number. -/
structure Linked where
  peers : Peers
  links : Nat → Link

namespace Linked

/-- The session of a side. -/
def session (f : Linked) (side : Role) : Session := (f.peers side).session

/-- What can happen. -/
inductive Event where
  /-- A side acts, or time passes for it. -/
  | act (side : Role) (m : Moment) (input : Session.Input) (own : input.Own)
  /-- A side gets a number for a connection. -/
  | connect (side : Role) (m : Moment) (i : Nat)
  /-- The oldest message on the way to a side arrives. -/
  | deliver (side : Role) (m : Moment) (i : Nat)
  /-- All but the oldest messages on the way to a side are lost. -/
  | lose (side : Role) (i keep : Nat)

/-- A side goes on, and what it hands to connections is on the way. -/
def settle (f : Linked) (side : Role) (p : Peer) (t : List Transmission) : Linked where
  peers := Function.update f.peers side p
  links i := (f.links i).carry side t

/-- Something happens to one connection. -/
def relink (f : Linked) (i : Nat) (l : Link) : Linked :=
  { f with links := Function.update f.links i l }

/-- What an event leaves behind. A side gets one number for a connection, unless its
session is over, and only a message whose numbers fit has a frame. -/
def step (f : Linked) : Event → Linked
  | .act side m input _ =>
    f.settle side ((f.peers side).act m input) (Effect.transmitted ((f.session side).step m input).2)
  | .connect side m i =>
    if (f.links i).conn side = none then
      match (f.session side).connect m with
      | ⟨.error _, _, _⟩ => f
      | ⟨.ok c, _, effects⟩ =>
        (f.relink i ((f.links i).attach side c)).settle side ((f.peers side).act m .connect)
          (Effect.transmitted effects)
    else f
  | .deliver side m i =>
    match (f.links i).conn side, ((f.links i).lane side).queue with
    | some c, x :: _ =>
      if x.Representable then
        (f.relink i ((f.links i).pop side)).settle side ((f.peers side).hear m c x)
          (Effect.transmitted ((f.session side).receive m c x.encode).effects)
      else f
    | _, _ => f
  | .lose side i keep => f.relink i ((f.links i).lose side keep)

/-- What events leave behind. -/
def run (f : Linked) (events : List Event) : Linked := events.foldl step f

/-- Two sides before anything happened, and no connections yet. -/
def begin (client server : Session) : Linked where
  peers := Peers.begin client server
  links _ := {}

/-- Two sides of one session that some events lead to. -/
def Reachable (f : Linked) : Prop :=
  ∃ id config config' now now' client server events,
    Session.create .client id config now = .ok client ∧
      Session.create .server id config' now' = .ok server ∧ f = (begin client server).run events

/-- Both sides have the connection active. -/
def Joined (f : Linked) (i : Nat) : Prop :=
  ∀ side, ∃ c, (f.links i).conn side = some c ∧ (f.session side).active = some c

/-- Both sides have the connection active, nothing was lost on it, and nothing is on
the way. -/
structure Settled (f : Linked) (i : Nat) : Prop where
  joined : f.Joined i
  clear : ∀ side, ((f.links i).lane side).Clear

end Linked

end Tether
