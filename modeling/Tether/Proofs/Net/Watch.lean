import Tether.Net.World

/-!
# A client that is watched

One client and one server, and nobody else (`Watch.begin`). Whoever watches them notes
which of the server's sessions each connection is for, and each handshake that the
client completes, with the sessions of both sides as they are then. Watching changes
nothing (`Watch.run_world`).
-/

namespace Tether.Net

/-- The client did not process an acknowledgement of more than the server's session
received, nor receive more than that session gave out. -/
def Consistent (client server : Session) : Prop :=
  client.outbox.highestAck ≤ server.inbox.received ∧ client.inbox.received < server.outbox.next

instance (client server : Session) : Decidable (Consistent client server) :=
  inferInstanceAs (Decidable (_ ∧ _))

/-- A handshake that the client completed. -/
structure Completion where
  /-- The connection. -/
  wire : Nat
  client : Session
  /-- The number of the server's session that answered. -/
  host : Option Nat
  /-- That session. -/
  server : Option Session

namespace Completion

variable (k : Completion)

/-- The client is consistent with the session that answered. -/
def Consistent : Prop := ∃ h ∈ k.server, Net.Consistent k.client h

/-- Nothing that the client sent was ever acknowledged to it, and it received less than the
session that answered gave out. -/
def Harmless : Prop :=
  ∃ h ∈ k.server, k.client.outbox.highestAck = noSequence ∧ k.client.inbox.received < h.outbox.next

/-- The next handshake is answered by the same session, or by one to which nothing is
missing. -/
def Follows (k k' : Completion) : Prop := k'.host = k.host ∨ k'.Harmless

instance : Decidable k.Consistent := inferInstanceAs (Decidable (∃ _ ∈ _, _))

instance : Decidable k.Harmless := inferInstanceAs (Decidable (∃ _ ∈ _, _))

instance (k k' : Completion) : Decidable (k.Follows k') := inferInstanceAs (Decidable (_ ∨ _))

end Completion

/-- Nobody else comes. -/
def World.Event.Private : World.Event → Prop
  | .visit => False
  | _ => True

instance : (e : World.Event) → Decidable e.Private
  | .visit => .isFalse id
  | .write .. | .shut .. | .use .. | .handle .. | .dial | .remove _ | .resume _ | .tick =>
    .isTrue trivial

/-- The number of the server's session that has one end of connection `i`. -/
def World.host? (w : World) (i : Nat) : Option Nat :=
  match w.stage? i .acceptor with
  | some (.bound (.server j) _ _) => some j
  | _ => none

/-- A world that is watched. -/
structure Watch where
  world : World
  /-- The number of the server's session that a connection is or was for. -/
  served : Nat → Option Nat := fun _ => none
  completions : List Completion := []

namespace Watch

/-- One client and one server, and no connections yet. -/
def begin (reachable : Bool) (v : Server) (c : Client) : Watch where
  world := { reachable, server := some v, client := some c }

/-- The handshake that the client completes when the world becomes `w` by an event. -/
def completion? (o : Watch) (w : World) (served : Nat → Option Nat) : World.Event → Option Completion
  | .handle i .dialer =>
    match o.world.session? .client, w.session? .client with
    | some s, some s' =>
      if s.handshakes < s'.handshakes then
        some ⟨i, s', served i, (served i).bind fun j => w.session? (.server j)⟩
      else none
    | _, _ => none
  | _ => none

/-- What is noted when the world becomes `w` by an event. -/
def note (o : Watch) (w : World) (e : World.Event) : Watch :=
  let served i := (w.host? i).or (o.served i)
  ⟨w, served, o.completions ++ (o.completion? w served e).toList⟩

/-- What an event leads to. -/
def step (o : Watch) (e : World.Event) : Watch :=
  match o.world.happen? e with
  | none => o
  | some w => o.note w e

/-- What a run of events leads to. -/
def run (o : Watch) (events : List World.Event) : Watch := events.foldl step o

/-- Watching changes nothing. -/
theorem run_world (o : Watch) (events : List World.Event) :
    (o.run events).world = o.world.run events := by
  induction events generalizing o with
  | nil => rfl
  | cons e events ih =>
    have hstep : (o.step e).world = (o.world.happen? e).getD o.world := by
      unfold step
      cases o.world.happen? e <;> rfl
    exact (ih (o.step e)).trans (congrArg (fun w => World.run w events) hstep)

end Watch

end Tether.Net
