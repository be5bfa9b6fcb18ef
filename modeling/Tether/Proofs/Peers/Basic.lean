import Mathlib.Logic.Function.Basic
import Tether.Proofs.Message.RoundTrip
import Tether.Proofs.Session.Progress

/-!
# Two sides of a session

A client and a server of one session, and what happens to them. Each side acts as it
likes, and its connections take what they like. What one side handed to any connection
at any time may reach the other side at any later time, on any connection, any number
of times, or never: a peer that is far away, but honest.
-/

namespace Tether

/-- The other side. -/
def Role.other : Role → Role
  | .client => .server
  | .server => .client

@[simp] theorem Role.other_other (r : Role) : r.other.other = r := by cases r <;> rfl

theorem Role.other_ne (r : Role) : r.other ≠ r := by cases r <;> decide

theorem Role.eq_or_eq_other (r r' : Role) : r' = r ∨ r' = r.other := by
  cases r <;> cases r' <;> simp [Role.other]

/-- Everything that can happen to a session but a frame. -/
def Session.Input.Local : Session.Input → Prop
  | .frame _ _ => False
  | _ => True

theorem Session.Input.Local.cases {input : Session.Input} (h : input.Local) :
    input = .connect ∨ input.Own := by
  cases input with
  | connect => exact .inl rfl
  | frame => exact h.elim
  | _ => exact .inr trivial

instance (m : Message) : Decidable m.Representable :=
  decidable_of_iff (InRange m.seq ∧ InRange m.acked) ⟨fun h => ⟨h.1, h.2⟩, fun h => ⟨h.1, h.2⟩⟩

/-! ### One side -/

/-- One side of a session, with all that it ever did. -/
structure Peer where
  session : Session
  /-- The messages that it handed to connections, whether these took them or not. -/
  handed : List Message := []
  /-- The payloads that it accepted. -/
  accepted : List Bytes := []
  /-- The payloads that it delivered. -/
  delivered : List Bytes := []

namespace Peer

/-- The side after its session went on. -/
def after (p : Peer) (s : Session) (t : List Transmission) (a d : List Bytes) : Peer where
  session := s
  handed := p.handed ++ t.map (·.message)
  accepted := p.accepted ++ a
  delivered := p.delivered ++ d

/-- The side acts. -/
def act (m : Moment) (p : Peer) (input : Session.Input) : Peer :=
  let r := p.session.step m input
  p.after r.1 (Effect.transmitted r.2) (p.session.accepted m input) (Effect.delivered r.2)

/-- The frame of a message comes on a connection. -/
def hear (m : Moment) (p : Peer) (conn : ConnectionId) (x : Message) : Peer :=
  let r := p.session.receive m conn x.encode
  p.after r.session (Effect.transmitted r.effects) [] (Effect.delivered r.effects)

@[simp] theorem after_session (p : Peer) (s : Session) (t : List Transmission) (a d : List Bytes) :
    (p.after s t a d).session = s := rfl

@[simp] theorem after_after (p : Peer) (s s' : Session) (t t' : List Transmission)
    (a a' d d' : List Bytes) :
    (p.after s t a d).after s' t' a' d' = p.after s' (t ++ t') (a ++ a') (d ++ d') := by
  simp [after]

@[simp] theorem after_self (p : Peer) : p.after p.session [] [] [] = p := by simp [after]

end Peer

/-! ### Both sides -/

/-- Both sides of a session. -/
abbrev Peers := Role → Peer

namespace Peers

/-- What can happen to the two sides. -/
inductive Event where
  /-- A side acts, or time passes for it. -/
  | act (side : Role) (m : Moment) (input : Session.Input) (own : input.Local)
  /-- A side gets the frame of a message. -/
  | relay (side : Role) (m : Moment) (conn : ConnectionId) (x : Message)

/-- The two sides before anything happened. -/
def begin (client server : Session) : Peers
  | .client => { session := client }
  | .server => { session := server }

/-- What an event leaves behind. A side gets frames only of messages that the other side
handed to a connection, and only a message whose numbers fit has a frame. -/
def step (ps : Peers) : Event → Peers
  | .act side m input _ => Function.update ps side ((ps side).act m input)
  | .relay side m conn x =>
    if x ∈ (ps side.other).handed ∧ x.Representable then
      Function.update ps side ((ps side).hear m conn x)
    else ps

/-- What events leave behind. -/
def run (ps : Peers) (events : List Event) : Peers := events.foldl step ps

/-- Two sides of one session that some events lead to. -/
def Reachable (ps : Peers) : Prop :=
  ∃ id config config' now now' client server events,
    Session.create .client id config now = .ok client ∧
      Session.create .server id config' now' = .ok server ∧ ps = (begin client server).run events

/-- What a step preserves holds after a run. -/
theorem run_induction {P : Peers → Prop} {ps : Peers} (h : P ps)
    (hstep : ∀ ps e, P ps → P (ps.step e)) (events : List Event) : P (ps.run events) := by
  induction events generalizing ps with
  | nil => exact h
  | cons e events ih => exact ih (hstep ps e h)

end Peers

end Tether
