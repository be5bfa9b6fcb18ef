import Tether.Session.Alarms
import Tether.Session.Receiving

/-!
# A session as a machine

All that can happen to a session, as one kind of input, and what a run of inputs
leaves behind and does. The time and the behaviour of the connections come with
each input.
-/

namespace Tether.Session

/-- What can happen to a session. -/
inductive Input where
  /-- The layer above sends a payload if there is room. -/
  | trySend (payload : Bytes)
  /-- The layer above sends a payload as soon as there is room. -/
  | send (payload : Bytes)
  /-- Sends that were woken try again. -/
  | resume
  /-- The layer above ends the session. -/
  | close
  /-- The layer above ends the connections. -/
  | disconnect (forced : Bool)
  /-- Acknowledge what is held back. -/
  | flush
  /-- There is a new connection. -/
  | connect
  /-- A frame comes on a connection. -/
  | frame (conn : ConnectionId) (bytes : Bytes)
  /-- A connection was lost. -/
  | disconnected (conn : ConnectionId) (forced : Bool)
  /-- An alarm goes off. -/
  | ring (alarm : Alarm)

/-- What an input leaves behind and does. -/
def step (m : Moment) (s : Session) : Input → Session × List Effect
  | .trySend payload => let o := s.trySend m payload; (o.session, o.effects)
  | .send payload => let o := s.send m payload; (o.session, o.effects)
  | .resume => s.resume m
  | .close => s.close m
  | .disconnect forced => (s, s.disconnect forced)
  | .flush => s.flush m
  | .connect => let o := s.connect m; (o.session, o.effects)
  | .frame conn bytes => let o := s.receive m conn bytes; (o.session, o.effects)
  | .disconnected conn forced => s.disconnected m conn forced
  | .ring alarm => s.ring m alarm

/-- What a run of inputs leaves behind and does. -/
def run (s : Session) : List (Moment × Input) → Session × List Effect
  | [] => (s, [])
  | (m, input) :: rest =>
    let one := s.step m input
    let more := one.1.run rest
    (more.1, one.2 ++ more.2)

/-- A session that some run leads to. -/
def Reachable (s : Session) : Prop :=
  ∃ role id config now s₀ inputs, create role id config now = .ok s₀ ∧ (s₀.run inputs).1 = s

end Tether.Session
