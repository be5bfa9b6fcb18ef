import Tether.Framing
import Tether.Session.Step

/-!
# Connections between hosts

A connection carries bytes both ways. At each end is a host, which may run a session
over it, or someone else, who reads and writes bytes as they please.
-/

namespace Tether.Net

/-- One direction of a connection. -/
structure Pipe where
  /-- What was written and not read yet. -/
  bytes : Bytes := []
  /-- Nothing more is written. -/
  ended : Bool := false

/-- What is to be read from a connection. -/
inductive Incoming where
  /-- A frame, and what is left after it. -/
  | frame (bytes : Bytes) (rest : Pipe)
  /-- There will be no more frames. -/
  | over
  /-- The next frame is not there yet. -/
  | partly

/-- The next thing to read, with frames of at most `max` bytes. -/
def Pipe.next (p : Pipe) (max : Nat) : Incoming :=
  match Framing.read max false [p.bytes] with
  | .frame bytes rest => .frame bytes { p with bytes := rest.flatten }
  | .failed (.oversized _ _) => .over
  | .ended | .failed _ => if p.ended then .over else .partly

/-- Whose session runs over a connection. -/
inductive Owner where
  | client
  /-- The session that the server created as number `i`. -/
  | server (i : Nat)
  deriving DecidableEq, Repr

/-- How far one end of a connection is. -/
inductive Stage where
  /-- No host has it. -/
  | outside
  /-- A server waits for the first handshake. -/
  | greeting (deadline : Nat)
  /-- A session runs over it, which had completed so many handshakes before. -/
  | bound (owner : Owner) (conn : ConnectionId) (handshakes : Nat)
  /-- The host is done with it. -/
  | done
  deriving DecidableEq, Repr

/-- One end of a connection. -/
structure Socket where
  stage : Stage := .outside
  /-- It is to be closed. -/
  closed : Bool := false
  /-- It is to be closed on purpose. -/
  forced : Bool := false
  deriving DecidableEq

/-- Which end. -/
inductive Side where
  | dialer
  | acceptor
  deriving DecidableEq, Repr

/-- The other end. -/
def Side.other : Side → Side
  | dialer => acceptor
  | acceptor => dialer

/-- A connection. -/
structure Wire where
  dialer : Socket
  acceptor : Socket
  toDialer : Pipe := {}
  toAcceptor : Pipe := {}

namespace Wire

/-- One end. -/
def socket (w : Wire) : Side → Socket
  | .dialer => w.dialer
  | .acceptor => w.acceptor

/-- What comes to one end. -/
def inbound (w : Wire) : Side → Pipe
  | .dialer => w.toDialer
  | .acceptor => w.toAcceptor

/-- Change one end. -/
def setSocket (w : Wire) (s : Socket) : Side → Wire
  | .dialer => { w with dialer := s }
  | .acceptor => { w with acceptor := s }

/-- Change what comes to one end. -/
def setInbound (w : Wire) (p : Pipe) : Side → Wire
  | .dialer => { w with toDialer := p }
  | .acceptor => { w with toAcceptor := p }

/-- Write bytes at one end. -/
def write (w : Wire) (side : Side) (bs : Bytes) : Wire :=
  let p := w.inbound side.other
  w.setInbound { p with bytes := p.bytes ++ bs } side.other

/-- Write no more at one end. -/
def shut (w : Wire) (side : Side) : Wire :=
  w.setInbound { w.inbound side.other with ended := true } side.other

/-- The host at one end is done. -/
def finish (w : Wire) (side : Side) : Wire :=
  (w.setSocket { w.socket side with stage := .done } side).shut side

/-- One end is to be closed. -/
def close (w : Wire) (side : Side) (forced : Bool) : Wire :=
  let s := w.socket side
  w.setSocket { s with closed := true, forced := s.forced || forced } side

/-- A session runs over one end. -/
def Bound (w : Wire) (side : Side) (o : Owner) (conn : ConnectionId) : Prop :=
  ∃ n, (w.socket side).stage = .bound o conn n

instance (w : Wire) (side : Side) (o : Owner) (conn : ConnectionId) :
    Decidable (w.Bound side o conn) :=
  match h : (w.socket side).stage with
  | .bound o' c' n => decidable_of_iff (o' = o ∧ c' = conn)
      ⟨fun ⟨ho, hc⟩ => ⟨n, by rw [h, ho, hc]⟩, fun ⟨_, e⟩ => by rw [h] at e; cases e; exact ⟨rfl, rfl⟩⟩
  | .outside => isFalse fun ⟨_, e⟩ => by rw [h] at e; cases e
  | .greeting _ => isFalse fun ⟨_, e⟩ => by rw [h] at e; cases e
  | .done => isFalse fun ⟨_, e⟩ => by rw [h] at e; cases e

/-- One end takes messages of a session. -/
def takesAt (w : Wire) (o : Owner) (conn : ConnectionId) (side : Side) : Bool :=
  decide (w.Bound side o conn) && !(w.socket side).closed

/-- The connection takes messages of a session. -/
def takes (w : Wire) (o : Owner) (conn : ConnectionId) : Bool :=
  w.takesAt o conn .dialer || w.takesAt o conn .acceptor

/-- What an effect of a session does at one end. -/
def applyAt (o : Owner) (e : Effect) (w : Wire) (side : Side) : Wire :=
  match e with
  | .transmit conn message true =>
    if w.Bound side o conn then w.write side (Framing.encode message.encode) else w
  | .close conn forced => if w.Bound side o conn then w.close side forced else w
  | _ => w

/-- What an effect of a session does to a connection. -/
def apply (o : Owner) (e : Effect) (w : Wire) : Wire :=
  applyAt o e (applyAt o e w .dialer) .acceptor

end Wire

end Tether.Net
