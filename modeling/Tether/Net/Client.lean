import Tether.Backoff
import Tether.Session.Step

/-!
# A client

A client keeps a connection open for its session until the session is over. After a
connection that completed its handshake it dials again at once; after any other, and
after an attempt that failed, it waits, longer each time.
-/

namespace Tether.Net

/-- What a client does about its connection. -/
inductive Dialing where
  /-- It dials at some time. -/
  | due (time : Nat)
  /-- It has a connection. -/
  | connected
  /-- It dials no more. -/
  | stopped
  deriving DecidableEq, Repr

/-- A client. -/
structure Client where
  session : Session
  backoff : Backoff
  dialing : Dialing := .due 0
  /-- How many attempts are yet to fail. -/
  failures : Nat := 0
  /-- Every attempt fails. -/
  refused : Bool := false

namespace Client

/-- The delays when nothing else is asked for: from ten milliseconds to a second. -/
def defaultBackoff : Except BackoffError Backoff :=
  Backoff.new (.ofMillis 10) (.ofMillis 1000) Backoff.double

/-- A client with a new session, if its configuration is acceptable. -/
def create (id : SessionId) (config : Config) (backoff : Backoff) : Except ConfigError Client :=
  match Session.create .client id config 0 with
  | .error e => .error e
  | .ok session => .ok { session, backoff }

/-- The client dials now. -/
def Dials (c : Client) (now : Nat) : Prop := ∃ t ≤ now, c.dialing = .due t

instance (c : Client) (now : Nat) : Decidable (c.Dials now) :=
  match h : c.dialing with
  | .due t => decidable_of_iff (t ≤ now) ⟨fun ht => ⟨t, ht, h⟩, fun ⟨u, hu, e⟩ => by
      rw [h] at e; cases e; exact hu⟩
  | .connected => isFalse fun ⟨_, _, e⟩ => by rw [h] at e; cases e
  | .stopped => isFalse fun ⟨_, _, e⟩ => by rw [h] at e; cases e

/-- What follows an attempt or a connection, whether the handshake was completed or
not. -/
def afterwards (c : Client) (now : Nat) (completed : Bool) : Client :=
  if completed then { c with backoff := c.backoff.reset, dialing := .due now }
  else if c.session.terminated then { c with dialing := .stopped }
  else
    match c.backoff.step with
    | .error _ => { c with dialing := .stopped }
    | .ok (delay, backoff) => { c with backoff, dialing := .due (Deadline.after now delay.millis) }

end Client

end Tether.Net
