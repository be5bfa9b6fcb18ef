/-!
# The life of a session

A session is connected by its first handshake. If its connection is lost it may be
restored within a window of time, until it is lost for good or closed. The two
last phases are final.

The window has a number, the *epoch*, and whatever opens or closes a window moves
on to the next. So a deadline that was set for one window has no effect on a later
one (`expire`), in whatever order the news of handshakes and deadlines comes.
-/

namespace Tether

/-- Where a session stands. -/
inductive Phase where
  /-- No handshake was completed yet. -/
  | initial
  /-- There is a connection. -/
  | connected
  /-- The connection was lost, and another may replace it. -/
  | restoring
  /-- The connection was lost for good. -/
  | lost
  /-- One side said goodbye. -/
  | closed
  deriving DecidableEq, Repr

/-- The session is over. -/
def Phase.Final (p : Phase) : Prop := p = .lost ∨ p = .closed

instance (p : Phase) : Decidable p.Final := inferInstanceAs (Decidable (_ ∨ _))

/-- Why a session is lost. -/
inductive Loss where
  /-- No connection replaced the lost one in time. -/
  | restoreTimeout
  /-- The connection was ended on purpose. -/
  | forcedDisconnect
  /-- Connections are not replaced in this session. -/
  | reconnectDisabled
  /-- The peer said goodbye. -/
  | goodbye
  deriving DecidableEq, Repr

/-- What the loss of a connection means. -/
inductive Disconnection where
  /-- A window opens, in which the connection may be replaced. -/
  | windowOpened (epoch : Nat)
  /-- The session is lost. -/
  | lost (reason : Loss)
  /-- Nothing. -/
  | ignored
  deriving DecidableEq, Repr

/-- What a completed handshake means. -/
inductive Handshake where
  /-- The session has its first connection. -/
  | established
  /-- The lost connection is replaced. -/
  | restored
  /-- A connection that was not known to be lost is replaced. -/
  | replaced
  /-- The session is over. -/
  | rejected
  deriving DecidableEq, Repr

/-- The life of a session. -/
structure Lifecycle where
  phase : Phase := .initial
  /-- Whether a lost connection may be replaced. -/
  reconnects : Bool
  /-- The number of the latest window. -/
  epoch : Nat := 0
  deriving DecidableEq, Repr

namespace Lifecycle

/-- The session is over. -/
def Over (l : Lifecycle) : Prop := l.phase.Final

instance (l : Lifecycle) : Decidable l.Over := inferInstanceAs (Decidable l.phase.Final)

/-- End the session. -/
def finish (l : Lifecycle) (phase : Phase) : Lifecycle :=
  { l with phase := phase, epoch := l.epoch + 1 }

/-- A connection was lost: the one in use, or one that was still to replace it.
A `forced` loss was intended, and there is no waiting for another connection. -/
def disconnect (l : Lifecycle) (forced : Bool) : Disconnection × Lifecycle :=
  match l.phase with
  | .connected =>
    if forced then (.lost .forcedDisconnect, l.finish .lost)
    else if l.reconnects then
      (.windowOpened (l.epoch + 1), { l with phase := .restoring, epoch := l.epoch + 1 })
    else (.lost .reconnectDisabled, l.finish .lost)
  | .initial | .restoring =>
    if forced then (.lost .forcedDisconnect, l.finish .lost) else (.ignored, l)
  | .lost | .closed => (.ignored, l)

/-- A handshake was completed. -/
def connect (l : Lifecycle) : Handshake × Lifecycle :=
  match l.phase with
  | .initial => (.established, { l with phase := .connected })
  | .restoring => (.restored, { l with phase := .connected, epoch := l.epoch + 1 })
  | .connected => (.replaced, l)
  | .lost | .closed => (.rejected, l)

/-- The deadline of a window passed: the session is lost if that window is open. -/
def expire (l : Lifecycle) (epoch : Nat) : Bool × Lifecycle :=
  if l.phase = .restoring ∧ epoch = l.epoch then (true, l.finish .lost) else (false, l)

/-- One side said goodbye: the session is closed unless it was over before. -/
def goodbye (l : Lifecycle) : Bool × Lifecycle :=
  if l.Over then (false, l) else (true, l.finish .closed)

end Lifecycle

end Tether
