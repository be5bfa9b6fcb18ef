import Tether.Session.Sending

/-!
# What time does to a session

Three alarms can be set: the end of the window in which a lost connection may be
replaced, the end of the time for a handshake, and the next tick at which
acknowledgements that are held back are sent. The ticks come at multiples of an
interval since the session was created. Each tick is a deadline that the one before
it sets, so the interval reaches no further than a deadline does.
-/

namespace Tether.Session

/-- What may be due. -/
inductive Alarm where
  /-- The window with a number closes. -/
  | window (epoch : Nat)
  /-- The time for the handshake of a connection is over. -/
  | handshake (conn : ConnectionId)
  /-- It is time to acknowledge. -/
  | idle
  deriving DecidableEq

/-- The window with a number closes. -/
def expireWindow (s : Session) (epoch : Nat) : Session × List Effect :=
  match s.lifecycle.expire epoch with
  | (false, _) => (s, [])
  | (true, lifecycle) =>
    let r := { s with lifecycle }.shutDown
    (r.1, r.2 ++ [.notify (.lost .restoreTimeout)])

/-- The time for the handshake of a connection is over. -/
def expireHandshake (s : Session) (conn : ConnectionId) : Session × List Effect :=
  if s.pending.any (·.conn = conn) then ({ s with pending := none }, [.close conn false])
  else (s, [])

/-- An alarm goes off. -/
def ring (m : Moment) (s : Session) : Alarm → Session × List Effect
  | .window epoch => s.expireWindow epoch
  | .handshake conn => s.expireHandshake conn
  | .idle => s.flush m

/-- The first tick after a time. -/
def nextTick (created every now : Nat) : Nat := created + every * ((now - created) / every + 1)

/-- Something is held back that a tick would acknowledge. -/
def HoldsBack (s : Session) : Prop :=
  s.lifecycle.phase = .connected ∧ s.inbox.heldBack.isSome

instance (s : Session) : Decidable s.HoldsBack := inferInstanceAs (Decidable (_ ∧ _))

/-- The next tick, if it has something to do. An interval of zero has no ticks. -/
def idleAlarm (s : Session) (now : Nat) : List (Nat × Alarm) :=
  s.config.idleFlush.toList.flatMap fun every =>
    if 0 < every ∧ s.HoldsBack then [(nextTick s.created (Deadline.reach every) now, .idle)] else []

/-- The alarms that are set, and when they go off. The tick comes first: the next one
is always after `now`, so of alarms that go off together it must not be the last. -/
def alarms (s : Session) (now : Nat) : List (Nat × Alarm) :=
  s.idleAlarm now ++ (s.windowEnd.toList.map fun w => (w.deadline, .window w.epoch)) ++
    s.pending.toList.map fun p => (p.deadline, .handshake p.conn)

/-- The earlier of two alarms, the first one if they go off together. -/
def earlier (a b : Nat × Alarm) : Nat × Alarm := if b.1 < a.1 then b else a

/-- The alarm that goes off first. -/
def nextAlarm (s : Session) (now : Nat) : Option (Nat × Alarm) :=
  match s.alarms now with
  | [] => none
  | a :: rest => some (rest.foldl earlier a)

/-- The time from `now` until `finish` passes, with at most `n` alarms. Sends that an
alarm wakes try again before the next one. -/
def elapse (takes : ConnectionId → Message → Bool) (finish : Nat) :
    Nat → Nat → Session → Session × List Effect
  | 0, _, s => (s, [])
  | n + 1, now, s =>
    match s.nextAlarm now with
    | none => (s, [])
    | some (time, alarm) =>
      if finish < time then (s, []) else
      let m : Moment := ⟨time, takes⟩
      let rung := s.ring m alarm
      let resumed := rung.1.resume m
      let rest := elapse takes finish n time resumed.1
      (rest.1, rung.2 ++ resumed.2 ++ rest.2)

/-- How many alarms go off without anything else happening: each of the three at most
once, because none sets another. -/
def maxAlarms : Nat := 3

/-- The time from `now` until `finish` passes. -/
def advance (takes : ConnectionId → Message → Bool) (now finish : Nat) (s : Session) :
    Session × List Effect :=
  elapse takes finish maxAlarms now s

end Tether.Session
