import Tether.Session.Basic

/-!
# Sending

What the layer above does with a session: it sends payloads, at once or as soon as
there is room, and it closes the session or the connections.
-/

namespace Tether.Session

/-! ### Payloads -/

/-- Send a payload if there is room. On the active connection it is transmitted
with an acknowledgement; if the connection does not take it, it is replayed later. -/
def trySend (m : Moment) (s : Session) (payload : Bytes) : Outcome (Except Refusal Int) :=
  if s.lifecycle.Over then ⟨.error .terminated, s, []⟩ else
  match s.outbox.accept payload with
  | .error r => ⟨.error r, s, []⟩
  | .ok (.deferred n, outbox) => ⟨.ok n, { s with outbox }, []⟩
  | .ok (.transmit n, outbox) =>
    match s.active with
    | none => ⟨.ok n, { s with outbox }, []⟩
    | some c =>
      ⟨.ok n, { s with outbox, inbox := s.inbox.flush },
        [transmit m c (.send s.id n s.inbox.received payload)]⟩

/-- A send tries its luck, if it was woken. It goes on waiting if there is no room,
and is done otherwise. It is one step to look for room and to begin to wait: a send
registers for the signal before it looks, so room that others make in between wakes
it as if it had waited by then. -/
def attempt (m : Moment) (s : Session) (w : Waiting) : Session × List Effect :=
  if w.woken = false then ({ s with waiting := s.waiting ++ [w] }, []) else
  let o := s.trySend m w.payload
  match o.answer with
  | .ok n => (o.session, o.effects ++ [.sent w.ticket (.ok n)])
  | .error r =>
    if r.Temporary then
      ({ o.session with waiting := o.session.waiting ++ [{ w with woken := false }] }, o.effects)
    else (o.session, o.effects ++ [.sent w.ticket (.error r)])

/-- Send a payload as soon as there is room. The answer is a ticket, under which the
result is told. -/
def send (m : Moment) (s : Session) (payload : Bytes) : Outcome Nat :=
  let r := { s with nextTicket := s.nextTicket + 1 }.attempt m ⟨s.nextTicket, payload, true⟩
  ⟨s.nextTicket, r.1, r.2⟩

/-- The sends that were woken try again, in the order in which they began. -/
def resume (m : Moment) (s : Session) : Session × List Effect :=
  s.waiting.foldl
    (fun (acc : Session × List Effect) w =>
      let r := acc.1.attempt m w
      (r.1, acc.2 ++ r.2))
    ({ s with waiting := [] }, [])

/-! ### Ending -/

/-- End the session, and say goodbye to the peer. -/
def close (m : Moment) (s : Session) : Session × List Effect :=
  match s.lifecycle.goodbye with
  | (false, _) => (s, [])
  | (true, lifecycle) =>
    let farewell := s.active.toList.map fun c => transmit m c (.goodbye s.id)
    let r := { s with lifecycle }.shutDown
    (r.1, farewell ++ r.2)

/-- Ask the connections to close. What this means for the session shows when their
loss is reported. -/
def disconnect (s : Session) (forced : Bool) : List Effect :=
  (s.active.toList.map fun c => Effect.close c forced) ++
    s.pending.toList.map fun p => Effect.close p.conn forced

/-- Acknowledge what was delivered and not acknowledged yet. -/
def flush (m : Moment) (s : Session) : Session × List Effect :=
  if s.lifecycle.phase = .connected then
    match s.inbox.heldBack with
    | some n => ({ s with inbox := s.inbox.flush }, s.sendAck m n)
    | none => (s, [])
  else (s, [])

end Tether.Session
