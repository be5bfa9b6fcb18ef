import Tether.Config

/-!
# The outbox

What the sending side of a session keeps. Each accepted payload gets the next
sequence number and is retained until the peer acknowledges it. While there is a
connection an accepted message is to be transmitted at once; otherwise it is
deferred, and goes out when all that is retained is replayed on the next one.

Two bounds hold the sender back: the window bounds what is retained, and the
queue cap bounds what is deferred.
-/

namespace Tether

/-- A message that awaits its acknowledgement. -/
structure Retained where
  seq : Int
  payload : Bytes
  deriving DecidableEq

/-- Why a payload is not accepted. -/
inductive Refusal where
  /-- Too many messages await their acknowledgement. -/
  | windowFull
  /-- Too many messages await a connection. -/
  | queueFull
  /-- The session is over. -/
  | terminated
  /-- The payload does not fit in a frame. -/
  | tooLarge (length max : Nat)
  deriving DecidableEq

/-- The refusal in words. -/
def Refusal.message : Refusal → String
  | windowFull => "the send window is full"
  | queueFull => "the send queue is full while there is no physical connection"
  | terminated => "the session is terminated"
  | tooLarge length max => s!"payload of {length} bytes exceeds the maximum of {max}"

/-- A refusal that passes: the payload may be accepted later. -/
def Refusal.Temporary (r : Refusal) : Prop := r = .windowFull ∨ r = .queueFull

instance (r : Refusal) : Decidable r.Temporary := inferInstanceAs (Decidable (_ ∨ _))

/-- What to do with an accepted message. -/
inductive Accepted where
  /-- Transmit it now. -/
  | transmit (seq : Int)
  /-- It goes out with the next replay. -/
  | deferred (seq : Int)
  deriving DecidableEq

/-- The sequence number of an accepted message. -/
def Accepted.seq : Accepted → Int
  | transmit n => n
  | deferred n => n

/-- The sending side of a session. -/
structure Outbox where
  /-- The session the messages belong to. -/
  session : SessionId
  /-- The number of the next message. -/
  next : Int := 0
  /-- The highest acknowledgement so far. -/
  highestAck : Int := noSequence
  /-- The messages that await their acknowledgement, oldest first. -/
  retained : Array Retained := #[]
  /-- How many of them, at the end, were never transmitted. -/
  unsent : Nat := 0
  /-- Whether there is a connection. -/
  connected : Bool := false
  /-- The bound on what is retained, if there is one. -/
  window : Option Nat
  /-- The bound on what is accepted without a connection. -/
  queueCap : Nat
  /-- The greatest length of a payload. -/
  maxPayload : Nat

namespace Outbox

/-- A new outbox. -/
def new (session : SessionId) (config : Config) : Outbox where
  session := session
  window := config.window
  queueCap := config.queueCap
  maxPayload := config.maxPayload

/-- The sequence numbers that await their acknowledgement. -/
def sequences (o : Outbox) : List Int := o.retained.toList.map (·.seq)

/-- The window leaves no room. -/
def WindowFull (o : Outbox) : Prop := ∃ w ∈ o.window, w ≤ o.retained.size

instance (o : Outbox) : Decidable o.WindowFull :=
  match h : o.window with
  | none => isFalse fun ⟨_, hw, _⟩ => by simp [h] at hw
  | some w => decidable_of_iff (w ≤ o.retained.size)
      ⟨fun hw => ⟨w, by simp [h], hw⟩, fun ⟨v, hv, hw⟩ => by simp [h] at hv; omega⟩

/-- The queue leaves no room. -/
def QueueFull (o : Outbox) : Prop := o.connected = false ∧ o.queueCap ≤ o.unsent

instance (o : Outbox) : Decidable o.QueueFull := inferInstanceAs (Decidable (_ ∧ _))

/-- Why a payload is refused, if it is. -/
def refusal? (o : Outbox) (payload : Bytes) : Option Refusal :=
  if o.maxPayload < payload.length then some (.tooLarge payload.length o.maxPayload)
  else if o.WindowFull then some .windowFull
  else if o.QueueFull then some .queueFull
  else none

/-- Retain a payload under the next sequence number. -/
def retain (o : Outbox) (payload : Bytes) (unsent : Nat) : Outbox :=
  { o with next := o.next + 1, retained := o.retained.push ⟨o.next, payload⟩, unsent }

/-- Accept a payload under the next sequence number, or say why not. -/
@[inline] def accept (o : Outbox) (payload : Bytes) : Except Refusal (Accepted × Outbox) :=
  match o.refusal? payload with
  | some r => .error r
  | none =>
    if o.connected then .ok (.transmit o.next, o.retain payload o.unsent)
    else .ok (.deferred o.next, o.retain payload (o.unsent + 1))

/-- What of an acknowledgement counts: never more than was sent. -/
def credible (o : Outbox) (acked : Int) : Int := if o.next ≤ acked then o.next - 1 else acked

/-- Retire the messages up to an acknowledged one, and say how many they were. An
acknowledgement that is no higher than an earlier one tells nothing. -/
def acknowledge (o : Outbox) (acked : Int) : Nat × Outbox :=
  if acked ≤ o.highestAck then (0, o) else
  let upTo := o.credible acked
  let kept := (o.retained.toList.dropWhile (·.seq ≤ upTo)).toArray
  (o.retained.size - kept.size,
    { o with highestAck := upTo, retained := kept, unsent := min o.unsent kept.size })

/-- The connection is gone. -/
def disconnect (o : Outbox) : Outbox := { o with connected := false }

/-- The messages that a new connection has to carry: all that is retained, oldest
first, each with its own number and payload. -/
def replay (o : Outbox) (acked : Int) : List Message :=
  o.retained.toList.map fun m => .send o.session m.seq acked m.payload

/-- There is a new connection, and what is retained is replayed on it. -/
def reconnect (o : Outbox) : Outbox := { o with connected := true, unsent := 0 }

/-- Start over for another session. -/
def reset (o : Outbox) (session : SessionId) : Outbox :=
  { o with session := session, next := 0, highestAck := noSequence, retained := #[], unsent := 0 }

end Outbox

end Tether
