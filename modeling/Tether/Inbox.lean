import Tether.Message.Basic

/-!
# The inbox

What the receiving side of a session keeps: the highest number it delivered and
the highest it acknowledged. The message with the next number is delivered; one
that was delivered before or that comes too early is answered with what was
received so far. Acknowledgements of delivered messages are held back until
there are enough of them.
-/

namespace Tether

/-- The receiving side of a session. -/
structure Inbox where
  /-- The highest number that was delivered, all before it included. -/
  received : Int := noSequence
  /-- The highest number that was acknowledged. -/
  acked : Int := noSequence
  deriving DecidableEq

/-- What to do with an incoming message. -/
inductive Reception where
  /-- It is the next one: deliver it, and acknowledge it if there is a number. -/
  | deliver (ack : Option Int)
  /-- It was delivered before: acknowledge what was received. -/
  | duplicate (ack : Int)
  /-- One before it is missing: acknowledge what was received. -/
  | gap (ack : Int)
  deriving DecidableEq

namespace Inbox

/-- Nothing is held back any more. -/
def flush (i : Inbox) : Inbox := { i with acked := i.received }

/-- Receive the message with a number; acknowledge once `maxDelayed` messages are
held back. -/
def receive (i : Inbox) (maxDelayed seq : Int) : Reception × Inbox :=
  if seq ≤ i.received then (.duplicate i.received, i.flush)
  else if i.received + 1 < seq then (.gap i.received, i.flush)
  else if maxDelayed ≤ seq - i.acked then (.deliver (some seq), ⟨seq, seq⟩)
  else (.deliver none, { i with received := seq })

/-- Receive the message with a number, where every number computed on the way has to
fit in eight bytes. -/
def receiveChecked (i : Inbox) (maxDelayed seq : Int) : Except Overflow (Reception × Inbox) :=
  if seq ≤ i.received then .ok (.duplicate i.received, i.flush)
  else do
    let next ← Sequence.plus i.received 1
    if next < seq then return (.gap i.received, i.flush)
    else
      let held ← Sequence.minus seq i.acked
      if maxDelayed ≤ held then return (.deliver (some seq), ⟨seq, seq⟩)
      else return (.deliver none, { i with received := seq })

/-- The acknowledgement that is held back, if there is one. -/
def heldBack (i : Inbox) : Option Int := if i.acked < i.received then some i.received else none

/-- Start over for another session. -/
def reset (_ : Inbox) : Inbox := {}

end Inbox

end Tether
