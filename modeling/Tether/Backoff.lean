import Tether.Duration

/-!
# Growing delays

The delay before another attempt grows with every failed one by a fixed factor, up
to a maximum, and starts over after a success. The factor is a number of eighths.
-/

namespace Tether

/-- What is wrong with the delays. -/
inductive BackoffError where
  /-- The delays would shrink. -/
  | factorBelowOne
  /-- The first delay exceeds the maximum. -/
  | initialAboveMax
  /-- The product of delay and factor is no duration. -/
  | overflow
  /-- The seconds and nanoseconds of a delay add up to no duration. -/
  | unrepresentable
  deriving DecidableEq

/-- The error in words. -/
def BackoffError.message : BackoffError → String
  | factorBelowOne => "assertion failed: factor_eighths >= 8"
  | initialAboveMax => "assertion failed: initial_delay <= max_delay"
  | overflow => "overflow when multiplying duration by scalar"
  | unrepresentable => "overflow in Duration::new"

/-- The delays between failed attempts. -/
structure Backoff where
  /-- The first delay. -/
  initial : Duration
  /-- The longest delay. -/
  max : Duration
  /-- The factor of growth, in eighths. -/
  eighths : Nat
  /-- The next delay. -/
  next : Duration
  deriving DecidableEq

namespace Backoff

/-- The factor two. -/
def double : Nat := 16

/-- Delays from `initial` up to `max`. -/
def new (initial max : Duration) (eighths : Nat) : Except BackoffError Backoff :=
  if eighths < 8 then .error .factorBelowOne
  else if max.nanos < initial.nanos then .error .initialAboveMax
  else .ok ⟨initial, max, eighths, initial⟩

/-- Delays that are given in seconds and nanoseconds. -/
def ofParts (initial max : Nat × Nat) (eighths : Nat) : Except BackoffError Backoff :=
  match Duration.ofParts? initial.1 initial.2, Duration.ofParts? max.1 max.2 with
  | some initial, some max => new initial max eighths
  | _, _ => .error .unrepresentable

/-- The delay to wait now, and the delays after it. If the next delay can not be
computed there is none to wait now either. -/
def step (b : Backoff) : Except BackoffError (Duration × Backoff) :=
  match b.next.times? b.eighths with
  | none => .error .overflow
  | some product => .ok (b.next, { b with next := (product.dividedBy 8).min b.max })

/-- Start over. -/
def reset (b : Backoff) : Backoff := { b with next := b.initial }

end Backoff

end Tether
