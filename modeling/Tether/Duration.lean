/-!
# Durations

Lengths of time in nanoseconds. The whole seconds of a duration fit in sixty-four
bits, so adding up parts and multiplying may fail.
-/

namespace Tether

/-- A length of time. -/
structure Duration where
  nanos : Nat
  deriving DecidableEq

namespace Duration

/-- The nanoseconds of a second. -/
def nanosPerSecond : Nat := 1000000000

/-- So many milliseconds. -/
def ofMillis (millis : Nat) : Duration := ⟨millis * 1000000⟩

/-- The milliseconds that it takes for a duration to pass: one that has begun counts. -/
def millis (d : Duration) : Nat := (d.nanos + 999999) / 1000000

/-- The whole seconds. -/
def seconds (d : Duration) : Nat := d.nanos / nanosPerSecond

/-- The nanoseconds beyond the whole seconds. -/
def subsecond (d : Duration) : Nat := d.nanos % nanosPerSecond

/-- The seconds fit in sixty-four bits. -/
def Representable (d : Duration) : Prop := d.seconds < UInt64.size

instance (d : Duration) : Decidable d.Representable := inferInstanceAs (Decidable (_ < _))

/-- So many seconds and nanoseconds, if that is representable. -/
def ofParts? (seconds nanos : Nat) : Option Duration :=
  let d : Duration := ⟨seconds * nanosPerSecond + nanos⟩
  if d.Representable then some d else none

/-- The product with a number, if it is representable. -/
def times? (d : Duration) (n : Nat) : Option Duration :=
  let product : Duration := ⟨d.nanos * n⟩
  if product.Representable then some product else none

/-- The quotient by a number, rounded down to whole nanoseconds. -/
def dividedBy (d : Duration) (n : Nat) : Duration := ⟨d.nanos / n⟩

/-- The shorter of two. -/
def min (a b : Duration) : Duration := if a.nanos ≤ b.nanos then a else b

end Duration

end Tether
