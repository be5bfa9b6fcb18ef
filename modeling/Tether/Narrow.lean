/-!
# Narrowing of numbers

Numbers that are known to fit in a narrower type. One that does not is an error of
the program, not of its input.
-/

namespace Tether

/-- A number does not fit. -/
inductive OutOfRange where
  | outOfRange
  deriving DecidableEq

/-- The error in words. -/
def OutOfRange.message : OutOfRange → String
  | outOfRange => "this is a bug: application logic should have ensured the value range"

namespace Narrow

/-- A size as a number of thirty-two bits. -/
def toUInt32 (n : Nat) : Except OutOfRange UInt32 :=
  if h : n < UInt32.size then .ok (UInt32.ofNatLT n h) else .error .outOfRange

/-- An integer as a size. -/
def toSize (x : Int) : Except OutOfRange Nat :=
  if 0 ≤ x then .ok x.toNat else .error .outOfRange

end Narrow

end Tether
