/-!
# Sequence numbers

A sequence number is an integer of eight bytes. The sum or the difference of two of
them may not fit, and then there is none.
-/

namespace Tether

/-- The sequence number that stands for none. -/
def noSequence : Int := -1

/-- An integer that fits in eight bytes. -/
def InRange (x : Int) : Prop := -0x8000000000000000 ≤ x ∧ x < 0x8000000000000000

instance (x : Int) : Decidable (InRange x) := inferInstanceAs (Decidable (_ ∧ _))

/-- A result does not fit in eight bytes. -/
inductive Overflow where
  /-- It is a sum. -/
  | add
  /-- It is a difference. -/
  | subtract
  deriving DecidableEq

/-- The error in words. -/
def Overflow.message : Overflow → String
  | add => "attempt to add with overflow"
  | subtract => "attempt to subtract with overflow"

namespace Sequence

/-- The sum, if it fits. -/
def plus (x y : Int) : Except Overflow Int :=
  if InRange (x + y) then .ok (x + y) else .error .add

/-- The difference, if it fits. -/
def minus (x y : Int) : Except Overflow Int :=
  if InRange (x - y) then .ok (x - y) else .error .subtract

theorem plus_of_inRange {x y : Int} (h : InRange (x + y)) : plus x y = .ok (x + y) := if_pos h

theorem minus_of_inRange {x y : Int} (h : InRange (x - y)) : minus x y = .ok (x - y) := if_pos h

end Sequence

end Tether
