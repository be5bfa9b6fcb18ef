import Tether.Deadline

/-!
# One-shot timers

Each timer is set for some time from now and fires once, when the clock reaches
that time, and before anything else happens then. Whoever set it holds a handle,
under a label of its own choice. The handle can cancel the timer; dropping the handle
does not.
-/

namespace Tether

/-- A timer. -/
structure Timer where
  /-- The label of its handle. -/
  label : Nat
  /-- When it fires. -/
  due : Nat
  /-- Whether the handle is still held. -/
  held : Bool := true
  /-- Whether it has fired. -/
  fired : Bool := false
  deriving DecidableEq

/-- Timers and their clock. -/
structure Timers where
  now : Nat := 0
  /-- Every timer that was neither cancelled nor both fired and dropped, in the order
  in which they were set. -/
  timers : List Timer := []

namespace Timers

/-- The timer that a label's handle stands for. -/
def Holds (label : Nat) (t : Timer) : Prop := t.held = true ∧ t.label = label

instance (label : Nat) (t : Timer) : Decidable (Holds label t) := inferInstanceAs (Decidable (_ ∧ _))

/-- Drop the handle with a label. -/
def forget (s : Timers) (label : Nat) : Timers :=
  { s with timers := s.timers.map fun t => if Holds label t then { t with held := false } else t }

/-- Set a timer. An older handle with the same label is dropped. -/
def schedule (s : Timers) (label delay : Nat) : Timers :=
  let s := s.forget label
  { s with timers := s.timers ++ [{ label := label, due := Deadline.after s.now delay }] }

/-- Cancel the timer that a label's handle stands for, and drop the handle. -/
def cancel (s : Timers) (label : Nat) : Timers :=
  { s with timers := s.timers.filter fun t => ¬ Holds label t }

/-- The timer fires at the present time. -/
def Due (now : Nat) (t : Timer) : Prop := t.fired = false ∧ t.due ≤ now

instance (now : Nat) (t : Timer) : Decidable (Due now t) := inferInstanceAs (Decidable (_ ∧ _))

/-- The timer after the present time. -/
def pass (now : Nat) (t : Timer) : Timer := if Due now t then { t with fired := true } else t

/-- Fire what is due: the timers that fire, and the timers after that. -/
def fire (s : Timers) : List Timer × Timers :=
  let later := (s.timers.map (pass s.now)).filter fun t => t.held ∨ ¬ t.fired
  (s.timers.filter fun t => Due s.now t, { s with timers := later })

/-- The clock moves on. -/
def advance (s : Timers) (time : Nat) : Timers := { s with now := s.now + time }

/-- Earlier first, and at the same time the lower label first. -/
def before (a b : Timer) : Bool := a.due < b.due ∨ (a.due = b.due ∧ a.label ≤ b.label)

/-- When the timers that fire do so, in order. -/
def report (fired : List Timer) : List (Nat × Nat) :=
  (fired.mergeSort before).map fun t => (t.due, t.label)

/-- The handles that are held, by label, and whether their timers have fired. -/
def handles (s : Timers) : List (Nat × Bool) :=
  ((s.timers.filter (·.held)).mergeSort fun a b => a.label ≤ b.label).map fun t => (t.label, t.fired)

end Timers

end Tether
