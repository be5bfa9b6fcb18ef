/-!
# Deadlines

All that waits for a time sleeps until a deadline: a timer, a session, a server that
waits for the first frame, a client between two attempts. The sleep is that of the
runtime, which counts time in milliseconds and sleeps for thirty years at most: who
asks for more gets that. The limit is the runtime's own. Those who sleep ask for what
they are told to, and none of them sets another. A delay counts from the call that
asks for the sleep, and a delay of zero is over at once.
-/

namespace Tether.Deadline

/-- How long the runtime sleeps at most: thirty years of 365 days. -/
def horizon : Nat := 30 * 365 * 24 * 60 * 60 * 1000

/-- How long the runtime sleeps if `delay` is asked for. -/
def reach (delay : Nat) : Nat := min delay horizon

/-- The deadline of a sleep that begins at a time. -/
def after (now delay : Nat) : Nat := now + reach delay

/-- A delay counts unless it is zero. -/
theorem reach_pos_iff {delay : Nat} : 0 < reach delay ↔ 0 < delay := by
  have h : 0 < horizon := by decide
  unfold reach
  omega

theorem le_after (now delay : Nat) : now ≤ after now delay := Nat.le_add_right now (reach delay)

end Tether.Deadline
