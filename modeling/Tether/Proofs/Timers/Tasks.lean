import Mathlib.Logic.Basic
import Tether.Timers

/-!
# Tasks and their timers

What becomes of a task is settled by the clock and by its own handle, and can be told from what is
asked for after it was scheduled. It fires when the clock reaches its time, unless the first request
that drops its handle is a cancellation which comes before that (`Task.Fires`). Its timer is to
fire in the same way from any moment on (`Timer.Fires`), and each request changes that only for the
timer which the handle that it is about stands for (`fires_cons_of_not_holds`).
-/

namespace Tether.Timers

/-! ### Requests -/

/-- What can be asked of the timers. -/
inductive Request where
  /-- Set a timer, with a handle under this label. -/
  | schedule (label delay : Nat)
  /-- Cancel the timer that a handle stands for. -/
  | cancel (label : Nat)
  /-- Drop a handle. -/
  | forget (label : Nat)
  /-- Let time pass. -/
  | advance (time : Nat)
  deriving DecidableEq

namespace Request

/-- The label of the handle that a request is about. -/
def label? : Request → Option Nat
  | schedule label _ => some label
  | cancel label => some label
  | forget label => some label
  | advance _ => none

/-- The time that passes. -/
def time : Request → Nat
  | advance time => time
  | _ => 0

/-- A handle under a label is gone after the request. If a timer is set under the label, the label
stands for that one. -/
def Drops (label : Nat) (r : Request) : Prop := r.label? = some label

instance (label : Nat) (r : Request) : Decidable (r.Drops label) :=
  inferInstanceAs (Decidable (_ = _))

end Request

/-- The timers after a request, before what is due fires. -/
def perform (s : Timers) : Request → Timers
  | .schedule label delay => s.schedule label delay
  | .cancel label => s.cancel label
  | .forget label => s.forget label
  | .advance time => s.advance time

/-- What fires with a request, and the timers after it. What is due once the request is done fires
before anything else is asked for, although the time is the same: also the timer that the request
itself set, if it has no delay. A delay counts from the request that sets the timer. -/
def serve (s : Timers) (r : Request) : List (Nat × Nat) × Timers :=
  (report (s.perform r).fire.1, (s.perform r).fire.2)

/-- What fires with some requests, in order, and the timers after them. -/
def serveAll (s : Timers) : List Request → List (Nat × Nat) × Timers
  | [] => ([], s)
  | r :: rest =>
    let one := s.serve r
    let more := one.2.serveAll rest
    (one.1 ++ more.1, more.2)

/-- The time that passes with some requests. -/
def elapsed : List Request → Nat
  | [] => 0
  | r :: rest => r.time + elapsed rest

/-- A handle with a label that is held before some requests is held after them. -/
def Keeps (label : Nat) (requests : List Request) : Prop := ∀ r ∈ requests, ¬ r.Drops label

instance (label : Nat) (requests : List Request) : Decidable (Keeps label requests) :=
  inferInstanceAs (Decidable (∀ _ ∈ _, _))

/-- **A handle is used to cancel before a time `due`**, if it is held now: the first of the requests
that drops it is a cancellation, and comes before that time. -/
def Cancelled (label due now : Nat) (requests : List Request) : Prop :=
  requests.find? (·.Drops label) = some (.cancel label) ∧
    now + elapsed (requests.takeWhile (¬ ·.Drops label)) < due

instance (label due now : Nat) (requests : List Request) :
    Decidable (Cancelled label due now requests) := inferInstanceAs (Decidable (_ ∧ _))

/-! ### Tasks -/

/-- A task that was scheduled. -/
structure Task where
  /-- When it was scheduled. -/
  since : Nat
  /-- The label of its handle. -/
  label : Nat
  delay : Nat
  /-- What was asked for after that. -/
  rest : List Request

namespace Task

/-- The time of the task. -/
def due (k : Task) : Nat := Deadline.after k.since k.delay

/-- The clock reaches the time of the task. -/
def Reached (k : Task) : Prop := k.due ≤ k.since + elapsed k.rest

/-- Its handle is held to the end. -/
def Held (k : Task) : Prop := Keeps k.label k.rest

/-- **A task fires** if its time is reached, and it was not cancelled before. -/
def Fires (k : Task) : Prop := k.Reached ∧ ¬ Cancelled k.label k.due k.since k.rest

/-- When the task fires, and under which label. -/
def firing (k : Task) : Nat × Nat := (k.due, k.label)

/-- The timer of the task when it is set. -/
def timer (k : Task) : Timer := { label := k.label, due := k.due }

instance (k : Task) : Decidable k.Reached := inferInstanceAs (Decidable (_ ≤ _))

instance (k : Task) : Decidable k.Held := inferInstanceAs (Decidable (Keeps _ _))

instance (k : Task) : Decidable k.Fires := inferInstanceAs (Decidable (_ ∧ _))

end Task

/-- The task that a request schedules, before other requests. -/
def Request.task? (now : Nat) (rest : List Request) : Request → Option Task
  | schedule label delay => some ⟨now, label, delay, rest⟩
  | _ => none

/-- **The tasks that are scheduled** with some requests, the first of which comes at the time
`now`. -/
def tasks (now : Nat) : List Request → List Task
  | [] => []
  | r :: rest => (r.task? now rest).toList ++ tasks (now + r.time) rest

variable {r : Request} {rest requests : List Request} {label due now : Nat}

theorem elapsed_cons (r : Request) (rest : List Request) :
    elapsed (r :: rest) = r.time + elapsed rest := rfl

theorem keeps_cons : Keeps label (r :: rest) ↔ ¬ r.Drops label ∧ Keeps label rest :=
  List.forall_mem_cons

namespace Request

theorem drops_schedule (label delay : Nat) : (schedule label delay).Drops label := rfl

theorem drops_cancel (label : Nat) : (cancel label).Drops label := rfl

theorem drops_forget (label : Nat) : (forget label).Drops label := rfl

theorem not_drops_advance {time : Nat} : ¬ (advance time).Drops label := nofun

/-- A request is about one label at most. -/
theorem Drops.label_eq {label' : Nat} (h : r.Drops label) (h' : r.Drops label') :
    label = label' := Option.some.inj (Eq.trans (Eq.symm h) h')

theorem Drops.time_eq (h : r.Drops label) : r.time = 0 := by
  cases r with
  | advance time => cases h
  | _ => rfl

theorem eq_of_mem_task? {k : Task} (hk : k ∈ (r.task? now rest).toList) :
    k.since = now ∧ k.rest = rest ∧ r.Drops k.label := by
  cases r with
  | schedule label delay =>
    obtain rfl := List.mem_singleton.mp hk
    exact ⟨rfl, rfl, rfl⟩
  | _ => cases hk

end Request

/-- **The request that drops a handle decides** whether it is used to cancel. -/
theorem cancelled_cons_of_drops (h : r.Drops label) :
    Cancelled label due now (r :: rest) ↔ r = .cancel label ∧ now < due := by
  simp [Cancelled, h, elapsed]

theorem cancelled_cons_of_not_drops (h : ¬ r.Drops label) :
    Cancelled label due now (r :: rest) ↔ Cancelled label due (now + r.time) rest := by
  simp [Cancelled, h, elapsed_cons, Nat.add_assoc]

/-- It is too late to cancel what is due. -/
theorem Cancelled.lt (h : Cancelled label due now rest) : now < due :=
  Nat.lt_of_le_of_lt (Nat.le_add_right _ _) h.2

theorem not_cancelled_of_keeps (h : Keeps label rest) : ¬ Cancelled label due now rest := by
  rintro ⟨hfind, -⟩
  exact h _ (List.mem_of_find?_eq_some hfind) rfl

/-- A task whose handle is held fires if its time is reached. -/
theorem Task.Held.fires_iff {k : Task} (h : k.Held) : k.Fires ↔ k.Reached :=
  and_iff_left (not_cancelled_of_keeps h)

/-- All tasks see the same clock at the end. -/
theorem clock_of_mem_tasks {k : Task} (hk : k ∈ tasks now requests) :
    k.since + elapsed k.rest = now + elapsed requests := by
  induction requests generalizing now with
  | nil => cases hk
  | cons r rest ih =>
    rw [elapsed_cons]
    rcases List.mem_append.mp hk with hk | hk
    · obtain ⟨hsince, hrest, hdrops⟩ := Request.eq_of_mem_task? hk
      rw [hsince, hrest, hdrops.time_eq, Nat.zero_add]
    · rw [ih hk, Nat.add_assoc]

end Timers

/-! ### Timers -/

namespace Timer

open Timers (Request Task Due Holds)

/-- When the timer fires, and under which label. -/
def firing (t : Timer) : Nat × Nat := (t.due, t.label)

/-- The timer after the handle with a label was dropped. -/
def forgotten (label : Nat) (t : Timer) : Timer :=
  if Holds label t then { t with held := false } else t

/-- **A timer is to fire** with some requests: it did not fire before, its time is reached, and
its handle is not used to cancel it before that. -/
def Fires (now : Nat) (requests : List Request) (t : Timer) : Prop :=
  t.fired = false ∧ t.due ≤ now + Timers.elapsed requests ∧
    ¬ (t.held = true ∧ Timers.Cancelled t.label t.due now requests)

instance (now : Nat) (requests : List Request) (t : Timer) : Decidable (t.Fires now requests) :=
  inferInstanceAs (Decidable (_ ∧ _))

variable {t : Timer} {r : Request} {rest : List Request} {label now : Nat}

theorem fires_timer (k : Task) : k.timer.Fires k.since k.rest ↔ k.Fires := by
  simp [Fires, Task.Fires, Task.timer, Task.Reached]

theorem firing_forgotten (label : Nat) (t : Timer) : (t.forgotten label).firing = t.firing := by
  unfold forgotten
  split <;> rfl

theorem fires_of_due (h : Due now t) : t.Fires now rest := by
  obtain ⟨hfired, hdue⟩ := h
  refine ⟨hfired, Nat.le_add_right_of_le hdue, fun ⟨_, hcancelled⟩ => ?_⟩
  exact Nat.not_lt.mpr hdue hcancelled.lt

theorem holds_iff (hr : r.Drops label) : Holds label t ↔ t.held = true ∧ r.Drops t.label :=
  and_congr_right fun _ => ⟨fun h => h ▸ hr, fun h => h.label_eq hr⟩

theorem fires_cons_of_not_drops (h : ¬ (t.held = true ∧ r.Drops t.label)) :
    t.Fires now (r :: rest) ↔ t.Fires (now + r.time) rest := by
  unfold Fires
  rw [Timers.elapsed_cons, Nat.add_assoc]
  by_cases hheld : t.held = true
  · rw [Timers.cancelled_cons_of_not_drops fun hr => h ⟨hheld, hr⟩]
  · simp [hheld]

theorem fires_advance {time : Nat} :
    t.Fires now (.advance time :: rest) ↔ t.Fires (now + time) rest :=
  fires_cons_of_not_drops fun h => Request.not_drops_advance h.2

/-- **A request about another handle** is nothing to a timer. -/
theorem fires_cons_of_not_holds (hr : r.Drops label) (h : ¬ Holds label t) :
    t.Fires now (r :: rest) ↔ t.Fires now rest := by
  rw [holds_iff hr] at h
  rw [fires_cons_of_not_drops h, hr.time_eq, Nat.add_zero]

/-- **The request that drops its handle** is the last one that a timer heeds. -/
theorem fires_cons_of_holds (hr : r.Drops label) (h : Holds label t) :
    t.Fires now (r :: rest) ↔ t.fired = false ∧ t.due ≤ now + Timers.elapsed rest ∧
      ¬ (r = .cancel label ∧ now < t.due) := by
  obtain ⟨hheld, rfl⟩ := h
  simp [Fires, Timers.elapsed_cons, hr.time_eq, Timers.cancelled_cons_of_drops hr, hheld]

/-- Any request that drops a handle, but a cancellation, is as good as dropping it. -/
theorem fires_forgotten (hr : r.Drops label) (hcancel : r ≠ .cancel label) :
    (t.forgotten label).Fires now rest ↔ t.Fires now (r :: rest) := by
  unfold forgotten
  split
  · next h =>
    rw [fires_cons_of_holds hr h]
    simp [Fires, hcancel]
  · next h => exact (fires_cons_of_not_holds hr h).symm

/-- To drop a handle does not prevent a timer from firing. -/
theorem Fires.forget (h : t.Fires now rest) (label : Nat) :
    t.Fires now (.forget label :: rest) := by
  have hdrops := Request.drops_forget label
  by_cases hholds : Holds label t
  · exact (fires_cons_of_holds hdrops hholds).mpr ⟨h.1, h.2.1, by simp⟩
  · exact (fires_cons_of_not_holds hdrops hholds).mpr h

/-- **To cancel is to drop the handle**, except that it prevents a timer from firing that is not
due yet. -/
theorem fires_cancel : t.Fires now (.cancel label :: rest) ↔
    t.Fires now (.forget label :: rest) ∧ ¬ (Holds label t ∧ now < t.due) := by
  have hcancel := Request.drops_cancel label
  have hforget := Request.drops_forget label
  by_cases hholds : Holds label t
  · rw [fires_cons_of_holds hcancel hholds, fires_cons_of_holds hforget hholds]
    simp [hholds, and_assoc]
  · rw [fires_cons_of_not_holds hcancel hholds, fires_cons_of_not_holds hforget hholds]
    simp [hholds]

end Timer

end Tether
