import Tether.Bench
import Tether.Proofs.Session.Consistent

/-!
# Sessions on a clock

A session is told when an alarm goes off. On a clock nobody is free to choose that: what
comes from outside and the time that passes (`Clocked.Event`) decide what a session is told,
and when (`Clocked.history`). So what holds after every run holds on a clock
(`Clocked.run_session`). The bench lets time pass in the same way (`Bench.Station.elapse_eq`).
-/

namespace Tether

namespace Session

variable (s : Session)

/-! ### What is done when -/

/-- What is done in a run, and when. -/
def chronicle (s : Session) : List (Moment × Input) → List (Nat × Effect)
  | [] => []
  | (m, input) :: rest =>
    (s.step m input).2.map (m.now, ·) ++ (s.step m input).1.chronicle rest

/-- It is what is done in the run. -/
theorem chronicle_map_snd (inputs : List (Moment × Input)) :
    (s.chronicle inputs).map Prod.snd = (s.run inputs).2 := by
  induction inputs generalizing s with
  | nil => rfl
  | cons i inputs ih => simp [chronicle, run, ih, Function.comp_def]

theorem run_append (l l' : List (Moment × Input)) :
    (s.run (l ++ l')).1 = ((s.run l).1.run l').1 := by
  induction l generalizing s with
  | nil => rfl
  | cons i l ih => exact ih _

theorem run_append_effects (l l' : List (Moment × Input)) :
    (s.run (l ++ l')).2 = (s.run l).2 ++ ((s.run l).1.run l').2 := by
  induction l generalizing s with
  | nil => rfl
  | cons i l ih =>
    simp only [List.cons_append, Session.run, List.append_assoc]
    rw [ih]

theorem chronicle_append (l l' : List (Moment × Input)) :
    s.chronicle (l ++ l') = s.chronicle l ++ (s.run l).1.chronicle l' := by
  induction l generalizing s with
  | nil => rfl
  | cons i l ih => simp [chronicle, run, ih]

/-! ### What comes while time passes -/

/-- What comes until `finish` if nothing comes from outside: the alarms as they are due, `n`
of them at most, and after each the sends that it woke. -/
def due (takes : ConnectionId → Message → Bool) (finish : Nat) :
    Nat → Nat → Session → List (Moment × Input)
  | 0, _, _ => []
  | n + 1, now, s =>
    match s.nextAlarm now with
    | none => []
    | some (time, alarm) =>
      if finish < time then [] else
      let m : Moment := ⟨time, takes⟩
      (m, .ring alarm) :: (m, .resume) :: due takes finish n time ((s.ring m alarm).1.resume m).1

section due

variable {s} {takes : ConnectionId → Message → Bool} {finish n now time : Nat} {alarm : Alarm}

theorem due_of_none (ha : s.nextAlarm now = none) : due takes finish n now s = [] := by
  cases n with
  | zero => rfl
  | succ n => simp only [due, ha]

/-- The next alarm comes too late. -/
theorem due_of_lt (ha : s.nextAlarm now = some (time, alarm)) (h : finish < time) :
    due takes finish n now s = [] := by
  cases n with
  | zero => rfl
  | succ n => simp only [due, ha, h, if_true]

/-- The next alarm goes off, and the sends that it woke try again. -/
theorem due_of_le (ha : s.nextAlarm now = some (time, alarm)) (h : time ≤ finish) :
    let m : Moment := ⟨time, takes⟩
    due takes finish (n + 1) now s = (m, .ring alarm) :: (m, .resume) ::
      due takes finish n time ((s.ring m alarm).1.resume m).1 := by
  simp only [due, ha, if_neg (not_lt.mpr h)]

end due

/-- That is how time passes. -/
theorem run_due (takes : ConnectionId → Message → Bool) (finish n now : Nat) :
    s.run (due takes finish n now s) = elapse takes finish n now s := by
  induction n generalizing now s with
  | zero => rfl
  | succ n ih =>
    cases ha : s.nextAlarm now with
    | none => simp only [due_of_none ha, elapse, ha, run]
    | some a =>
      obtain ⟨time, alarm⟩ := a
      by_cases hlate : finish < time
      · simp only [due_of_lt ha hlate, elapse, ha, if_pos hlate, run]
      · simp only [due_of_le ha (not_lt.mp hlate), elapse, ha, if_neg hlate, run, step, ih,
          List.append_assoc]

/-- There is a tick if something is held back, and ticks are asked for. -/
theorem idleAlarm_cases (now : Nat) :
    s.idleAlarm now = [] ∨ s.HoldsBack ∧ ∃ time, s.idleAlarm now = [(time, .idle)] := by
  unfold idleAlarm
  cases s.config.idleFlush with
  | none => exact .inl rfl
  | some every =>
    simp only [Option.toList_some, List.flatMap_cons, List.flatMap_nil, List.append_nil]
    split
    · next h => exact .inr ⟨h.2, _, rfl⟩
    · exact .inl rfl

/-- Which alarms are set. -/
theorem alarms_cases {now time : Nat} {alarm : Alarm} (h : (time, alarm) ∈ s.alarms now) :
    (alarm = .idle ∧ s.HoldsBack) ∨
      (∃ w, s.windowEnd = some w ∧ time = w.deadline ∧ alarm = .window w.epoch) ∨
      ∃ p, s.pending = some p ∧ time = p.deadline ∧ alarm = .handshake p.conn := by
  simp only [alarms, List.mem_append, List.mem_map, Option.mem_toList] at h
  rcases h with (hidle | ⟨w, hw, heq⟩) | ⟨p, hp, heq⟩
  · rcases s.idleAlarm_cases now with hnone | ⟨hheld, t, hone⟩
    · simp [hnone] at hidle
    · rw [hone, List.mem_singleton] at hidle
      cases hidle
      exact .inl ⟨rfl, hheld⟩
  · cases heq
    exact .inr (.inl ⟨w, hw, rfl, rfl⟩)
  · cases heq
    exact .inr (.inr ⟨p, hp, rfl, rfl⟩)

theorem foldl_earlier (a : Nat × Alarm) (l : List (Nat × Alarm)) :
    l.foldl earlier a ∈ a :: l ∧ ∀ b ∈ a :: l, (l.foldl earlier a).1 ≤ b.1 := by
  induction l generalizing a with
  | nil => simp
  | cons b l ih =>
    have hfirst : (earlier a b = b ∧ b.1 ≤ a.1) ∨ (earlier a b = a ∧ a.1 ≤ b.1) := by
      unfold earlier
      split
      · next hlt => exact .inl ⟨rfl, hlt.le⟩
      · next hlt => exact .inr ⟨rfl, not_lt.mp hlt⟩
    obtain ⟨hmem, hle⟩ := ih (earlier a b)
    rw [List.foldl_cons]
    rcases hfirst with ⟨heq, hba⟩ | ⟨heq, hab⟩ <;> rw [heq] at hmem hle ⊢
    · refine ⟨List.mem_cons_of_mem a hmem, List.forall_mem_cons.mpr ⟨?_, hle⟩⟩
      exact (hle b List.mem_cons_self).trans hba
    · obtain ⟨ha, hl⟩ := List.forall_mem_cons.mp hle
      refine ⟨?_, List.forall_mem_cons.mpr ⟨ha, List.forall_mem_cons.mpr ⟨ha.trans hab, hl⟩⟩⟩
      exact List.mem_cons.mpr ((List.mem_cons.mp hmem).imp_right (List.mem_cons_of_mem b))

/-- The alarm that goes off first is one of those that are set, and it is not late for any. -/
theorem nextAlarm_le {now : Nat} {a : Nat × Alarm} (h : a ∈ s.alarms now) :
    ∃ time alarm, (time, alarm) ∈ s.alarms now ∧ s.nextAlarm now = some (time, alarm) ∧
      time ≤ a.1 := by
  unfold nextAlarm
  cases hset : s.alarms now with
  | nil => simp [hset] at h
  | cons b l =>
    obtain ⟨hmem, hle⟩ := foldl_earlier b l
    exact ⟨_, _, hmem, rfl, hle a (hset ▸ h)⟩

/-- What comes between two times: the sends that were woken try again, and then what is due. -/
def passing (takes : ConnectionId → Message → Bool) (now finish : Nat) : List (Moment × Input) :=
  let m : Moment := ⟨now, takes⟩
  (m, .resume) :: due takes finish maxAlarms now (s.resume m).1

theorem run_passing (takes : ConnectionId → Message → Bool) (now finish : Nat) :
    let resumed := s.resume ⟨now, takes⟩
    let rung := resumed.1.advance takes now finish
    s.run (s.passing takes now finish) = (rung.1, resumed.2 ++ rung.2) := by
  simp only [passing, run, step, run_due, advance]

/-- The input comes from outside: it is no alarm. -/
def Input.External : Input → Prop
  | .ring _ => False
  | _ => True

end Session

/-! ### The bench -/

namespace Bench.Station

variable (st : Station)

theorem session_become (r : Session × List Effect) : (st.become r).session = r.1 := by
  refine List.foldlRecOn (motive := fun st : Station => st.session = r.1) r.2 _ rfl ?_
  exact fun _ h _ _ => h

/-- What a session does changes nothing about which connections fail. -/
theorem takes_apply (e : Effect) : (st.apply e).takes = st.takes := by
  funext conn message
  have hsame (f : Line → Line) (c : ConnectionId) (hf : ∀ line, (f line).failing = line.failing) :
      ((st.lines.modify c f)[conn]?).any (fun line => !line.failing) =
        (st.lines[conn]?).any fun line => !line.failing := by
    rw [Array.getElem?_modify]
    split
    · cases st.lines[conn]? <;> simp [hf]
    · rfl
  unfold takes apply applyLines
  split
  · exact hsame _ _ fun _ => rfl
  · exact hsame _ _ fun _ => rfl
  · rfl

theorem takes_become (r : Session × List Effect) : (st.become r).takes = st.takes := by
  refine List.foldlRecOn (motive := fun st' : Station => st'.takes = st.takes) r.2 _ rfl ?_
  exact fun st' h e _ => (takes_apply st' e).trans h

/-- **A session on the bench is told what comes while time passes.** -/
theorem elapse_eq (now finish : Nat) :
    ((st.elapse now finish).1.session, (st.elapse now finish).2) =
      st.session.run (st.session.passing st.takes now finish) := by
  simp only [elapse, session_become, takes_become, Session.run_passing]

end Bench.Station

/-! ### Clocks -/

/-- A session, and what time it is. -/
structure Clocked where
  now : Nat
  session : Session

namespace Clocked

open Session (Input)

/-- What can happen to a session on a clock. -/
inductive Event where
  /-- Something comes from outside. -/
  | act (takes : ConnectionId → Message → Bool) (input : Input) (external : input.External)
  /-- Time passes. -/
  | pass (takes : ConnectionId → Message → Bool) (time : Nat)

/-- What time it is after an event. -/
def Event.finish (now : Nat) : Event → Nat
  | .act .. => now
  | .pass _ time => now + time

variable (k : Clocked)

/-- What the session is told when something happens: that, and what follows from it by now. An alarm
that is due at some time goes off before anything else happens at that time, also one that has just
been set without a delay. How long it is to an alarm counts from the input that sets it. -/
def inputs : Event → List (Moment × Input)
  | .act takes input _ =>
    let m : Moment := ⟨k.now, takes⟩
    (m, input) :: (k.session.step m input).1.passing takes k.now k.now
  | .pass takes time => k.session.passing takes k.now (k.now + time)

/-- Something happens. -/
def step (e : Event) : Clocked := ⟨e.finish k.now, (k.session.run (k.inputs e)).1⟩

/-- One thing after the other happens. -/
def run (k : Clocked) : List Event → Clocked
  | [] => k
  | e :: rest => (k.step e).run rest

/-- What the session is told in a run. -/
def history (k : Clocked) : List Event → List (Moment × Input)
  | [] => []
  | e :: rest => k.inputs e ++ (k.step e).history rest

/-- What the session does in a run, and when. -/
def chronicle (events : List Event) : List (Nat × Effect) :=
  k.session.chronicle (k.history events)

/-- **A session on a clock is a session.** -/
theorem run_session (events : List Event) :
    (k.run events).session = (k.session.run (k.history events)).1 := by
  induction events generalizing k with
  | nil => rfl
  | cons e events ih => rw [run, ih, history, Session.run_append, step]

theorem run_append (l l' : List Event) : k.run (l ++ l') = (k.run l).run l' := by
  induction l generalizing k with
  | nil => rfl
  | cons e l ih => exact ih _

theorem history_append (l l' : List Event) :
    k.history (l ++ l') = k.history l ++ (k.run l).history l' := by
  induction l generalizing k with
  | nil => rfl
  | cons e l ih => simp [history, run, ih]

theorem chronicle_cons (e : Event) (events : List Event) :
    k.chronicle (e :: events) = k.session.chronicle (k.inputs e) ++ (k.step e).chronicle events :=
  Session.chronicle_append ..

theorem chronicle_append (l l' : List Event) :
    k.chronicle (l ++ l') = k.chronicle l ++ (k.run l).chronicle l' := by
  simp only [chronicle, history_append, Session.chronicle_append, run_session]

/-- Clocks do not run backwards. -/
theorem now_le_step (e : Event) : k.now ≤ (k.step e).now := by
  cases e with
  | act => exact le_rfl
  | pass takes time => exact Nat.le_add_right k.now time

theorem now_le_run (events : List Event) : k.now ≤ (k.run events).now := by
  induction events generalizing k with
  | nil => exact le_rfl
  | cons e events ih => exact (k.now_le_step e).trans (ih (k.step e))

end Clocked

end Tether
