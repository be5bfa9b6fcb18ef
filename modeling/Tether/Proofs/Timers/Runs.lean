import Tether.Proofs.Timers.Handles

/-!
# Runs of the timers

What one request more or less does to all that fires. A task that is scheduled adds one firing, or
none (`Settled.schedule_perm`). To drop a handle takes nothing away (`Settled.forget_subperm`), and
to cancel takes away one firing at most (`Settled.cancel_perm`).

Main result: each task that is scheduled fires once or never, at its time, no matter what becomes
of other tasks and handles, and a handle tells whether its task fired (`fires_once_at_its_time`).
-/

namespace Tether.Timers

variable {s : Timers}

/-! ### One request more or less -/

/-- **What a task adds** to what fires is its own firing, or nothing. -/
theorem Settled.schedule_perm (hs : s.Settled) (label delay : Nat) (rest : List Request) :
    let k : Task := ⟨s.now, label, delay, rest⟩
    (s.serveAll (.schedule label delay :: rest)).1.Perm
      ((if k.Fires then [k.firing] else []) ++ (s.serveAll (.forget label :: rest)).1) := by
  intro k
  have hold : (s.timers.filter (·.Fires s.now (.schedule label delay :: rest))).map Timer.firing =
      (s.timers.filter (·.Fires s.now (.forget label :: rest))).map Timer.firing :=
    (s.map_firing_forget rest (Request.drops_schedule label delay) (by simp)).symm.trans
      (s.map_firing_forget rest (Request.drops_forget label) (by simp))
  have hnew : ([k].filter (·.Fires)).map Task.firing = if k.Fires then [k.firing] else [] := by
    by_cases hk : k.Fires <;> simp [hk]
  have hschedule := hs.serveAll_perm (.schedule label delay :: rest)
  rw [hold, tasks, Request.task?, Option.toList_some, List.filter_append, List.map_append, hnew]
    at hschedule
  refine hschedule.trans ((List.perm_append_comm_assoc _ _ _).trans ?_)
  exact (hs.serveAll_perm (.forget label :: rest)).symm.append_left _

/-- **To drop a handle prevents nothing** from firing. -/
theorem Settled.forget_subperm (hs : s.Settled) (label : Nat) (rest : List Request) :
    (s.serveAll rest).1.Subperm (s.serveAll (.forget label :: rest)).1 := by
  have hsub : (s.timers.filter (·.Fires s.now rest)).Sublist
      (s.timers.filter (·.Fires s.now (.forget label :: rest))) :=
    s.timers.monotone_filter_right fun t ht => decide_eq_true ((of_decide_eq_true ht).forget label)
  have hmore := ((hsub.map Timer.firing).append_right
    (((tasks s.now rest).filter (·.Fires)).map Task.firing)).subperm
  exact ((hs.serveAll_perm rest).subperm.trans hmore).trans
    (hs.serveAll_perm (.forget label :: rest)).symm.subperm

/-- **To cancel prevents one timer at most from firing**, compared to dropping the handle, and that
is the timer which the handle stands for. -/
theorem Settled.cancel_perm (hs : s.Settled) (hd : s.Distinct) (label : Nat)
    (rest : List Request) :
    ∃ stopped : List Timer, stopped.length ≤ 1 ∧
      (∀ t ∈ stopped, t ∈ s.timers ∧ Holds label t ∧ s.now < t.due) ∧
      (s.serveAll (.forget label :: rest)).1.Perm
        (stopped.map Timer.firing ++ (s.serveAll (.cancel label :: rest)).1) := by
  let toFire := s.timers.filter (·.Fires s.now (.forget label :: rest))
  let stopped := toFire.filter fun t => Holds label t ∧ s.now < t.due
  have hmem : ∀ t ∈ stopped, t ∈ s.timers ∧ Holds label t ∧ s.now < t.due := by
    intro t ht
    obtain ⟨ht, hstopped⟩ := List.mem_filter.mp ht
    exact ⟨(List.mem_filter.mp ht).1, of_decide_eq_true hstopped⟩
  refine ⟨stopped, ?_, hmem, ?_⟩
  · -- a label stands for one handle at most
    have hheld : stopped.filter (·.held) = stopped :=
      List.filter_eq_self.mpr fun t ht => (hmem t ht).2.1.1
    have hsub : stopped.Sublist s.timers := List.filter_sublist.trans List.filter_sublist
    have hsub := hsub.filter (·.held)
    rw [hheld] at hsub
    exact hd.length_le_one hsub fun t ht => (hmem t ht).2.1.2
  · have hleft : s.timers.filter (·.Fires s.now (.cancel label :: rest)) =
        toFire.filter fun t => !decide (Holds label t ∧ s.now < t.due) := by
      rw [List.filter_filter]
      refine List.filter_congr fun t _ => ?_
      rw [Bool.eq_iff_iff]
      simp [Timer.fires_cancel, and_comm]
    have hcancel := hs.serveAll_perm (.cancel label :: rest)
    have hsplit := (List.filter_append_perm (fun t => Holds label t ∧ s.now < t.due) toFire).map
      Timer.firing
    rw [hleft] at hcancel
    rw [List.map_append] at hsplit
    refine (hs.serveAll_perm (.forget label :: rest)).trans ((hsplit.symm.append_right _).trans ?_)
    rw [List.append_assoc]
    exact hcancel.symm.append_left _

/-! ### Runs -/

/-- **Each task fires once or never, at its time.** All that fires in a run is told by its tasks: a
task fires when the clock reaches its time, unless its handle was used to cancel it before. They
fire in the order of their times, and each with the request during which its time passes. A handle
that is held tells whether its task fired, and no two are held under one label. Wherever a task is
scheduled, it adds its own firing to what fires, or nothing. To drop a handle takes nothing away. To
cancel takes away one firing at most, compared to that: the one of the timer that the handle stands
for, if it is not due yet. And time that passes in two parts does the same as in one. -/
theorem fires_once_at_its_time (now : Nat) (requests : List Request) :
    let s : Timers := { now }
    let firings (requests : List Request) : List (Nat × Nat) := (s.serveAll requests).1
    let left := (s.serveAll requests).2
    ((firings requests).Perm (((tasks now requests).filter (·.Fires)).map Task.firing) ∧
      (firings requests).Pairwise (fun f f' => f.1 ≤ f'.1)) ∧
    (left.now = now + elapsed requests ∧
      ∀ r, ∀ f ∈ (left.serve r).1, left.now ≤ f.1 ∧ f.1 ≤ (left.serve r).2.now) ∧
    (left.handles.Perm
        (((tasks now requests).filter (·.Held)).map fun k => (k.label, decide k.Fires)) ∧
      left.handles.Pairwise (fun handle handle' => handle.1 < handle'.1)) ∧
    (∀ label delay rest,
      let k : Task := ⟨left.now, label, delay, rest⟩
      (firings (requests ++ .schedule label delay :: rest)).Perm
        ((if k.Fires then [k.firing] else []) ++ firings (requests ++ .forget label :: rest))) ∧
    (∀ label rest,
      (firings (requests ++ rest)).Subperm (firings (requests ++ .forget label :: rest))) ∧
    (∀ label rest, ∃ stopped : List Timer, stopped.length ≤ 1 ∧
      (∀ t ∈ stopped, t ∈ left.timers ∧ Holds label t ∧ left.now < t.due) ∧
      (firings (requests ++ .forget label :: rest)).Perm
        (stopped.map Timer.firing ++ firings (requests ++ .cancel label :: rest))) ∧
    ∀ time more rest, s.serveAll (requests ++ .advance (time + more) :: rest) =
      s.serveAll (requests ++ .advance time :: .advance more :: rest) := by
  intro s firings left
  have hnew : s.Settled := .new now
  have hs : left.Settled := hnew.serveAll requests
  have hd : left.Distinct := (Distinct.new now).serveAll requests
  simp only [firings, serveAll_append]
  refine ⟨⟨hnew.serveAll_perm requests, hnew.serveAll_pairwise requests⟩,
    ⟨now_serveAll s requests, fun r f hf => hs.serve_bounds hf⟩,
    ⟨handles_serveAll now requests, hd.handles_pairwise⟩, fun label delay rest => ?schedule,
    fun label rest => ?forget, fun label rest => ?cancel, fun time more rest => ?advance⟩
  case schedule =>
    refine ((hs.schedule_perm label delay rest).append_left _).trans ?_
    exact List.perm_append_comm_assoc _ _ _
  case forget => exact (List.subperm_append_left _).mpr (hs.forget_subperm label rest)
  case cancel =>
    obtain ⟨stopped, hlength, hmem, hperm⟩ := hs.cancel_perm hd label rest
    refine ⟨stopped, hlength, hmem, (hperm.append_left _).trans ?_⟩
    exact List.perm_append_comm_assoc _ _ _
  case advance => rw [serveAll_advance_add]

/-- Two timers are set for the same time under one label, and a third one under another, which is
cancelled. One fires at once, and is cancelled too late. -/
def crowd : List Request :=
  [.schedule 1 5, .schedule 1 5, .schedule 2 5, .schedule 3 0, .cancel 3, .advance 4, .cancel 2,
    .schedule 4 10, .advance 1, .schedule 5 0]

/-- The two under one label fire together, and one handle under it is held. The timer that is left
fires with a later request, unless it is stopped before. -/
theorem fires_once_at_its_time_crowd :
    let s : Timers := { now := 7 }
    let run := s.serveAll crowd
    run.1.Perm [(7, 3), (12, 1), (12, 1), (12, 5)] ∧
    run.2.handles.Perm [(1, true), (4, false), (5, true)] ∧
    ((21, 4) ∈ (run.2.serve (.advance 20)).1 ∧ run.2.now ≤ 21 ∧
      21 ≤ (run.2.serve (.advance 20)).2.now) ∧
    ∃ stopped : List Timer, stopped.length = 1 ∧
      ∀ t ∈ stopped, t ∈ run.2.timers ∧ Holds 4 t ∧ run.2.now < t.due := by
  intro s run
  obtain ⟨⟨hfires, -⟩, ⟨-, hbounds⟩, ⟨hhandles, -⟩, -, -, hcancel, -⟩ :=
    fires_once_at_its_time 7 crowd
  have hserved : (21, 4) ∈ (run.2.serve (.advance 20)).1 := (report_perm _).mem_iff.mpr (by decide)
  have hforget : (s.serveAll (crowd ++ .forget 4 :: [.advance 20])).1.length = 5 :=
    ((Settled.new 7).serveAll_perm _).length_eq.trans (by decide)
  have hstop : (s.serveAll (crowd ++ .cancel 4 :: [.advance 20])).1.length = 4 :=
    ((Settled.new 7).serveAll_perm _).length_eq.trans (by decide)
  obtain ⟨stopped, -, hstopped, hperm⟩ := hcancel 4 [.advance 20]
  have hperm : (s.serveAll (crowd ++ .forget 4 :: [.advance 20])).1.Perm
      (stopped.map Timer.firing ++ (s.serveAll (crowd ++ .cancel 4 :: [.advance 20])).1) := hperm
  have hlength := hperm.length_eq
  rw [hforget, List.length_append, hstop, List.length_map] at hlength
  exact ⟨hfires.trans (by decide), hhandles.trans (by decide), ⟨hserved, hbounds _ _ hserved⟩,
    stopped, by omega, hstopped⟩

/-- If more than thirty years are asked for, the task fires before. -/
theorem fires_after_thirty_years :
    let delay := Deadline.horizon + 1
    let requests : List Request := [.schedule 1 delay, .advance Deadline.horizon]
    (serveAll {} requests).1 = [(Deadline.horizon, 1)] ∧
      (serveAll {} requests).2.handles = [(1, true)] ∧
      (serveAll {} requests).2.now < 0 + delay := by
  intro delay requests
  have hfires := (Settled.new 0).serveAll_perm requests
  have htasks : ((tasks 0 requests).filter (·.Fires)).map Task.firing =
      [(Deadline.horizon, 1)] := by decide +kernel
  have hhandles := handles_serveAll 0 requests
  have hheld : ((tasks 0 requests).filter (·.Held)).map (fun k => (k.label, decide k.Fires)) =
      [(1, true)] := by decide +kernel
  rw [htasks] at hfires
  rw [hheld] at hhandles
  exact ⟨List.perm_singleton.mp hfires, List.perm_singleton.mp hhandles, by decide +kernel⟩

end Tether.Timers
