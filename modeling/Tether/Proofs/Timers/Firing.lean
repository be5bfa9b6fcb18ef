import Mathlib.Data.List.Perm.Subperm
import Tether.Proofs.Timers.Tasks

/-!
# What fires

Timers are settled if just those that are due have fired. A request leaves them settled
(`Settled.serve`), and what is to fire of them, and of the task that it schedules, either fires with
the request or is to fire after it (`Settled.serve_perm`). So all that fires with any requests is
what is to fire (`Settled.serveAll_perm`). It fires in the order of its times
(`Settled.serveAll_pairwise`), and how the time is cut up does not show (`serveAll_advance_add`).
-/

namespace Tether.Timers

variable {s : Timers} {t : Timer} {r : Request} {rest requests : List Request} {label now : Nat}

/-- **What is due has fired**, and nothing else. -/
def Settled (s : Timers) : Prop := ∀ t ∈ s.timers, t.fired = true ↔ t.due ≤ s.now

theorem Settled.new (now : Nat) : Settled { now } := nofun

theorem Settled.lt_due (hs : s.Settled) (ht : t ∈ s.timers) (hfired : t.fired = false) :
    s.now < t.due := by
  refine Nat.lt_of_not_le fun hdue => ?_
  simp [(hs t ht).mpr hdue] at hfired

/-! ### Firing -/

theorem pass_of_due (h : Due now t) : pass now t = { t with fired := true } := if_pos h

theorem pass_of_not_due (h : ¬ Due now t) : pass now t = t := if_neg h

theorem pass_pass {later : Nat} (h : now ≤ later) (t : Timer) :
    pass later (pass now t) = pass later t := by
  by_cases hdue : Due now t
  · have hlater : Due later t := ⟨hdue.1, Nat.le_trans hdue.2 h⟩
    have hagain : ¬ Due later { t with fired := true } := fun h => Bool.noConfusion h.1
    rw [pass_of_due hdue, pass_of_due hlater, pass_of_not_due hagain]
  · rw [pass_of_not_due hdue]

theorem Settled.pass_eq (hs : s.Settled) (ht : t ∈ s.timers) : pass s.now t = t :=
  pass_of_not_due fun hdue => Nat.not_le.mpr (hs.lt_due ht hdue.1) hdue.2

/-- Of the timers that did not fire, those that are not due are left. -/
theorem filter_fire (s : Timers) {p : Timer → Prop} [DecidablePred p]
    (hp : ∀ t, p t → t.fired = false) :
    s.fire.2.timers.filter (p ·) =
      (s.timers.filter (p ·)).filter fun t => !decide (Due s.now t) := by
  have hpass (t : Timer) : p (pass s.now t) ↔ ¬ Due s.now t ∧ p t := by
    by_cases hdue : Due s.now t
    · have hfired : ¬ p (pass s.now t) := fun h => by simpa [pass, hdue] using hp _ h
      simp [hfired, hdue]
    · simp [pass_of_not_due hdue, hdue]
  have hkept : s.fire.2.timers.filter (p ·) = (s.timers.map (pass s.now)).filter (p ·) := by
    rw [fire, List.filter_filter]
    refine List.filter_congr fun t _ => ?_
    have hfired := hp t
    simp +contextual [hfired]
  have hleft : (s.timers.map (pass s.now)).filter (p ·) =
      ((s.timers.filter (p ·)).filter fun t => !decide (Due s.now t)).map (pass s.now) := by
    rw [List.filter_map, List.filter_filter]
    congr 2
    funext t
    simp [hpass]
  rw [hkept, hleft]
  refine (List.map_congr_left fun t ht => ?_).trans (List.map_id _)
  exact pass_of_not_due (by simpa using (List.mem_filter.mp ht).2)

/-- **What is to fire fires now, or is to fire later.** -/
theorem fire_perm (s : Timers) (rest : List Request) :
    (s.fire.1 ++ s.fire.2.timers.filter (·.Fires s.now rest)).Perm
      (s.timers.filter (·.Fires s.now rest)) := by
  have hnow : s.fire.1 = (s.timers.filter (·.Fires s.now rest)).filter (Due s.now) := by
    rw [List.filter_filter]
    refine List.filter_congr fun t _ => ?_
    simpa using Timer.fires_of_due
  rw [hnow, s.filter_fire fun t ht => ht.1]
  exact List.filter_append_perm _ _

/-! ### Requests one by one -/

theorem now_perform (s : Timers) (r : Request) : (s.perform r).now = s.now + r.time := by
  cases r <;> rfl

/-- A request leaves alone when a timer is due and whether it fired, unless it sets the timer. -/
theorem mem_perform (ht : t ∈ (s.perform r).timers) :
    (s.now ≤ t.due ∧ t.fired = false) ∨
      ∃ t₀ ∈ s.timers, t.due = t₀.due ∧ t.fired = t₀.fired := by
  have hforgotten {label : Nat} (ht : t ∈ (s.forget label).timers) :
      ∃ t₀ ∈ s.timers, t.due = t₀.due ∧ t.fired = t₀.fired := by
    obtain ⟨t₀, hmem, rfl⟩ := List.mem_map.mp ht
    exact ⟨t₀, hmem, by split <;> rfl, by split <;> rfl⟩
  cases r with
  | schedule label delay =>
    rcases List.mem_append.mp ht with ht | ht
    · exact .inr (hforgotten ht)
    · obtain rfl := List.mem_singleton.mp ht
      exact .inl ⟨Deadline.le_after s.now delay, rfl⟩
  | cancel label => exact .inr ⟨t, (List.mem_filter.mp ht).1, rfl, rfl⟩
  | forget label => exact .inr (hforgotten ht)
  | advance time => exact .inr ⟨t, ht, rfl, rfl⟩

theorem map_firing_forget (s : Timers) (rest : List Request) (hr : r.Drops label)
    (hcancel : r ≠ .cancel label) :
    ((s.forget label).timers.filter (·.Fires s.now rest)).map Timer.firing =
      (s.timers.filter (·.Fires s.now (r :: rest))).map Timer.firing := by
  have hfires : (fun t : Timer => decide (t.Fires s.now rest)) ∘ Timer.forgotten label =
      fun t => decide (t.Fires s.now (r :: rest)) :=
    funext fun t => decide_eq_decide.mpr (Timer.fires_forgotten hr hcancel)
  show ((s.timers.map (Timer.forgotten label)).filter _).map _ = _
  rw [List.filter_map, List.map_map, hfires]
  exact List.map_congr_left fun t _ => Timer.firing_forgotten label t

theorem Settled.filter_cancel (hs : s.Settled) (label : Nat) (rest : List Request) :
    (s.cancel label).timers.filter (·.Fires s.now rest) =
      s.timers.filter (·.Fires s.now (.cancel label :: rest)) := by
  have hdrops := Request.drops_cancel label
  rw [cancel, List.filter_filter]
  refine List.filter_congr fun t ht => ?_
  by_cases hholds : Holds label t
  · -- what did not fire yet can be cancelled in time
    have hnot : ¬ t.Fires s.now (.cancel label :: rest) := by
      rw [Timer.fires_cons_of_holds hdrops hholds]
      exact fun ⟨hfired, _, hcancel⟩ => hcancel ⟨rfl, hs.lt_due ht hfired⟩
    simp [hholds, hnot]
  · simp [hholds, Timer.fires_cons_of_not_holds hdrops hholds]

theorem map_firing_timer (k : Task) :
    ([k.timer].filter (·.Fires k.since k.rest)).map Timer.firing =
      ([k].filter (·.Fires)).map Task.firing := by
  have hfires : decide (k.timer.Fires k.since k.rest) = decide k.Fires :=
    decide_eq_decide.mpr (Timer.fires_timer k)
  rw [List.filter_singleton, List.filter_singleton, hfires]
  cases decide k.Fires <;> rfl

/-- **A request decides about its own timer**, and adds its task. -/
theorem Settled.map_firing_perform (hs : s.Settled) (r : Request) (rest : List Request) :
    ((s.perform r).timers.filter (·.Fires (s.perform r).now rest)).map Timer.firing =
      (s.timers.filter (·.Fires s.now (r :: rest))).map Timer.firing ++
        ((r.task? s.now rest).toList.filter (·.Fires)).map Task.firing := by
  cases r with
  | schedule label delay =>
    let k : Task := ⟨s.now, label, delay, rest⟩
    have hforget := s.map_firing_forget rest (Request.drops_schedule label delay) (by simp)
    show (((s.forget label).timers ++ [k.timer]).filter (·.Fires s.now rest)).map Timer.firing = _
    rw [List.filter_append, List.map_append, hforget]
    exact congrArg _ (map_firing_timer k)
  | cancel label =>
    show ((s.cancel label).timers.filter (·.Fires s.now rest)).map Timer.firing = _
    rw [hs.filter_cancel]
    exact (List.append_nil _).symm
  | forget label =>
    have hforget := s.map_firing_forget rest (Request.drops_forget label) (by simp)
    exact hforget.trans (List.append_nil _).symm
  | advance time =>
    show (s.timers.filter (·.Fires (s.now + time) rest)).map Timer.firing = _
    simp [Timer.fires_advance, Request.task?]

theorem now_serve (s : Timers) (r : Request) : (s.serve r).2.now = s.now + r.time :=
  s.now_perform r

/-- **All that is due fires with every request.** -/
theorem Settled.serve (hs : s.Settled) (r : Request) : (s.serve r).2.Settled := by
  intro t ht
  obtain ⟨t₁, ht₁, rfl⟩ := List.mem_map.mp (List.mem_filter.mp ht).1
  -- what had fired before was due before
  have hbefore : t₁.fired = true → t₁.due ≤ (s.perform r).now := by
    rw [now_perform]
    rcases mem_perform ht₁ with ⟨-, hfired⟩ | ⟨t₀, ht₀, hdue, hfired⟩
    · simp [hfired]
    · rw [hdue, hfired]
      exact fun h => Nat.le_add_right_of_le ((hs t₀ ht₀).mp h)
  show _ ↔ _ ≤ (s.perform r).now
  by_cases hdue : Due (s.perform r).now t₁
  · simp [pass, hdue, hdue.2]
  · rw [pass_of_not_due hdue]
    refine ⟨hbefore, fun hle => ?_⟩
    by_contra hfired
    exact hdue ⟨by simpa using hfired, hle⟩

theorem report_perm (fired : List Timer) : (report fired).Perm (fired.map Timer.firing) :=
  (List.mergeSort_perm fired before).map _

/-- **Nothing fires early or late**: its time is one that passes with the request. -/
theorem Settled.serve_bounds (hs : s.Settled) {f : Nat × Nat} (hf : f ∈ (s.serve r).1) :
    s.now ≤ f.1 ∧ f.1 ≤ (s.serve r).2.now := by
  obtain ⟨t, ht, rfl⟩ := List.mem_map.mp ((report_perm _).mem_iff.mp hf)
  obtain ⟨hmem, hdue⟩ := List.mem_filter.mp ht
  obtain ⟨hfired, hdue⟩ : Due (s.perform r).now t := of_decide_eq_true hdue
  refine ⟨?_, hdue⟩
  rcases mem_perform hmem with ⟨hset, -⟩ | ⟨t₀, ht₀, htime, hsame⟩
  · exact hset
  · have hlt := hs.lt_due ht₀ (hsame.symm.trans hfired)
    show s.now ≤ t.due
    omega

/-- **What is to fire fires with the next request, or is to fire after it.** -/
theorem Settled.serve_perm (hs : s.Settled) (r : Request) (rest : List Request) :
    ((s.serve r).1 ++
      ((s.serve r).2.timers.filter (·.Fires (s.serve r).2.now rest)).map Timer.firing).Perm
      ((s.timers.filter (·.Fires s.now (r :: rest))).map Timer.firing ++
        ((r.task? s.now rest).toList.filter (·.Fires)).map Task.firing) := by
  rw [← hs.map_firing_perform]
  have hfire := ((s.perform r).fire_perm rest).map Timer.firing
  rw [List.map_append] at hfire
  exact ((report_perm _).append_right _).trans hfire

/-! ### Requests one after the other -/

theorem serveAll_append (s : Timers) (requests rest : List Request) :
    s.serveAll (requests ++ rest) =
      ((s.serveAll requests).1 ++ ((s.serveAll requests).2.serveAll rest).1,
        ((s.serveAll requests).2.serveAll rest).2) := by
  induction requests generalizing s with
  | nil => rfl
  | cons r requests ih => simp only [List.cons_append, serveAll, ih, List.append_assoc]

theorem now_serveAll (s : Timers) (requests : List Request) :
    (s.serveAll requests).2.now = s.now + elapsed requests := by
  induction requests generalizing s with
  | nil => rfl
  | cons r rest ih =>
    have hmore := ih (s.serve r).2
    rw [now_serve] at hmore
    rw [elapsed_cons, ← Nat.add_assoc]
    exact hmore

theorem Settled.serveAll (hs : s.Settled) (requests : List Request) :
    (s.serveAll requests).2.Settled := by
  induction requests generalizing s with
  | nil => exact hs
  | cons r rest ih => exact ih (hs.serve r)

/-- **What fires is what is to fire**, of the timers that are set and of the tasks. -/
theorem Settled.serveAll_perm (hs : s.Settled) (requests : List Request) :
    (s.serveAll requests).1.Perm
      ((s.timers.filter (·.Fires s.now requests)).map Timer.firing ++
        ((tasks s.now requests).filter (·.Fires)).map Task.firing) := by
  induction requests generalizing s with
  | nil =>
    have hnone : s.timers.filter (·.Fires s.now []) = [] := by
      refine List.filter_eq_nil_iff.mpr fun t ht hfires => ?_
      obtain ⟨hfired, hdue, -⟩ : t.Fires s.now [] := of_decide_eq_true hfires
      exact Nat.not_le.mpr (hs.lt_due ht hfired) hdue
    simp [Timers.serveAll, tasks, hnone]
  | cons r rest ih =>
    have hone := hs.serve_perm r rest
    have hmore := ih (hs.serve r)
    rw [now_serve] at hone hmore
    simp only [Timers.serveAll, tasks, List.filter_append, List.map_append]
    refine (hmore.append_left _).trans ?_
    rw [← List.append_assoc, ← List.append_assoc]
    exact hone.append_right _

/-! ### The order of what fires -/

/-- Earlier, or at the same time and under a label that is not higher. -/
def Precedes (f f' : Nat × Nat) : Prop := f.1 < f'.1 ∨ f.1 = f'.1 ∧ f.2 ≤ f'.2

theorem before_iff (t t' : Timer) : before t t' = true ↔ Precedes t.firing t'.firing := by
  simp [before, Precedes, Timer.firing]

theorem report_pairwise (fired : List Timer) : (report fired).Pairwise Precedes := by
  have htrans (a b c : Timer) : before a b = true → before b c = true → before a c = true := by
    simp only [before_iff, Precedes]
    omega
  have htotal (a b : Timer) : (before a b || before b a) = true := by
    simp only [Bool.or_eq_true, before_iff, Precedes]
    omega
  refine List.pairwise_map.mpr ((List.pairwise_mergeSort htrans htotal fired).imp fun h => ?_)
  exact (before_iff _ _).mp h

/-- **Reports of times that follow on each other** are one report. -/
theorem report_append {fired early late : List Timer} (hperm : fired.Perm (early ++ late))
    (h : ∀ t ∈ early, ∀ t' ∈ late, t.due < t'.due) :
    report fired = report early ++ report late := by
  have hreports : (report fired).Perm (report early ++ report late) := by
    have hall := (report_perm fired).trans (hperm.map Timer.firing)
    rw [List.map_append] at hall
    exact hall.trans ((report_perm early).append (report_perm late)).symm
  refine hreports.eq_of_pairwise ?_ (report_pairwise fired)
    (List.pairwise_append.mpr ⟨report_pairwise early, report_pairwise late, ?_⟩)
  · rintro ⟨time, label⟩ ⟨time', label'⟩ - - h h'
    simp only [Precedes] at h h'
    simp only [Prod.mk.injEq]
    omega
  · intro f hf f' hf'
    obtain ⟨t, ht, rfl⟩ := List.mem_map.mp ((report_perm early).mem_iff.mp hf)
    obtain ⟨t', ht', rfl⟩ := List.mem_map.mp ((report_perm late).mem_iff.mp hf')
    exact .inl (h t ht t' ht')

theorem Settled.le_of_mem_serveAll (hs : s.Settled) {f : Nat × Nat}
    (hf : f ∈ (s.serveAll requests).1) : s.now ≤ f.1 := by
  induction requests generalizing s with
  | nil => cases hf
  | cons r rest ih =>
    rcases List.mem_append.mp hf with hf | hf
    · exact (hs.serve_bounds hf).1
    · have hlater := ih (hs.serve r) hf
      rw [now_serve] at hlater
      omega

/-- **What fires later is due later**, or at the same time. -/
theorem Settled.serveAll_pairwise (hs : s.Settled) (requests : List Request) :
    (s.serveAll requests).1.Pairwise fun f f' => f.1 ≤ f'.1 := by
  induction requests generalizing s with
  | nil => exact .nil
  | cons r rest ih =>
    refine List.pairwise_append.mpr ⟨?_, ih (hs.serve r), fun f hf f' hf' => ?_⟩
    · refine (report_pairwise _).imp fun h => ?_
      unfold Precedes at h
      omega
    · exact Nat.le_trans (hs.serve_bounds hf).2 ((hs.serve r).le_of_mem_serveAll hf')

/-! ### Passing time -/

/-- What fires on the way to a later time does not fire then, and leaves what is left then. -/
theorem fire_advance (s : Timers) (time : Nat) :
    (s.fire.2.advance time).fire =
      ((s.advance time).fire.1.filter fun t => !decide (Due s.now t), (s.advance time).fire.2) := by
  refine Prod.ext (s.filter_fire fun t ht => ht.1) ?_
  have hpass (t : Timer) := pass_pass (Nat.le_add_right s.now time) t
  -- a timer that is kept later is kept now
  have hkept (t : Timer) :
      (pass (s.now + time) t).held = true ∨ ¬ (pass (s.now + time) t).fired = true →
        t.held = true ∨ ¬ t.fired = true := by
    unfold pass
    split <;> simp +contextual
  show Timers.mk _ _ = Timers.mk _ _
  congr 1
  simp only [fire, advance, List.filter_map, List.filter_filter, List.map_map, Function.comp_def,
    hpass]
  refine congrArg _ (List.filter_congr fun t _ => ?_)
  have hkept := hkept (pass s.now t)
  rw [hpass] at hkept
  simpa using hkept

theorem serve_advance_add (s : Timers) (time more : Nat) :
    s.serve (.advance (time + more)) =
      ((s.serve (.advance time)).1 ++ ((s.serve (.advance time)).2.serve (.advance more)).1,
        ((s.serve (.advance time)).2.serve (.advance more)).2) := by
  have hadd : s.advance (time + more) = (s.advance time).advance more := by
    simp [advance, Nat.add_assoc]
  have hfire := (s.advance time).fire_advance more
  simp only [serve, perform, hadd, hfire]
  refine Prod.ext (report_append ?_ fun t ht t' ht' => ?_) rfl
  · -- what is due on the way is due at the end
    have hearly : (s.advance time).fire.1 =
        ((s.advance time).advance more).fire.1.filter (Due (s.advance time).now) := by
      show s.timers.filter _ = (s.timers.filter _).filter _
      rw [List.filter_filter]
      refine List.filter_congr fun t _ => ?_
      by_cases hdue : Due (s.now + time) t
      · have hlater : Due (s.now + time + more) t := ⟨hdue.1, Nat.le_add_right_of_le hdue.2⟩
        simp [advance, hdue, hlater]
      · simp [advance, hdue]
    rw [hearly]
    exact (List.filter_append_perm _ _).symm
  · have hdue : Due (s.advance time).now t := of_decide_eq_true (List.mem_filter.mp ht).2
    obtain ⟨hmem, hnot⟩ := List.mem_filter.mp ht'
    have hlate : Due ((s.advance time).advance more).now t' :=
      of_decide_eq_true (List.mem_filter.mp hmem).2
    have hnot : ¬ Due (s.advance time).now t' := by simpa using hnot
    exact Nat.lt_of_le_of_lt hdue.2 (Nat.lt_of_not_le fun hle => hnot ⟨hlate.1, hle⟩)

/-- **However the time is cut up**, the same fires, in the same order. -/
theorem serveAll_advance_add (s : Timers) (time more : Nat) (rest : List Request) :
    s.serveAll (.advance (time + more) :: rest) =
      s.serveAll (.advance time :: .advance more :: rest) := by
  simp only [serveAll, serve_advance_add, List.append_assoc]

end Tether.Timers
