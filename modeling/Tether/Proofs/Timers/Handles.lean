import Mathlib.Data.List.Nodup
import Tether.Proofs.Timers.Firing

/-!
# Handles

A request drops the handle that it is about, and no other (`filter_perform`). A label that is used
again stands for the new handle only, so no two handles that are held have the same one
(`Distinct.serveAll`). What is held in the end are the handles of the tasks that nothing drops, and
each of them tells whether its task fired (`handles_serveAll`).
-/

namespace Tether.Timers

variable {s : Timers} {t : Timer} {r : Request} {rest requests : List Request} {label now : Nat}

/-! ### Requests one by one -/

theorem filter_forget (s : Timers) (hr : r.Drops label) :
    (s.forget label).timers.filter (·.held) =
      (s.timers.filter (·.held)).filter fun t => !decide (r.Drops t.label) := by
  have hheld (t : Timer) :
      (t.forgotten label).held = true ↔ t.held = true ∧ ¬ r.Drops t.label := by
    unfold Timer.forgotten
    split
    · next hholds => simp [hholds.2 ▸ hr]
    · next hholds =>
      exact ⟨fun h => ⟨h, fun hdrops => hholds ⟨h, hdrops.label_eq hr⟩⟩, And.left⟩
  have hother : ∀ t ∈ s.timers.filter fun t => (t.forgotten label).held, t.forgotten label = t := by
    intro t ht
    have hkept := (hheld t).mp (List.mem_filter.mp ht).2
    exact if_neg fun hholds : Holds label t => hkept.2 (hholds.2 ▸ hr)
  show (s.timers.map (Timer.forgotten label)).filter _ = _
  rw [List.filter_map, List.filter_filter]
  refine (List.map_congr_left hother).trans ?_
  rw [List.map_id']
  refine List.filter_congr fun t _ => ?_
  rw [Bool.eq_iff_iff, hheld]
  simp [and_comm]

/-- **The handles that are held after a request** are those that it does not drop, and a new one. -/
theorem filter_perform (s : Timers) (r : Request) (rest : List Request) :
    (s.perform r).timers.filter (·.held) =
      (s.timers.filter (·.held)).filter (fun t => !decide (r.Drops t.label)) ++
        (r.task? s.now rest).toList.map Task.timer := by
  cases r with
  | schedule label delay =>
    show ((s.forget label).timers ++ [Task.timer ⟨s.now, label, delay, rest⟩]).filter _ = _
    rw [List.filter_append, s.filter_forget (Request.drops_schedule label delay)]
    rfl
  | cancel label =>
    refine Eq.trans ?_ (List.append_nil _).symm
    show (s.timers.filter _).filter _ = _
    rw [List.filter_filter, List.filter_filter]
    refine List.filter_congr fun t _ => ?_
    by_cases hheld : t.held = true
    · simp [hheld, Holds, Request.Drops, Request.label?, eq_comm]
    · simp [hheld]
  | forget label =>
    exact (s.filter_forget (Request.drops_forget label)).trans (List.append_nil _).symm
  | advance time => simp [perform, advance, Request.task?, Request.Drops, Request.label?]

theorem held_pass (now : Nat) (t : Timer) : (pass now t).held = t.held := by
  unfold pass
  split <;> rfl

theorem label_pass (now : Nat) (t : Timer) : (pass now t).label = t.label := by
  unfold pass
  split <;> rfl

theorem filter_serve (s : Timers) (r : Request) (rest : List Request) :
    (s.serve r).2.timers.filter (·.held) =
      ((s.timers.filter (·.held)).filter (fun t => !decide (r.Drops t.label)) ++
        (r.task? s.now rest).toList.map Task.timer).map (pass (s.serve r).2.now) := by
  rw [← filter_perform]
  show (((s.perform r).timers.map _).filter _).filter _ = _
  rw [List.filter_filter, List.filter_map]
  refine congrArg _ (List.filter_congr fun t _ => ?_)
  simp +contextual [held_pass]

/-! ### Labels -/

/-- **A label stands for one handle at most.** -/
def Distinct (s : Timers) : Prop := ((s.timers.filter (·.held)).map (·.label)).Nodup

theorem Distinct.new (now : Nat) : Distinct { now } := .nil

/-- A label that is used again stands for the new handle only. -/
theorem Distinct.serve (h : s.Distinct) (r : Request) : (s.serve r).2.Distinct := by
  have hlabels : (fun t : Timer => t.label) ∘ pass (s.serve r).2.now = fun t => t.label :=
    funext (label_pass _)
  unfold Distinct
  rw [filter_serve s r [], List.map_map, hlabels, List.map_append]
  refine List.nodup_append.mpr ⟨h.sublist (List.filter_sublist.map _), ?_, ?_⟩
  · cases r with
    | schedule label delay => exact List.pairwise_singleton _ _
    | _ => exact .nil
  · rintro label hold label' hnew rfl
    obtain ⟨t, ht, rfl⟩ := List.mem_map.mp hold
    obtain ⟨t', ht', hsame⟩ := List.mem_map.mp hnew
    obtain ⟨k, hk, rfl⟩ := List.mem_map.mp ht'
    have hdrops : r.Drops k.label := (Request.eq_of_mem_task? hk).2.2
    have hnot : ¬ r.Drops t.label := by simpa using (List.mem_filter.mp ht).2
    exact hnot (hsame ▸ hdrops)

theorem Distinct.serveAll (h : s.Distinct) (requests : List Request) :
    (s.serveAll requests).2.Distinct := by
  induction requests generalizing s with
  | nil => exact h
  | cons r rest ih => exact ih (h.serve r)

theorem Distinct.length_le_one (h : s.Distinct) {timers : List Timer}
    (hsub : timers.Sublist (s.timers.filter (·.held)))
    (hlabel : ∀ t ∈ timers, t.label = label) : timers.length ≤ 1 := by
  have hnodup : (timers.map fun t => t.label).Nodup := List.Nodup.sublist (hsub.map _) h
  have hsame : (timers.map fun t => t.label) = List.replicate timers.length label :=
    List.eq_replicate_iff.mpr ⟨List.length_map _, List.forall_mem_map.mpr hlabel⟩
  rw [hsame] at hnodup
  exact List.nodup_replicate.mp hnodup

theorem Distinct.handles_pairwise (h : s.Distinct) :
    s.handles.Pairwise fun handle handle' => handle.1 < handle'.1 := by
  let byLabel (t t' : Timer) : Bool := t.label ≤ t'.label
  have htrans (a b c : Timer) : byLabel a b = true → byLabel b c = true → byLabel a c = true := by
    simp only [byLabel, decide_eq_true_eq]
    omega
  have htotal (a b : Timer) : (byLabel a b || byLabel b a) = true := by
    simp only [byLabel, Bool.or_eq_true, decide_eq_true_eq]
    omega
  have hle := List.pairwise_mergeSort htrans htotal (s.timers.filter (·.held))
  have hlabels := (List.mergeSort_perm (s.timers.filter (·.held)) byLabel).map fun t => t.label
  have hne := List.pairwise_map.mp (hlabels.nodup_iff.mpr h)
  refine List.pairwise_map.mpr ((hle.and hne).imp fun ⟨hle, hne⟩ => ?_)
  exact Nat.lt_of_le_of_ne (of_decide_eq_true hle) hne

/-! ### Requests one after the other -/

theorem filter_keeps_task? (r : Request) (now : Nat) (rest : List Request) :
    ((r.task? now rest).toList.map Task.timer).filter (fun t => Keeps t.label rest) =
      ((r.task? now rest).toList.filter (·.Held)).map Task.timer := by
  rw [List.filter_map]
  refine congrArg _ (List.filter_congr fun k hk => decide_eq_decide.mpr ?_)
  rw [Task.Held, (Request.eq_of_mem_task? hk).2.1]
  rfl

/-- **The handles that are held after some requests**: those that were held before, and those of
the tasks that were scheduled, as far as nothing drops them. -/
theorem Settled.filter_serveAll (hs : s.Settled) (requests : List Request) :
    (s.serveAll requests).2.timers.filter (·.held) =
      ((s.timers.filter (·.held)).filter (fun t => Keeps t.label requests) ++
        ((tasks s.now requests).filter (·.Held)).map Task.timer).map
          (pass (s.now + elapsed requests)) := by
  induction requests generalizing s with
  | nil =>
    have hkeeps (t : Timer) : Keeps t.label [] := nofun
    have hpass : ∀ t ∈ s.timers.filter (·.held), pass s.now t = t :=
      fun t ht => hs.pass_eq (List.mem_filter.mp ht).1
    simp only [Timers.serveAll, tasks, hkeeps, decide_true, List.filter_true, List.filter_nil,
      List.map_nil, List.append_nil]
    exact ((List.map_congr_left hpass).trans (List.map_id _)).symm
  | cons r rest ih =>
    have hmore := ih (hs.serve r)
    rw [filter_serve s r rest, now_serve] at hmore
    have hkept : ((s.timers.filter (·.held)).filter fun t => !decide (r.Drops t.label)).filter
        (fun t => Keeps t.label rest) =
          (s.timers.filter (·.held)).filter fun t => Keeps t.label (r :: rest) := by
      rw [List.filter_filter]
      refine List.filter_congr fun t _ => ?_
      simp [keeps_cons, and_comm]
    -- what fires with the first request keeps its label, and fires once
    have hlabels : (fun t : Timer => decide (Keeps t.label rest)) ∘ pass (s.now + r.time) =
        fun t => decide (Keeps t.label rest) := funext fun t => by simp [label_pass]
    have honce : pass (s.now + r.time + elapsed rest) ∘ pass (s.now + r.time) =
        pass (s.now + r.time + elapsed rest) := funext (pass_pass (Nat.le_add_right _ _))
    rw [List.filter_map, hlabels, List.filter_append, hkept, filter_keeps_task?] at hmore
    rw [List.map_append, List.map_map, honce, ← List.map_append, List.append_assoc,
      ← List.map_append, ← List.filter_append, Nat.add_assoc, ← elapsed_cons] at hmore
    exact hmore

theorem handles_perm (s : Timers) :
    s.handles.Perm ((s.timers.filter (·.held)).map fun t => (t.label, t.fired)) :=
  (List.mergeSort_perm _ _).map _

theorem pass_timer (now : Nat) (k : Task) :
    pass now k.timer = { k.timer with fired := decide (k.due ≤ now) } := by
  by_cases hdue : k.due ≤ now
  · have htimer : Due now k.timer := ⟨rfl, hdue⟩
    simp [pass_of_due htimer, hdue]
  · rw [pass_of_not_due fun h => hdue h.2]
    simp [hdue, Task.timer]

/-- **A handle that is held tells whether its task fired.** -/
theorem handles_serveAll (now : Nat) (requests : List Request) :
    (serveAll { now } requests).2.handles.Perm
      (((tasks now requests).filter (·.Held)).map fun k => (k.label, decide k.Fires)) := by
  have hheld := (Settled.new now).filter_serveAll requests
  have hperm := (serveAll { now } requests).2.handles_perm
  rw [hheld, List.filter_nil, List.filter_nil, List.nil_append, List.map_map, List.map_map] at hperm
  refine hperm.trans (.of_eq (List.map_congr_left fun k hk => ?_))
  obtain ⟨hmem, hk⟩ := List.mem_filter.mp hk
  have hfires : k.Fires ↔ k.due ≤ now + elapsed requests := by
    rw [(of_decide_eq_true hk : k.Held).fires_iff, Task.Reached, clock_of_mem_tasks hmem]
  simp only [Function.comp_apply, pass_timer, hfires]
  rfl

end Tether.Timers
