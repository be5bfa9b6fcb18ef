import Mathlib.Data.List.Induction
import Tether.Proofs.Session.Noted
import Tether.Proofs.Session.Window

/-!
# Acknowledgements of an idle session

A session that is connected acknowledges at regular ticks what it holds back, so when nothing else
happens for an interval nothing is held back any more (`Sound.flushed_passing`). That does not mean
that the peer was told. A client notes as acknowledged what it tells on a connection that is pending
beside the active one, and what it would tell on the active one if it had something to say when it
completed the handshake (`Diverts`). If the active connection hears nothing after that, what was
received went astray (`Astray`).

Main result: an idle session has told the peer on its active connection all that was received,
unless something went astray, which on a server it never does (`Clocked.told_when_idle`).
-/

namespace Tether

open Transmission (handedTo handedTo_append handedTo_of_eq handedTo_of_ne acknowledgements
  acknowledgements_append mem_acknowledgements told told_append told_le le_told told_of_silent
  told_of_forall)

namespace Session

variable {m : Moment} {s s' : Session} {t : List Transmission} {a : List Bytes} {c : ConnectionId}
  {input : Input} {inputs : List (Moment × Input)} {now finish : Nat} {n : Int}

/-! ### When the session was created -/

theorem Moves.created (h : Moves m s s' t a) : s'.created = s.created := by
  induction h with
  | nil => rfl
  | cons hm _ ih =>
    rw [ih]
    cases hm <;> rfl

theorem Goes.created (h : Goes m s s' t a) : s'.created = s.created := by
  cases h with
  | acts h => exact h.created
  | opens h => cases h <;> rfl
  | hears h => cases h <;> rfl
  | refuses => rfl

theorem Coherent.created_run (hs : s.Coherent) (inputs : List (Moment × Input)) :
    (s.run inputs).1.created = s.created := by
  induction inputs generalizing s with
  | nil => rfl
  | cons i inputs ih => exact (ih (hs.step i.1 i.2)).trans (hs.step_goes i.1 i.2).created

/-! ### Ticks -/

/-- The next tick is not more than one interval away. -/
theorem nextTick_le {created now : Nat} (h : created ≤ now) (every : Nat) :
    nextTick created every now ≤ now + every := by
  have hle := Nat.mul_div_le (now - created) every
  unfold nextTick
  rw [Nat.mul_add]
  omega

/-- Until it comes there is no later one. -/
theorem nextTick_le_of_lt {created every now now' : Nat} (hpos : 0 < every)
    (h : now' < nextTick created every now) :
    nextTick created every now' ≤ nextTick created every now := by
  unfold nextTick at *
  have hnext : 0 < every * ((now - created) / every + 1) := Nat.mul_pos hpos (Nat.succ_pos _)
  have hlt : (now' - created) / every < (now - created) / every + 1 :=
    Nat.div_lt_of_lt_mul (by omega)
  exact Nat.add_le_add_left (Nat.mul_le_mul_left every hlt) created

/-- The next alarm of a session that is connected and acknowledges at ticks. -/
theorem Sound.nextAlarm_of_active (hs : s.Sound) (hc : s.active = some c) {every : Nat}
    (hidle : s.config.idleFlush = some every) (hpos : 0 < every) (now : Nat) :
    let tick := nextTick s.created (Deadline.reach every) now
    (¬ s.HoldsBack ∧ s.nextAlarm now = none) ∨
      (s.HoldsBack ∧ s.nextAlarm now = some (tick, .idle)) ∨
      ∃ p, s.pending = some p ∧ (s.HoldsBack → p.deadline < tick) ∧
        s.nextAlarm now = some (p.deadline, .handshake p.conn) := by
  intro tick
  have hwindow : s.windowEnd = none := by
    by_contra hw
    obtain ⟨w, hw⟩ := Option.ne_none_iff_exists'.mp hw
    have hnone := (hs.2.of_window hw).2.2
    rw [show s.active = none from hnone] at hc
    cases hc
  unfold nextAlarm alarms
  by_cases hheld : s.HoldsBack
  · have hticks : s.idleAlarm now = [(tick, .idle)] := by simp [idleAlarm, hidle, hpos, hheld, tick]
    cases hp : s.pending with
    | none => exact .inr (.inl ⟨hheld, by simp [hticks, hwindow]⟩)
    | some p =>
      by_cases hlt : p.deadline < tick
      · exact .inr (.inr ⟨p, rfl, fun _ => hlt, by simp [hticks, hwindow, earlier, hlt]⟩)
      · exact .inr (.inl ⟨hheld, by simp [hticks, hwindow, earlier, hlt]⟩)
  · have hticks : s.idleAlarm now = [] := by simp [idleAlarm, hidle, hheld]
    cases hp : s.pending with
    | none => exact .inl ⟨hheld, by simp [hticks, hwindow]⟩
    | some p => exact .inr (.inr ⟨p, rfl, fun h => (hheld h).elim, by simp [hticks, hwindow]⟩)

/-- **While time passes until the next tick, all that is held back is acknowledged**, if there are
alarms enough. -/
theorem Sound.flushed_due (hs : s.Sound) (hc : s.active = some c) {every : Nat}
    (hidle : s.config.idleFlush = some every) (hpos : 0 < every)
    (takes : ConnectionId → Message → Bool) {n : Nat}
    (hn : s.HoldsBack → s.pending.toList.length < n)
    (htick : s.HoldsBack → nextTick s.created (Deadline.reach every) now ≤ finish) :
    (s.run (due takes finish n now s)).1.active = some c ∧
      ¬ (s.run (due takes finish n now s)).1.HoldsBack := by
  induction n generalizing s now with
  | zero => exact ⟨hc, fun h => (hn h).not_ge (Nat.zero_le _)⟩
  | succ n ih =>
    rcases hs.nextAlarm_of_active hc hidle hpos now with ⟨hheld, ha⟩ | ⟨hheld, ha⟩ |
      ⟨p, hp, hlt, ha⟩
    · rw [due_of_none ha]
      exact ⟨hc, hheld⟩
    · -- what is held back is acknowledged at the tick
      rw [due_of_le ha (htick hheld)]
      let m : Moment := ⟨nextTick s.created (Deadline.reach every) now, takes⟩
      have hs' := hs.step m (.ring .idle)
      have hsame : ((s.step m (.ring .idle)).1.step m .resume).1.standing = s.standing :=
        (resume_standing m _).1.trans (flush_standing m s).1
      have hnot := hs.1.not_holdsBack_tick m
      have hc' := (congrArg Standing.active hsame).trans hc
      have hidle' := (congrArg (·.config.idleFlush) hsame).trans hidle
      exact ih (hs'.step m .resume) hc' hidle' (fun h => (hnot h).elim) fun h => (hnot h).elim
    · by_cases hlate : finish < p.deadline
      · rw [due_of_lt ha hlate]
        exact ⟨hc, fun hheld => (hlate.trans (hlt hheld)).not_ge (htick hheld)⟩
      -- the pending connection is given up, and the tick is still to come
      rw [due_of_le ha (not_lt.mp hlate)]
      let m : Moment := ⟨p.deadline, takes⟩
      have hs' := hs.step m (.ring (.handshake p.conn))
      have hsame : ((s.step m (.ring (.handshake p.conn))).1.step m .resume).1.standing =
          { s.standing with pending := none } := ring_handshake_standing m ⟨p, hp, rfl⟩
      have hheld (h : ((s.step m (.ring (.handshake p.conn))).1.step m .resume).1.HoldsBack) :
          s.HoldsBack :=
        hs.1.holdsBack_of_step m (.ring (.handshake p.conn)) trivial
          (hs'.1.holdsBack_of_step m .resume trivial h)
      have hcreated : ((s.step m (.ring (.handshake p.conn))).1.step m .resume).1.created =
          s.created := hs.1.created_run [(m, .ring (.handshake p.conn)), (m, .resume)]
      have hc' := (congrArg Standing.active hsame).trans hc
      have hidle' := (congrArg (·.config.idleFlush) hsame).trans hidle
      have hp' : ((s.step m (.ring (.handshake p.conn))).1.step m .resume).1.pending = none :=
        congrArg Standing.pending hsame
      refine ih (hs'.step m .resume) hc' hidle' (fun h => ?_) fun h => ?_
      · have hn := hn (hheld h)
        rw [hp] at hn
        rw [hp']
        exact Nat.lt_of_succ_lt_succ hn
      · rw [hcreated]
        exact (nextTick_le_of_lt (Deadline.reach_pos_iff.mpr hpos) (hlt (hheld h))).trans
          (htick (hheld h))

/-- **When an interval has passed nothing is held back any more.** -/
theorem Sound.flushed_passing (hs : s.Sound) (hc : s.active = some c) {every : Nat}
    (hidle : s.config.idleFlush = some every) (hpos : 0 < every) (hcreated : s.created ≤ now)
    (takes : ConnectionId → Message → Bool) {time : Nat} (htime : every ≤ time) :
    let s' := (s.run (s.passing takes now (now + time))).1
    s'.active = some c ∧ s'.inbox.received = s.inbox.received ∧
      s'.inbox.acked = s'.inbox.received := by
  intro s'
  let m : Moment := ⟨now, takes⟩
  have hs₁ := hs.step m .resume
  have hsame := (resume_standing m s).1
  have hc₁ : (s.step m .resume).1.active = some c := (congrArg Standing.active hsame).trans hc
  have hidle₁ : (s.step m .resume).1.config.idleFlush = some every :=
    (congrArg (·.config.idleFlush) hsame).trans hidle
  have hn : (s.step m .resume).1.pending.toList.length < maxAlarms := by
    cases (s.step m .resume).1.pending <;> simp [maxAlarms]
  have hcreated₁ : (s.step m .resume).1.created ≤ now := by
    rwa [(hs.1.step_goes m .resume).created]
  have hreach : Deadline.reach every ≤ time := (Nat.min_le_left ..).trans htime
  have htick := (nextTick_le hcreated₁ (Deadline.reach every)).trans
    (Nat.add_le_add_left hreach now)
  obtain ⟨hactive, hheld⟩ := hs₁.flushed_due hc₁ hidle₁ hpos takes (fun _ => hn) fun _ => htick
  have hkeeps := (hs.1.step_keeps m .resume trivial).trans
    (hs₁.1.elapse_keeps takes (now + time) maxAlarms now)
  rw [← run_due] at hkeeps
  have hs' : s'.Coherent := hkeeps.coherent
  refine ⟨hactive, hkeeps.received, le_antisymm hs'.inbox.acked_le ?_⟩
  have hphase : s'.lifecycle.phase = .connected := hs'.phase.mpr (Option.isSome_of_mem hactive)
  exact not_lt.mp fun h => hheld (holdsBack_iff.mpr ⟨hphase, h⟩)

/-! ### What the peer is not told -/

/-- Something is noted as acknowledged that the active connection does not hear. -/
inductive Diverts (m : Moment) (s : Session) (c : ConnectionId) (input : Input) : Prop where
  /-- The handshake is asked for on another connection. -/
  | elsewhere (ha : s.active = some c) (hi : input = .connect)
  /-- The handshake is completed, and there is nothing to say. -/
  | silent (ha : (s.step m input).1.active = some c)
    (hh : (s.step m input).1.handshakes = s.handshakes + 1)
    (he : (s.step m input).1.outbox.retained = #[])

/-- **What was received went astray on a connection**: a client that did not tell it all there
noted it as acknowledged, and since then it received no more, and acknowledged nothing there. -/
def Astray (c : ConnectionId) (s : Session) (inputs : List (Moment × Input)) : Prop :=
  s.role = .client ∧ ∃ before m input after, inputs = before ++ (m, input) :: after ∧
    let s₁ := (s.run before).1
    let s₂ := (s₁.step m input).1
    told (handedTo c (Effect.transmitted (s.run before).2)) < s₁.inbox.received ∧
      s₁.Diverts m c input ∧
      acknowledgements (handedTo c (Effect.transmitted (s₂.run after).2)) = [] ∧
      (s₂.run after).1.inbox.received = s₂.inbox.received

/-- All is noted as acknowledged, and the connection was told no more than `n`, which is less. -/
structure Owes (c : ConnectionId) (n : Int) (s : Session) : Prop where
  active : s.active = some c
  less : n < s.inbox.received
  noted : s.inbox.acked = s.inbox.received

theorem mem_acknowledgements_handedTo {n : Int} (h : n ∈ acknowledgements (handedTo c t)) :
    n ∈ acknowledgements t := by
  obtain ⟨τ, hτ, hk⟩ := mem_acknowledgements.mp h
  exact mem_acknowledgements.mpr ⟨τ, List.mem_of_mem_filter hτ, hk⟩

/-- Nothing is told where something is diverted. -/
theorem Diverts.step (h : s.Diverts m c input) (hs : s.Coherent) (hr : s.role = .client) :
    acknowledgements (handedTo c (Effect.transmitted (s.step m input).2)) = [] ∧
      (s.step m input).1.inbox.received = s.inbox.received ∧
      (s.step m input).1.inbox.acked = s.inbox.received := by
  cases h with
  | elsewhere ha hi =>
    subst hi
    have hopens : Opens m s (s.step m .connect).1 (Effect.transmitted (s.step m .connect).2) :=
      (opens_connect m s).1
    have hne : s.nextConnection ≠ c := (hs.numbered c ha).ne'
    generalize (s.step m .connect).1 = s' at hopens
    generalize Effect.transmitted (s.step m .connect).2 = t at hopens
    cases hopens with
    | refused ho => exact (hs.not_over ha ho).elim
    | asks =>
      rw [handedTo_of_ne (by simpa [handing] using hne)]
      exact ⟨rfl, rfl, rfl⟩
    | waits deadline ho hr' =>
      rw [hr] at hr'
      cases hr'
  | silent ha hh he =>
    obtain ⟨hsilent, hflush⟩ := (hs.step_goes m input).silent hs hr hh he
    rw [hsilent, hflush]
    exact ⟨rfl, rfl, rfl⟩

/-- It was told nothing that would settle it. -/
theorem Owes.silent (h : s'.Owes c (max n (told (handedTo c t)))) (hs' : s'.Coherent)
    (hall : ∀ k ∈ acknowledgements t, k = s'.inbox.received) :
    acknowledgements (handedTo c t) = [] ∧ s'.Owes c n := by
  have hless := h.less
  refine ⟨?_, h.active, (le_max_left ..).trans_lt hless, h.noted⟩
  by_contra hsaid
  have hlow := hs'.inbox.low.trans hs'.inbox.acked_le
  rw [told_of_forall hsaid hlow fun k hk => hall k (mem_acknowledgements_handedTo hk)] at hless
  exact ((le_max_right ..).trans_lt hless).false

theorem Moves.owes (h : Moves m s s' t a) (hs : s.Coherent) (ho : s'.Owes c n)
    (hnone : Transmission.acknowledgements (handedTo c t) = []) :
    s.Owes c n ∧ s'.inbox.received = s.inbox.received := by
  have hkeeps := h.keeps hs
  have hactive : s.active = some c := hkeeps.active c ho.active
  have hall : handedTo c t = t := handedTo_of_eq fun τ hτ =>
    Option.some.inj ((hkeeps.said τ hτ).2.symm.trans hactive)
  have hsame := h.notes.same (hall ▸ hnone)
  exact ⟨⟨hactive, hkeeps.received ▸ ho.less, hsame ▸ hkeeps.received ▸ ho.noted⟩, hkeeps.received⟩

theorem Opens.owes (h : Opens m s s' t) (ho : s'.Owes c n) :
    (s.Owes c n ∧ s'.inbox.received = s.inbox.received) ∨
      (s.role = .client ∧ n < s.inbox.received ∧ s.active = some c) := by
  cases h with
  | refused | waits => exact .inl ⟨⟨ho.active, ho.less, ho.noted⟩, rfl⟩
  | asks deadline _ hr => exact .inr ⟨hr, ho.less, ho.active⟩

theorem Hears.owes {c₀ : ConnectionId} {x : Message} {d : List Bytes} (h : Hears m s c₀ x s' t d)
    (hs : s.Coherent) (ho : s'.Owes c n) (hnone : Transmission.acknowledgements (handedTo c t) = []) :
    (s.Owes c n ∧ s'.inbox.received = s.inbox.received) ∨
      (s.role = .client ∧ n < s.inbox.received ∧ s'.handshakes = s.handshakes + 1 ∧
        s'.outbox.retained = #[]) := by
  have hall : handedTo c t = t := handedTo_of_eq fun τ hτ =>
    (h.conn τ hτ).1.trans (Option.some.inj ((h.conn τ hτ).2.symm.trans ho.active))
  rw [hall] at hnone
  obtain ⟨hactive, hless, hnoted⟩ := ho
  cases h with
  | ignored | acked => exact .inl ⟨⟨hactive, hless, hnoted⟩, rfl⟩
  | held waiting hc hk hn =>
    have hle := hs.inbox.acked_le
    simp only at hnoted
    omega
  | answered | repeated => simp at hnone
  | left => cases hactive
  | completed lifecycle waiting hc hk =>
    have hsilent := not_imp_comm.mp acknowledgements_welcome (not_not.mpr hnone)
    obtain ⟨hr, hempty⟩ := welcome_eq_nil.mp hsilent
    exact .inr ⟨hr, hless, rfl, hempty⟩

/-- **What it takes for a connection to be owed something**: it was before, and it is told nothing
and nothing is received, or something is diverted. -/
theorem Coherent.owes_step (hs : s.Coherent) (m : Moment) (input : Input)
    (h : (s.step m input).1.Owes c
      (max n (told (handedTo c (Effect.transmitted (s.step m input).2))))) :
    (s.Owes c n ∧ acknowledgements (handedTo c (Effect.transmitted (s.step m input).2)) = [] ∧
        (s.step m input).1.inbox.received = s.inbox.received) ∨
      (s.role = .client ∧ n < s.inbox.received ∧ s.Diverts m c input) := by
  obtain ⟨hnone, ho⟩ := h.silent (hs.step m input) (hs.step_goes m input).acknowledgements
  by_cases hi : input.Own
  · obtain ⟨ho', hsame⟩ := (hs.step_moves m hi).1.owes hs ho hnone
    exact .inl ⟨ho', hnone, hsame⟩
  cases input with
  | connect =>
    rcases (opens_connect m s).1.owes ho with ⟨ho', hsame⟩ | ⟨hr, hless, ha⟩
    · exact .inl ⟨ho', hnone, hsame⟩
    · exact .inr ⟨hr, hless, .elsewhere ha rfl⟩
  | frame c₀ bytes =>
    rcases hs.frame_cases m c₀ bytes with ⟨x, d, h⟩ | ⟨hsame, -⟩
    · rcases h.owes hs ho hnone with ⟨ho', hsame⟩ | ⟨hr, hless, hh, he⟩
      · exact .inl ⟨ho', hnone, hsame⟩
      · exact .inr ⟨hr, hless, .silent ho.active hh he⟩
    · have hstep : (s.step m (.frame c₀ bytes)).1 = s := hsame
      rw [hstep] at ho ⊢
      exact .inl ⟨ho, hnone, rfl⟩
  | _ => exact (hi trivial).elim

/-- **What is owed to the active connection went astray.** -/
theorem Coherent.astray_of_owes (hs : s.Coherent) (hnone : s.active = none)
    (h : (s.run inputs).1.Owes c (told (handedTo c (Effect.transmitted (s.run inputs).2)))) :
    s.Astray c inputs := by
  induction inputs using List.reverseRecOn with
  | nil =>
    have hc := h.active
    rw [show (s.run []).1.active = none from hnone] at hc
    cases hc
  | append_singleton inputs i ih =>
    obtain ⟨m, input⟩ := i
    have hs₁ := hs.later inputs
    have hlast : (s.run (inputs ++ [(m, input)])).1 = ((s.run inputs).1.step m input).1 :=
      run_append ..
    have hsaid : (s.run (inputs ++ [(m, input)])).2 =
        (s.run inputs).2 ++ ((s.run inputs).1.step m input).2 := by
      rw [run_append_effects, run, run, List.append_nil]
    rw [hlast, hsaid, Effect.transmitted_append, handedTo_append, told_append] at h
    rcases hs₁.owes_step m input h with ⟨ho, hquiet, hsame⟩ | ⟨hr, hless, hdiverts⟩
    · -- what went astray before is not told in the last step either
      obtain ⟨hr, before, m', input', after, rfl, hless, hdiverts, hafter, hreceived⟩ := ih ho
      have hat : (s.run (before ++ (m', input') :: after)).1 =
          (((s.run before).1.step m' input').1.run after).1 := s.run_append ..
      rw [hat] at hquiet hsame
      refine ⟨hr, before, m', input', after ++ [(m, input)], by simp, hless, hdiverts, ?_, ?_⟩
      · simp only [run_append_effects, run, List.append_nil, Effect.transmitted_append,
          handedTo_append, acknowledgements_append, hafter, hquiet]
      · rw [run_append]
        exact hsame.trans hreceived
    · exact ⟨(hs.run_grows inputs).role ▸ hr, inputs, m, input, [], rfl, hless, hdiverts, rfl, rfl⟩

/-- What went astray is still owed. -/
theorem Astray.told_lt (h : s.Astray c inputs) (hs : s.Coherent) :
    told (handedTo c (Effect.transmitted (s.run inputs).2)) < (s.run inputs).1.inbox.received := by
  obtain ⟨hr, before, m, input, after, rfl, hless, hdiverts, hafter, hreceived⟩ := h
  obtain ⟨hnone, hsame, -⟩ := hdiverts.step (hs.later before) ((hs.run_grows before).role.trans hr)
  simp only [run_append, run_append_effects, run, Effect.transmitted_append, handedTo_append,
    told_append, told_of_silent hnone, told_of_silent hafter, hreceived, hsame, max_self]
  rw [max_eq_left (le_told (.inl rfl))]
  exact hless

/-- **Nothing is owed to the active connection, unless it went astray**, if all is noted as
acknowledged. -/
theorem Coherent.told_eq_iff (hs : s.Coherent) (hnone : s.active = none)
    (hc : (s.run inputs).1.active = some c)
    (hnoted : (s.run inputs).1.inbox.acked = (s.run inputs).1.inbox.received) :
    told (handedTo c (Effect.transmitted (s.run inputs).2)) = (s.run inputs).1.inbox.received ↔
      ¬ s.Astray c inputs := by
  have hlater := hs.later inputs
  have hle : told (handedTo c (Effect.transmitted (s.run inputs).2)) ≤
      (s.run inputs).1.inbox.received :=
    told_le (hlater.inbox.low.trans hlater.inbox.acked_le) fun k hk =>
      ((hs.acknowledgements_run inputs).2 k (mem_acknowledgements_handedTo hk)).2
  refine ⟨fun heq hastray => (hastray.told_lt hs).ne heq, fun hnot => ?_⟩
  by_contra hne
  exact hnot (hs.astray_of_owes hnone ⟨hc, lt_of_le_of_ne hle hne, hnoted⟩)

end Session

/-! ### An idle session on a clock -/

namespace Clocked

/-- **An idle session has told its peer all that was received**, unless it went astray.

A session is connected and acknowledges at ticks, and no less than the time between two of them
passes in which nothing comes from outside. Then it is still connected and received no more, and
the highest acknowledgement that it handed to the active connection is what was received, if and
only if it did not go astray: the session noted it as a client that asked for a handshake on another
connection, or that had nothing to say when it completed the handshake of this one, and acknowledged
nothing on this one since. On a server that never happens. -/
theorem told_when_idle {role : Role} {id : SessionId} {config : Config} {k₀ : Clocked}
    (h : Session.create role id config k₀.now = .ok k₀.session) {every : Nat}
    (hidle : config.idleFlush = some every) (hpos : 0 < every) (events : List Event)
    {c : ConnectionId} (hc : (k₀.run events).session.active = some c)
    (takes : ConnectionId → Message → Bool) {time : Nat} (htime : every ≤ time) :
    let idle := events ++ [.pass takes time]
    let s := (k₀.run idle).session
    let highest := told (handedTo c (Effect.transmitted (k₀.session.run (k₀.history idle)).2))
    s.active = some c ∧ s.inbox.received = (k₀.run events).session.inbox.received ∧
      (highest = s.inbox.received ↔ ¬ k₀.session.Astray c (k₀.history idle)) ∧
      (role = .server → highest = s.inbox.received) := by
  intro idle s highest
  have hs₀ := Session.Sound.start h
  have hfirst : k₀.session = Session.start role id config k₀.now := Session.eq_start h
  let k := k₀.run events
  have hsession : k.session = (k₀.session.run (k₀.history events)).1 := k₀.run_session events
  have hs : k.session.Sound := hsession ▸ hs₀.run _
  have hconfig : k.session.config.idleFlush = some every := by
    rw [hsession, hs₀.config_run, hfirst]
    exact hidle
  have hcreated : k.session.created ≤ k.now := by
    rw [hsession, hs₀.1.created_run, hfirst]
    exact k₀.now_le_run events
  have hlast : s = (k.session.run (k.session.passing takes k.now (k.now + time))).1 := by
    simp only [s, idle, run_append]
    rfl
  obtain ⟨hactive, hreceived, hnoted⟩ :=
    hs.flushed_passing hc hconfig hpos hcreated takes htime
  rw [← hlast] at hactive hreceived hnoted
  have hend : s = (k₀.session.run (k₀.history idle)).1 := k₀.run_session idle
  have hnone : k₀.session.active = none := by rw [hfirst, Session.start]
  have hiff : highest = s.inbox.received ↔ ¬ k₀.session.Astray c (k₀.history idle) := by
    rw [hend] at hactive hnoted ⊢
    exact hs₀.1.told_eq_iff hnone hactive hnoted
  refine ⟨hactive, hreceived, hiff, fun hserver => hiff.mpr fun hastray => ?_⟩
  have hrole : k₀.session.role = role := by rw [hfirst, Session.start]
  rw [hserver, hastray.1] at hrole
  cases hrole

/-- The server agrees to the handshake on a connection. -/
def Event.agreed (takes : ConnectionId → Message → Bool) (c : ConnectionId) : Event :=
  .act takes (.frame c (Message.handshakeOk (.ofNat 1) noSequence).encode) trivial

/-- The first payload of the server comes on a connection. -/
def Event.came (takes : ConnectionId → Message → Bool) (c : ConnectionId) : Event :=
  .act takes (.frame c (Message.send (.ofNat 1) 0 noSequence []).encode) trivial

/-- A client asks for the handshake on a second connection, and then gets a payload on the first
one, on which it is acknowledged at the next tick. Nothing went astray. -/
theorem told_when_idle_beside :
    let takes : ConnectionId → Message → Bool := fun _ _ => true
    let connect : Event := .act takes .connect trivial
    let k₀ : Clocked := ⟨0, .start .client (.ofNat 1) {} 0⟩
    let events := [connect, .agreed takes 0, connect, .came takes 0]
    let idle := events ++ [.pass takes 100]
    (k₀.run idle).session.active = some 0 ∧ (k₀.run idle).session.inbox.received = 0 ∧
      told (handedTo 0 (Effect.transmitted (k₀.session.run (k₀.history idle)).2)) = 0 ∧
      ¬ k₀.session.Astray 0 (k₀.history idle) := by
  intro takes connect k₀ events idle
  have h : Session.create .client (.ofNat 1) {} k₀.now = .ok k₀.session := rfl
  have hc : (k₀.run events).session.active = some 0 := by decide +kernel
  have hreceived : (k₀.run idle).session.inbox.received = 0 := by decide +kernel
  have htold : told (handedTo 0 (Effect.transmitted (k₀.session.run (k₀.history idle)).2)) = 0 := by
    decide +kernel
  obtain ⟨hactive, -, hiff, -⟩ := told_when_idle h (show ({} : Config).idleFlush = some 100 from rfl)
    (by decide) events hc takes (show 100 ≤ 100 from le_rfl)
  refine ⟨hactive, hreceived, htold, hiff.mp ?_⟩
  rw [hreceived]
  exact htold

/-- If the payload comes before the server agrees to the second handshake, it is not acknowledged on
the second connection, however long nothing happens. If it comes before the client asks for that
handshake, it is not acknowledged on the first one. -/
theorem untold_when_idle :
    let takes : ConnectionId → Message → Bool := fun _ _ => true
    let connect : Event := .act takes .connect trivial
    let k₀ : Clocked := ⟨0, .start .client (.ofNat 1) {} 0⟩
    let replaced := [connect, .agreed takes 0, connect, .came takes 0, .agreed takes 1, .pass takes 6000]
    let beside := [connect, .agreed takes 0, .came takes 0, connect, .pass takes 6000]
    Session.create .client (.ofNat 1) {} 0 = .ok k₀.session ∧
      ((k₀.run replaced).session.active = some 1 ∧ (k₀.run replaced).session.inbox.received = 0 ∧
        told (handedTo 1 (Effect.transmitted (k₀.session.run (k₀.history replaced)).2)) = -1) ∧
      (k₀.run beside).session.active = some 0 ∧ (k₀.run beside).session.pending = none ∧
        (k₀.run beside).session.inbox.received = 0 ∧
        told (handedTo 0 (Effect.transmitted (k₀.session.run (k₀.history beside)).2)) = -1 := by
  intro takes connect k₀ replaced beside
  refine ⟨rfl, ⟨?_, ?_, ?_⟩, ?_, ?_, ?_, ?_⟩
  all_goals decide +kernel

end Clocked

end Tether
