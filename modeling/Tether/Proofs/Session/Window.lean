import Tether.Proofs.Session.Clock
import Tether.Proofs.Session.Lifetime

/-!
# The window in which a connection may be replaced

When a connection is lost, a window opens in which it may be replaced, and its end is set. On
a clock it ends the session exactly then, whatever else is tried in the meantime
(`Clocked.onTime_run`). A handshake closes the window for good: the end that was set for it
has no effect on a later one (`Sound.stale`).
-/

namespace Tether

/-! ### Losses and when they happen -/

/-- What loss the layer above is told of. -/
def News.loss? : News → Option Loss
  | .notice (.lost reason) => some reason
  | _ => none

/-- The losses that the layer above is told of, and when. -/
def Effect.losses (done : List (Nat × Effect)) : List (Nat × Loss) :=
  done.filterMap fun (time, e) => (e.news?.bind News.loss?).map (time, ·)

namespace Effect

@[simp] theorem losses_nil : losses [] = [] := rfl

@[simp] theorem losses_append (l l' : List (Nat × Effect)) :
    losses (l ++ l') = losses l ++ losses l' := List.filterMap_append

/-- Where nothing tells of a loss, there is none. -/
theorem losses_of_lossless {done : List (Nat × Effect)}
    (h : Lossless (news (done.map Prod.snd))) : losses done = [] := by
  refine List.filterMap_eq_nil_iff.mpr fun (time, e) he => ?_
  cases e with
  | notify n =>
    cases n with
    | restored => rfl
    | lost reason =>
      exact (h reason (List.mem_filterMap.mpr ⟨_, List.mem_map_of_mem he, rfl⟩)).elim
  | transmit | close | deliver | sent => rfl

/-- The losses of which one operation tells. -/
theorem losses_map (time : Nat) (effects : List Effect) :
    losses (effects.map (time, ·)) = ((news effects).filterMap News.loss?).map (time, ·) := by
  simp only [losses, news, List.filterMap_map, List.map_filterMap, List.filterMap_filterMap]
  rfl

end Effect

/-! ### Standings while a window is open -/

namespace Standing

variable {now : Nat} {s s' : Standing} {input : Session.Input} {news : List News} {w : WindowEnd}

theorem Change.config (h : Change now s input s' news) : s'.config = s.config := by
  cases h <;> rfl

/-- While a window is open the connection is lost, and the window is the latest one. -/
theorem Consistent.of_window (hs : s.Consistent) (hw : s.windowEnd = some w) :
    s.lifecycle.phase = .restoring ∧ s.lifecycle.epoch = w.epoch ∧ s.active = none := by
  have hphase : s.lifecycle.phase = .restoring := hs.window.mp (by rw [hw]; rfl)
  refine ⟨hphase, (hs.epoch w hw).symm, ?_⟩
  by_contra hactive
  have hconnected := hs.active.mp (Option.isSome_iff_ne_none.mpr hactive)
  rw [hphase] at hconnected
  cases hconnected

/-- **An open window stays as it is, and nothing is lost, unless** it is replaced by a
handshake, or the session is ended, or the window is over. -/
theorem Change.of_window (h : Change now s input s' news) (hs : s.Consistent)
    (hw : s.windowEnd = some w) :
    (s'.windowEnd = some w ∧ Lossless news) ∨
      (∃ c bytes, input = .frame c bytes ∧ s'.handshakes ≠ s.handshakes) ∨ input = .close ∨
      (∃ p ∈ s.pending, input = .disconnected p.conn true) ∨
      input = .ring (.window w.epoch) := by
  obtain ⟨-, hepoch, hactive⟩ := hs.of_window hw
  cases h with
  | stay payloads => exact .inl ⟨hw, by simp [Lossless]⟩
  | connect | giveUp => exact .inl ⟨hw, .nil⟩
  | complete p hp bytes hi => exact .inr (.inl ⟨p.conn, bytes, hi, Nat.succ_ne_self _⟩)
  | lose c hc => simp [hactive] at hc
  | finish reason ho he =>
    cases he with
    | closed => exact .inr (.inr (.inl rfl))
    | goodbye c bytes hc => simp [hactive] at hc
    | disabled c hc => simp [hactive] at hc
    | forced c hc =>
      obtain ⟨p, hp, rfl⟩ | hc := hc
      · exact .inr (.inr (.inr (.inl ⟨p, hp, rfl⟩)))
      · simp [hactive] at hc
    | late => exact .inr (.inr (.inr (.inr (by rw [hepoch]))))

/-- The numbers of windows only grow. -/
theorem Change.epoch_le (h : Change now s input s' news) :
    s.lifecycle.epoch ≤ s'.lifecycle.epoch := by
  cases h with
  | stay | connect | giveUp => exact le_rfl
  | complete =>
    simp only [Lifecycle.connect]
    split <;> simp
  | lose => exact Nat.le_succ _
  | finish => exact Nat.le_succ _

/-- A handshake closes the window for good. -/
theorem Change.epoch_lt (h : Change now s input s' news) (hs : s.Consistent)
    (hw : s.windowEnd = some w) (hh : s'.handshakes ≠ s.handshakes) :
    w.epoch < s'.lifecycle.epoch := by
  obtain ⟨hphase, hepoch, -⟩ := hs.of_window hw
  cases h with
  | stay | connect | giveUp | lose | finish => exact (hh rfl).elim
  | complete => simp [Lifecycle.connect, hphase, hepoch]

end Standing

/-! ### Sessions while a window is open -/

/-- **The window is open until its end, and then the session is lost.** -/
def WindowEnd.OnTime (w : WindowEnd) (now : Nat) (s : Session) (losses : List (Nat × Loss)) : Prop :=
  if now < w.deadline then s.windowEnd = some w ∧ losses = []
  else s.lifecycle.phase = .lost ∧ losses = [(w.deadline, .restoreTimeout)]

namespace Session

variable {s : Session} {w : WindowEnd}

/-- The input completes a handshake, ends the session, or reports that the connection which is
to complete its handshake was ended on purpose. -/
def Intervenes (m : Moment) (s : Session) : Input → Prop
  | .close => True
  | .disconnected c true => s.Awaits c
  | .frame c bytes => (s.receive m c bytes).session.handshakes ≠ s.handshakes
  | _ => False

/-- What comes from outside and does not intervene leaves an open window as it is. -/
theorem Sound.step_of_window (hs : s.Sound) (hw : s.windowEnd = some w) (m : Moment) {input : Input}
    (he : input.External) (hi : ¬ s.Intervenes m input) :
    (s.step m input).1.windowEnd = some w ∧ Lossless (Effect.news (s.step m input).2) := by
  have hchange := (hs.1.step_change m input).of_window hs.2 hw
  rcases hchange with h | ⟨c, bytes, rfl, h⟩ | rfl | ⟨p, hp, rfl⟩ | rfl
  · exact h
  · exact (hi h).elim
  · exact (hi trivial).elim
  · exact (hi ⟨p, hp, rfl⟩).elim
  · exact he.elim

/-- At its end the window ends the session. -/
theorem Sound.ring_window (hs : s.Sound) (hw : s.windowEnd = some w) (m : Moment) :
    (s.ring m (.window w.epoch)).1.lifecycle.phase = .lost ∧
      Effect.news (s.ring m (.window w.epoch)).2 = [.notice (.lost .restoreTimeout)] := by
  obtain ⟨hphase, hepoch, -⟩ := hs.2.of_window hw
  have hphase : s.lifecycle.phase = .restoring := hphase
  have hepoch : s.lifecycle.epoch = w.epoch := hepoch
  simp only [ring, expireWindow, Lifecycle.expire, hphase, hepoch, and_self, if_true,
    Effect.news_append, news_shutDown]
  exact ⟨rfl, rfl⟩

/-- A session that is over has nothing to tell. -/
theorem Gone.losses_run (hs : s.Gone) (inputs : List (Moment × Input)) :
    Effect.losses (s.chronicle inputs) = [] := by
  refine Effect.losses_of_lossless ?_
  rw [chronicle_map_snd, (hs.run inputs).news]
  exact .nil

/-- A session that is lost is lost for good. -/
theorem Sound.run_of_lost (hs : s.Sound) (hp : s.lifecycle.phase = .lost)
    (inputs : List (Moment × Input)) :
    (s.run inputs).1.lifecycle.phase = .lost ∧ Effect.losses (s.chronicle inputs) = [] := by
  have hgone := hs.gone (.inl hp)
  obtain ⟨waiting, nextTicket, hsame⟩ := (hgone.run inputs).same
  exact ⟨by rw [hsame]; exact hp, hgone.losses_run inputs⟩

/-! ### Alarms while a window is open -/

/-- While a window is open, its end is the next alarm, unless the connection that is to
complete its handshake is given up before. -/
theorem Sound.nextAlarm_of_window (hs : s.Sound) (hw : s.windowEnd = some w) (now : Nat) :
    s.nextAlarm now = some (w.deadline, .window w.epoch) ∨
      ∃ p, s.pending = some p ∧ p.deadline < w.deadline ∧
        s.nextAlarm now = some (p.deadline, .handshake p.conn) := by
  have hphase : s.lifecycle.phase = .restoring := (hs.2.of_window hw).1
  have hidle : s.idleAlarm now = [] := by
    have hnot : ¬ s.HoldsBack := fun h => by simp [HoldsBack, hphase] at h
    simp [idleAlarm, hnot]
  unfold nextAlarm alarms
  cases hp : s.pending with
  | none => simp [hidle, hw]
  | some p =>
    by_cases hlt : p.deadline < w.deadline
    · simp [hidle, hw, earlier, hlt]
    · simp [hidle, hw, earlier, hlt]

/-- The pending connection is given up in time. -/
theorem ring_handshake (m : Moment) {c : ConnectionId} (hc : s.Awaits c) :
    s.ring m (.handshake c) = ({ s with pending := none }, [.close c false]) :=
  if_pos (awaits_iff.mpr hc)

/-- The sends that try again after that do not change where the session stands. -/
theorem ring_handshake_standing (m : Moment) {c : ConnectionId} (hc : s.Awaits c) :
    ((s.ring m (.handshake c)).1.resume m).1.standing = { s.standing with pending := none } := by
  rw [(resume_standing m _).1, ring_handshake m hc]
  rfl

/-- What tells of no loss does not matter for the window. -/
theorem onTime_cons {finish : Nat} {m : Moment} {input : Input} {rest : List (Moment × Input)}
    (hquiet : Lossless (Effect.news (s.step m input).2))
    (h : w.OnTime finish ((s.step m input).1.run rest).1
      (Effect.losses ((s.step m input).1.chronicle rest))) :
    w.OnTime finish (s.run ((m, input) :: rest)).1
      (Effect.losses (s.chronicle ((m, input) :: rest))) := by
  have hnone : Effect.losses ((s.step m input).2.map (m.now, ·)) = [] := by
    refine Effect.losses_of_lossless ?_
    simpa [Function.comp_def] using hquiet
  rw [chronicle, Effect.losses_append, hnone, List.nil_append]
  exact h

/-- The end of the window comes. -/
theorem Sound.onTime_ring (hs : s.Sound) (hw : s.windowEnd = some w)
    (takes : ConnectionId → Message → Bool) {finish : Nat} (hlate : w.deadline ≤ finish)
    (rest : List (Moment × Input)) :
    let inputs := (⟨w.deadline, takes⟩, .ring (.window w.epoch)) :: rest
    w.OnTime finish (s.run inputs).1 (Effect.losses (s.chronicle inputs)) := by
  let m : Moment := ⟨w.deadline, takes⟩
  obtain ⟨hlost, hnews⟩ := hs.ring_window hw m
  obtain ⟨hphase, hquiet⟩ := (hs.step m (.ring (.window w.epoch))).run_of_lost hlost rest
  refine (if_neg (not_lt.mpr hlate)).mpr ⟨hphase, ?_⟩
  rw [chronicle, Effect.losses_append, hquiet, List.append_nil, Effect.losses_map]
  exact congrArg (fun news => (news.filterMap News.loss?).map (w.deadline, ·)) hnews

/-- **While time passes an open window ends on time**, if there are alarms enough. -/
theorem Sound.onTime_due (hs : s.Sound) (hw : s.windowEnd = some w)
    (takes : ConnectionId → Message → Bool) (finish : Nat) {n : Nat}
    (hn : s.pending.toList.length < n) (now : Nat) :
    w.OnTime finish (s.run (due takes finish n now s)).1
      (Effect.losses (s.chronicle (due takes finish n now s))) := by
  induction n generalizing s now with
  | zero => omega
  | succ n ih =>
    rcases hs.nextAlarm_of_window hw now with ha | ⟨p, hp, hlt, ha⟩
    · by_cases hlate : finish < w.deadline
      · rw [due_of_lt ha hlate]
        exact (if_pos hlate).mpr ⟨hw, rfl⟩
      · rw [due_of_le ha (not_lt.mp hlate)]
        exact hs.onTime_ring hw takes (not_lt.mp hlate) _
    · by_cases hlate : finish < p.deadline
      · rw [due_of_lt ha hlate]
        exact (if_pos (hlate.trans hlt)).mpr ⟨hw, rfl⟩
      -- the pending connection is given up, and then the end of the window is the only alarm
      let m : Moment := ⟨p.deadline, takes⟩
      have hring := ring_handshake m ⟨p, hp, rfl⟩
      have hstanding := ring_handshake_standing m ⟨p, hp, rfl⟩
      have hnews := (resume_standing m (s.ring m (.handshake p.conn)).1).2
      have hw' : ((s.ring m (.handshake p.conn)).1.resume m).1.windowEnd = some w :=
        (congrArg Standing.windowEnd hstanding).trans hw
      have hp' : ((s.ring m (.handshake p.conn)).1.resume m).1.pending = none :=
        congrArg Standing.pending hstanding
      have hn' : ((s.ring m (.handshake p.conn)).1.resume m).1.pending.toList.length < n := by
        rw [hp] at hn
        simpa [hp'] using hn
      have hs' := (hs.step m (.ring (.handshake p.conn))).step m .resume
      have hclose : Lossless (Effect.news (s.ring m (.handshake p.conn)).2) := by
        rw [hring]
        exact .nil
      rw [due_of_le ha (not_lt.mp hlate)]
      exact onTime_cons hclose (onTime_cons (hnews ▸ .nil) (ih hs' hw' hn' p.deadline))

/-- The same when the sends that were woken try again before. -/
theorem Sound.onTime_passing (hs : s.Sound) (hw : s.windowEnd = some w)
    (takes : ConnectionId → Message → Bool) (now finish : Nat) :
    w.OnTime finish (s.run (s.passing takes now finish)).1
      (Effect.losses (s.chronicle (s.passing takes now finish))) := by
  let m : Moment := ⟨now, takes⟩
  obtain ⟨hstanding, hnews⟩ := resume_standing m s
  have hw' : (s.resume m).1.windowEnd = some w := (congrArg Standing.windowEnd hstanding).trans hw
  have hn : (s.resume m).1.pending.toList.length < maxAlarms := by
    cases (s.resume m).1.pending <;> simp [maxAlarms]
  exact onTime_cons (hnews ▸ .nil) ((hs.step m .resume).onTime_due hw' takes finish hn now)

/-! ### Windows that were closed -/

/-- The end of a window that is not the latest one has no effect, and is not set. -/
theorem Sound.stale (hs : s.Sound) {epoch : Nat} (h : epoch < s.lifecycle.epoch) :
    (∀ m, s.step m (.ring (.window epoch)) = (s, [])) ∧
      ∀ now time, (time, .window epoch) ∉ s.alarms now := by
  refine ⟨fun m => ?_, fun now time hmem => ?_⟩
  · have hnot : ¬ (s.lifecycle.phase = .restoring ∧ epoch = s.lifecycle.epoch) := fun he => h.ne he.2
    simp only [Session.step, ring, expireWindow, Lifecycle.expire, if_neg hnot]
  · rcases s.alarms_cases hmem with ⟨hidle, -⟩ | ⟨w, hw, -, hwindow⟩ | ⟨p, -, -, hpending⟩
    · cases hidle
    · cases hwindow
      exact h.ne (hs.2.epoch w hw)
    · cases hpending

theorem Sound.epoch_le_run (hs : s.Sound) (inputs : List (Moment × Input)) :
    s.lifecycle.epoch ≤ (s.run inputs).1.lifecycle.epoch := by
  induction inputs generalizing s with
  | nil => exact le_rfl
  | cons i inputs ih =>
    have hstep : s.lifecycle.epoch ≤ (s.step i.1 i.2).1.lifecycle.epoch :=
      (hs.1.step_change i.1 i.2).epoch_le
    exact hstep.trans (ih (hs.step i.1 i.2))

theorem Sound.config_run (hs : s.Sound) (inputs : List (Moment × Input)) :
    (s.run inputs).1.config = s.config := by
  induction inputs generalizing s with
  | nil => rfl
  | cons i inputs ih =>
    have hstep : (s.step i.1 i.2).1.config = s.config := (hs.1.step_change i.1 i.2).config
    exact (ih (hs.step i.1 i.2)).trans hstep

/-- **After a handshake the end that was set for the window has no effect, ever.** -/
theorem Sound.stale_of_handshake (hs : s.Sound) (hw : s.windowEnd = some w) {m : Moment}
    {input : Input} (hh : (s.step m input).1.handshakes ≠ s.handshakes) (later : List (Moment × Input)) :
    let s' := ((s.step m input).1.run later).1
    (∀ m', s'.step m' (.ring (.window w.epoch)) = (s', [])) ∧
      ∀ now time, (time, .window w.epoch) ∉ s'.alarms now := by
  have hlt : w.epoch < (s.step m input).1.lifecycle.epoch :=
    (hs.1.step_change m input).epoch_lt hs.2 hw hh
  have hs' := hs.step m input
  exact (hs'.run later).stale (hlt.trans_le (hs'.epoch_le_run later))

/-- The loss of the active connection opens a window. -/
theorem Sound.step_lose (hs : s.Sound) {c : ConnectionId} (hc : s.active = some c)
    (hr : s.config.reconnects = true) (m : Moment) :
    (s.step m (.disconnected c false)).1.windowEnd =
        some ⟨s.lifecycle.epoch + 1, Deadline.after m.now s.config.restoreTimeout⟩ ∧
      (s.step m (.disconnected c false)).2 = [] := by
  have hphase : s.lifecycle.phase = .connected := hs.1.phase.mpr (by rw [hc]; rfl)
  have hp : s.pending.any (·.conn = c) = false := by
    by_contra hp
    obtain ⟨p, hp, hpc⟩ := awaits_iff.mp (Bool.not_eq_false _ ▸ hp)
    exact hs.2.apart c hc p hp hpc.symm
  have hreconnects : s.lifecycle.reconnects = true := hs.2.reconnects.trans hr
  simp only [Session.step, disconnected, hp, Bool.false_eq_true, if_false, Active, hc, if_true,
    disconnect_of_reconnects hphase hreconnects, afterLoss, and_self]

end Session

/-! ### Windows on a clock -/

namespace Clocked

open Session (Input)

variable {k : Clocked} {w : WindowEnd}

/-- A connection is lost. -/
def Event.lost (takes : ConnectionId → Message → Bool) (c : ConnectionId) : Event :=
  .act takes (.disconnected c false) trivial

/-- What comes from outside intervenes. -/
def Intervenes (k : Clocked) : Event → Prop
  | .act takes input _ => k.session.Intervenes ⟨k.now, takes⟩ input
  | .pass .. => False

/-- Nothing intervenes before a deadline. -/
def Undisturbed (deadline : Nat) (k : Clocked) : List Event → Prop
  | [] => True
  | e :: rest => (k.now < deadline → ¬ k.Intervenes e) ∧ (k.step e).Undisturbed deadline rest

/-- Whatever happens, if it does not intervene, an open window ends on time. -/
theorem onTime_step (hs : k.session.Sound) {before : List (Nat × Loss)}
    (h : w.OnTime k.now k.session before) {e : Event} (hi : k.now < w.deadline → ¬ k.Intervenes e) :
    w.OnTime (k.step e).now (k.step e).session
      (before ++ Effect.losses (k.session.chronicle (k.inputs e))) := by
  by_cases hnow : k.now < w.deadline
  · obtain ⟨hw, rfl⟩ := (if_pos hnow).mp h
    rw [List.nil_append]
    cases e with
    | pass takes time => exact hs.onTime_passing hw takes _ _
    | act takes input external =>
      let m : Moment := ⟨k.now, takes⟩
      obtain ⟨hw', hnews⟩ := hs.step_of_window hw m external (hi hnow)
      exact Session.onTime_cons hnews ((hs.step m input).onTime_passing hw' takes k.now k.now)
  · obtain ⟨hlost, rfl⟩ := (if_neg hnow).mp h
    obtain ⟨hphase, hquiet⟩ := hs.run_of_lost hlost (k.inputs e)
    have hlate : ¬ (k.step e).now < w.deadline := by
      have := k.now_le_step e
      omega
    rw [hquiet, List.append_nil]
    exact (if_neg hlate).mpr ⟨hphase, rfl⟩

theorem onTime_run (hs : k.session.Sound) {before : List (Nat × Loss)}
    (h : w.OnTime k.now k.session before) {events : List Event}
    (hu : k.Undisturbed w.deadline events) :
    w.OnTime (k.run events).now (k.run events).session
      (before ++ Effect.losses (k.chronicle events)) := by
  induction events generalizing k before with
  | nil => simpa [chronicle, history, Session.chronicle, run] using h
  | cons e events ih =>
    obtain ⟨hi, hrest⟩ := hu
    rw [chronicle_cons, Effect.losses_append, ← List.append_assoc]
    exact ih (hs.run (k.inputs e)) (onTime_step hs h hi) hrest

/-- The loss of the active connection opens a window, which may be over at once. -/
theorem onTime_lose (hs : k.session.Sound) {c : ConnectionId} (hc : k.session.active = some c)
    (hr : k.session.config.reconnects = true) (takes : ConnectionId → Message → Bool) :
    WindowEnd.OnTime
      ⟨k.session.lifecycle.epoch + 1, Deadline.after k.now k.session.config.restoreTimeout⟩
      (k.step (.lost takes c)).now (k.step (.lost takes c)).session
      (Effect.losses (k.session.chronicle (k.inputs (.lost takes c)))) := by
  let m : Moment := ⟨k.now, takes⟩
  obtain ⟨hw, hnone⟩ := hs.step_lose hc hr m
  have hrest := (hs.step m (.disconnected c false)).onTime_passing hw takes k.now k.now
  exact Session.onTime_cons (hnone ▸ .nil) hrest

/-- **The session is lost on time**, unless something intervenes. -/
theorem lost_on_time (hs : k.session.Sound) {c : ConnectionId} (hc : k.session.active = some c)
    (hr : k.session.config.reconnects = true) (takes : ConnectionId → Message → Bool)
    (after : List Event) :
    let opened := k.step (.lost takes c)
    let deadline := Deadline.after k.now k.session.config.restoreTimeout
    let k' := opened.run after
    opened.Undisturbed deadline after →
      k'.session.lifecycle.phase = (if k'.now < deadline then .restoring else .lost) ∧
        Effect.losses (k.chronicle (.lost takes c :: after)) =
          if k'.now < deadline then [] else [(deadline, .restoreTimeout)] := by
  intro opened deadline k' hu
  have hs₁ : opened.session.Sound := hs.run (k.inputs (.lost takes c))
  have hend := onTime_run hs₁ (onTime_lose hs hc hr takes) hu
  rw [chronicle_cons, Effect.losses_append]
  by_cases hnow : k'.now < deadline
  · obtain ⟨hw, hlosses⟩ := (if_pos hnow).mp hend
    have hs' : k'.session.Sound := opened.run_session after ▸ hs₁.run _
    rw [if_pos hnow, if_pos hnow]
    exact ⟨(hs'.2.of_window hw).1, hlosses⟩
  · rw [if_neg hnow, if_neg hnow]
    exact (if_neg hnow).mp hend

/-- **An open window ends the session on time, and a closed one never does.** If the active
connection is lost, the session is lost exactly at the deadline that is set then, unless a
handshake is completed before, or the session is closed, or the connection that is to complete
its handshake is ended on purpose. Nothing else that is tried changes that. After a handshake
the deadline has no effect, whatever windows are open later. -/
theorem window_closes_on_time {role : Role} {id : SessionId} {config : Config} {k₀ : Clocked}
    (h : Session.create role id config k₀.now = .ok k₀.session) (hr : config.reconnects = true) :
    (∀ (before : List Event) (takes : ConnectionId → Message → Bool) (c : ConnectionId)
      (after : List Event),
      let k := k₀.run before
      let opened := k.step (.lost takes c)
      let deadline := Deadline.after k.now config.restoreTimeout
      let k' := opened.run after
      k.session.active = some c → opened.Undisturbed deadline after →
        k'.session.lifecycle.phase = (if k'.now < deadline then .restoring else .lost) ∧
          Effect.losses (k₀.chronicle (before ++ .lost takes c :: after)) =
            if k'.now < deadline then [] else [(deadline, .restoreTimeout)]) ∧
      ∀ (inputs : List (Moment × Input)) (w : WindowEnd) (m : Moment) (input : Input)
        (later : List (Moment × Input)),
        let s := (k₀.session.run inputs).1
        let s' := ((s.step m input).1.run later).1
        s.windowEnd = some w → (s.step m input).1.handshakes ≠ s.handshakes →
          (∀ m', s'.step m' (.ring (.window w.epoch)) = (s', [])) ∧
            ∀ now time, (time, .window w.epoch) ∉ s'.alarms now := by
  have hs₀ := Session.Sound.start h
  constructor
  · intro before takes c after k opened deadline k' hc hu
    have hsession : k.session = (k₀.session.run (k₀.history before)).1 := k₀.run_session before
    have hs : k.session.Sound := hsession ▸ hs₀.run _
    have hconfig : k.session.config = config := by
      rw [hsession, hs₀.config_run]
      unfold Session.create at h
      split at h
      · cases h
      · rw [← Except.ok.inj h]
        rfl
    -- the session is connected, so nothing was lost before
    have hquiet : Effect.losses (k₀.chronicle before) = [] := by
      refine Effect.losses_of_lossless ?_
      rw [chronicle, Session.chronicle_map_snd]
      exact hs₀.lossless _ (hsession ▸ hs.1.not_over hc)
    rw [chronicle_append, Effect.losses_append, hquiet, List.nil_append]
    have hlost := lost_on_time hs hc (hconfig ▸ hr) takes after
    rw [hconfig] at hlost
    exact hlost hu
  · intro inputs w m input later s s' hw hh
    exact (hs₀.run inputs).stale_of_handshake hw hh later

/-- The client of a server asks for the handshake, and time passes. -/
def greeted (time : Nat) : List Event :=
  let takes := fun _ _ => true
  [.act takes .connect trivial,
    .act takes (.frame 0 (Message.handshake (.ofNat 1) 0 noSequence).encode) trivial,
    .pass takes time]

/-- A connection that is not used in time, one that carries no message, and the same loss
reported again. -/
def attempts : List Event :=
  let takes := fun _ _ => true
  [.pass takes 1000, .act takes .connect trivial, .pass takes 1000, .act takes .connect trivial,
    .act takes (.frame 2 []) trivial, .act takes (.disconnected 2 false) trivial,
    .act takes (.disconnected 0 false) trivial, .pass takes 5000]

/-- The loss after seven milliseconds ends the session five seconds later. If there is a
handshake in time, and then another loss, the first deadline does nothing. -/
theorem window_closes_on_time_attempts :
    let config : Config := { handshakeTimeout := 500 }
    let takes : ConnectionId → Message → Bool := fun _ _ => true
    let m : Moment := ⟨0, takes⟩
    let k₀ : Clocked := ⟨0, .start .server (.ofNat 1) config 0⟩
    let handshake (c : Nat) : Input := .frame c (Message.handshake (.ofNat 1) c noSequence).encode
    let before := [(m, .connect), (m, handshake 0), (m, .disconnected 0 false), (m, .connect)]
    let s := (((k₀.session.run before).1.step m (handshake 1)).1.run [(m, .disconnected 1 false)]).1
    (((k₀.run (greeted 7)).step (.lost takes 0)).run attempts).session.lifecycle.phase = .lost ∧
      Effect.losses (k₀.chronicle (greeted 7 ++ .lost takes 0 :: attempts)) =
        [(5007, .restoreTimeout)] ∧
      (k₀.session.run before).1.windowEnd = some ⟨1, 5000⟩ ∧ s.windowEnd = some ⟨3, 5000⟩ ∧
      s.step m (.ring (.window 1)) = (s, []) := by
  intro config takes m k₀ handshake before s
  have h : Session.create .server (.ofNat 1) config k₀.now = .ok k₀.session := rfl
  obtain ⟨hopen, hclosed⟩ := window_closes_on_time h rfl
  have hactive : (k₀.run (greeted 7)).session.active = some 0 := by decide +kernel
  have hquiet : ((k₀.run (greeted 7)).step (.lost takes 0)).Undisturbed 5007 attempts := by
    refine ⟨fun _ => id, fun _ => id, fun _ => id, fun _ => id, fun _ h => h ?_, fun _ => id,
      fun _ => id, fun _ => id, trivial⟩
    decide +kernel
  have hlate : ¬ (((k₀.run (greeted 7)).step (.lost takes 0)).run attempts).now < 5007 := by
    decide +kernel
  have hdeadline : Deadline.after (k₀.run (greeted 7)).now config.restoreTimeout = 5007 := by
    decide +kernel
  have hend := hopen (greeted 7) takes 0 attempts hactive
  rw [hdeadline] at hend
  obtain ⟨hphase, hlosses⟩ := hend hquiet
  have hwindow : (k₀.session.run before).1.windowEnd = some ⟨1, 5000⟩ := by decide +kernel
  have hrestored : ((k₀.session.run before).1.step m (handshake 1)).1.handshakes ≠
      (k₀.session.run before).1.handshakes := by decide +kernel
  have hlater : s.windowEnd = some ⟨3, 5000⟩ := by decide +kernel
  have hstale := hclosed before ⟨1, 5000⟩ m (handshake 1) [(m, .disconnected 1 false)] hwindow
  obtain ⟨hstale, -⟩ := hstale hrestored
  exact ⟨hphase.trans (if_neg hlate), hlosses.trans (if_neg hlate), hwindow, hlater, hstale m⟩

/-- If more than thirty years are asked for, the session is lost before. -/
theorem lost_after_thirty_years :
    let config : Config := { restoreTimeout := Deadline.horizon + 1 }
    let takes : ConnectionId → Message → Bool := fun _ _ => true
    let k₀ : Clocked := ⟨0, .start .server (.ofNat 1) config 0⟩
    let k := k₀.run (greeted 0)
    let opened := k.step (.lost takes 0)
    let after : List Event := [.pass takes Deadline.horizon]
    let k' := opened.run after
    Session.create .server (.ofNat 1) config 0 = .ok k₀.session ∧ config.reconnects = true ∧
      k.session.active = some 0 ∧
      opened.Undisturbed (k.now + config.restoreTimeout) after ∧
      k'.now < k.now + config.restoreTimeout ∧ k'.session.lifecycle.phase = .lost ∧
      Effect.losses (k₀.chronicle (greeted 0 ++ .lost takes 0 :: after)) =
        [(Deadline.horizon, .restoreTimeout)] := by
  intro config takes k₀ k opened after k'
  have hactive : k.session.active = some 0 := by decide +kernel
  have hearly : k'.now < k.now + config.restoreTimeout := by decide +kernel
  have hphase : k'.session.lifecycle.phase = .lost := by decide +kernel
  have hlosses : Effect.losses (k₀.chronicle (greeted 0 ++ .lost takes 0 :: after)) =
      [(Deadline.horizon, .restoreTimeout)] := by decide +kernel
  exact ⟨rfl, rfl, hactive, ⟨fun _ => id, trivial⟩, hearly, hphase, hlosses⟩

end Clocked

end Tether
