import Tether.Proofs.Session.Clock
import Tether.Proofs.Session.Connections

/-!
# Ending a session on purpose

The layer above may ask a session to close its connections on purpose. That ends the session
only when the loss of one of them is reported, and only if the session still has it then. A
connection that came later may complete its handshake before that (`Overtaken`): the reports
have no effect any more, and the session goes on as if nobody had asked. Otherwise the session
ends (`ended_unless_overtaken`).
-/

namespace Tether

/-- Numbers are given to connections one after the other. -/
theorem Standing.Change.nextConnection_le {now : Nat} {s s' : Standing} {input : Session.Input}
    {news : List News} (h : Change now s input s' news) : s.nextConnection ≤ s'.nextConnection := by
  cases h with
  | connect => exact Nat.le_succ _
  | stay | giveUp | complete | lose | finish => exact le_rfl

namespace Session

variable {m : Moment} {s s' : Session} {c : ConnectionId}

/-! ### The connections of a session -/

/-- What a session has, it gave a number. -/
theorem Coherent.lt_of_has (hs : s.Coherent) (hc : s.Has c) : c < s.nextConnection := by
  rcases has_iff.mp hc with hc | hc
  · exact hs.numbered c hc
  · exact hs.numbered_of_awaits hc

/-- The connections that are asked to close are those that the session has. -/
theorem close_mem_disconnect {forced : Bool} :
    .close c forced ∈ (s.step m (.disconnect forced)).2 ↔ s.Has c := by
  rw [has_iff]
  cases ha : s.active <;> cases hp : s.pending <;>
    simp [step, disconnect, Awaits, ha, hp, eq_comm]

/-- A connection that a session does not have is none that it is going to have. -/
theorem dropped_of_not_has (hn : c < s.nextConnection) (hc : ¬ s.Has c) : s.Dropped c := by
  rw [has_iff, not_or] at hc
  exact ⟨hn, hc.2, hc.1⟩

theorem Dropped.not_has (hc : s.Dropped c) : ¬ s.Has c := by
  rw [has_iff, not_or]
  exact ⟨hc.active, hc.pending⟩

theorem Dropped.step (hc : s.Dropped c) (hs : s.Coherent) (m : Moment) (input : Input) :
    (s.step m input).1.Dropped c :=
  (hc.fared ((hs.step_goes m input).fared hs c)).2

/-- The report that a connection is lost, which the session let go of, means nothing. -/
theorem Dropped.disconnected (hc : s.Dropped c) (m : Moment) (forced : Bool) :
    s.step m (.disconnected c forced) = (s, []) :=
  disconnected_of_not_has hc.not_has m forced

/-- The report that a connection which the session has was ended on purpose is the end of it. -/
theorem Coherent.over_of_forced (hs : s.Coherent) (m : Moment) (hc : s.Has c) :
    (s.step m (.disconnected c true)).1.lifecycle.Over := by
  rcases has_iff.mp hc with ha | ⟨p, hp, rfl⟩
  · have hnot : ¬ s.pending.any (·.conn = c) = true := fun h => hs.not_awaits ha (awaits_iff.mp h)
    have ho := disconnect_forced (hs.not_over ha)
    simp only [Session.step, Session.disconnected, if_neg hnot, if_pos (show s.Active c from ha), ho,
      afterLoss]
    exact .inl rfl
  · have hany : s.pending.any (·.conn = p.conn) = true := awaits_iff.mpr ⟨p, hp, rfl⟩
    have ho := disconnect_forced (hs.not_over_of_pending hp)
    simp only [Session.step, Session.disconnected, if_pos hany, if_true, ho, afterLoss]
    exact .inl rfl

theorem Coherent.nextConnection_le_run (hs : s.Coherent) (inputs : List (Moment × Input)) :
    s.nextConnection ≤ (s.run inputs).1.nextConnection := by
  induction inputs generalizing s with
  | nil => exact le_rfl
  | cons i inputs ih =>
    exact (hs.step_change i.1 i.2).nextConnection_le.trans (ih (hs.step i.1 i.2))

/-- The connections with older numbers that a session has after a run, it had before. -/
theorem Coherent.has_of_run (hs : s.Coherent) (inputs : List (Moment × Input))
    (hn : c < s.nextConnection) (hc : (s.run inputs).1.Has c) : s.Has c := by
  by_contra hnot
  exact ((dropped_of_not_has hn hnot).fared (hs.run_fared inputs c)).2.not_has hc

/-! ### Reports that mean nothing -/

/-- The report that a connection is lost, which the session had. -/
def Input.Reports (s : Session) : Input → Prop
  | .disconnected c _ => s.Has c
  | _ => False

instance (s : Session) : (input : Input) → Decidable (input.Reports s)
  | .disconnected c _ => inferInstanceAs (Decidable (s.Has c))
  | .trySend _ | .send _ | .resume | .close | .disconnect _ | .flush | .connect | .frame _ _
  | .ring _ => inferInstanceAs (Decidable False)

/-- What happens in a run but the reports on the connections that the session had. -/
def unreported (s : Session) (inputs : List (Moment × Input)) : List (Moment × Input) :=
  inputs.filter fun i => ¬ i.2.Reports s

/-- A session that let go of the connections does not hear of them. -/
theorem Coherent.run_unreported (hs' : s'.Coherent) (hc : ∀ c, s.Has c → s'.Dropped c)
    (inputs : List (Moment × Input)) : s'.run inputs = s'.run (s.unreported inputs) := by
  induction inputs generalizing s' with
  | nil => rfl
  | cons i inputs ih =>
    obtain ⟨m, input⟩ := i
    have hrest := ih (hs'.step m input) fun c h => (hc c h).step hs' m input
    by_cases hi : input.Reports s
    · have hsame : s'.step m input = (s', []) := by
        cases input with
        | disconnected c forced => exact (hc c hi).disconnected m forced
        | _ => exact hi.elim
      have hskip : s.unreported ((m, input) :: inputs) = s.unreported inputs :=
        List.filter_cons_of_neg (by simpa using hi)
      rw [hsame] at hrest
      rw [hskip, ← hrest, run, hsame, List.nil_append]
    · have hkeep : s.unreported ((m, input) :: inputs) = (m, input) :: s.unreported inputs :=
        List.filter_cons_of_pos (by simpa using hi)
      rw [hkeep, run, run, hrest]

/-! ### Ends on purpose -/

/-- A connection that came later completed its handshake. -/
def Overtaken (s s' : Session) : Prop := ∃ c ∈ s'.active, s.nextConnection ≤ c

instance (s s' : Session) : Decidable (s.Overtaken s') :=
  inferInstanceAs (Decidable (∃ c ∈ s'.active, s.nextConnection ≤ c))

/-- It is newer than all that the session had. -/
theorem Overtaken.dropped (h : s.Overtaken s') (hs : s.Coherent) (hs' : s'.Coherent) (hc : s.Has c) :
    s'.Dropped c := by
  obtain ⟨c', hc', hle⟩ := h
  have hlt : c < c' := (hs.lt_of_has hc).trans_le hle
  refine ⟨hlt.trans (hs'.numbered c' hc'), ?_, ?_⟩
  · rintro ⟨p, hp, rfl⟩
    exact (hs'.older c' hc' p hp).not_gt hlt
  · intro ha
    cases ha.symm.trans hc'
    exact lt_irrefl c hlt

/-- The reports are still awaited: an active connection is left of those that the session had,
and each of them that it still has is going to be reported. -/
structure Awaiting (s s' : Session) (rest : List (Moment × Input)) : Prop where
  active : ∃ c ∈ s'.active, s.Has c
  owed : ∀ c, s.Has c → s'.Has c → ∃ m, (m, .disconnected c true) ∈ rest

/-- **The next thing that happens** ends the session, or overtakes the reports, or they are
still awaited. -/
theorem Awaiting.step (hs : s.Sound) {l rest : List (Moment × Input)} {input : Input}
    (h : s.Awaiting (s.run l).1 ((m, input) :: rest))
    (hforced : ∀ c, s.Has c → input ≠ .disconnected c false) :
    let s' := (s.run (l ++ [(m, input)])).1
    s'.lifecycle.Over ∨ s.Overtaken s' ∨ s.Awaiting s' rest := by
  intro s'
  have hsound := hs.run l
  have hlast : s' = ((s.run l).1.step m input).1 := by simp only [s', run_append, run]
  by_cases hi : ∃ c, (s.run l).1.Has c ∧ input = .disconnected c true
  · obtain ⟨c, hc, rfl⟩ := hi
    rw [hlast]
    exact .inl (hsound.1.over_of_forced m hc)
  have howed : ∀ c, s.Has c → s'.Has c → ∃ m, (m, .disconnected c true) ∈ rest := by
    intro c hc hc'
    have hn : c < (s.run l).1.nextConnection :=
      (hs.1.lt_of_has hc).trans_le (hs.1.nextConnection_le_run l)
    rw [hlast] at hc'
    have hhas : (s.run l).1.Has c := hsound.1.has_of_run [(m, input)] hn hc'
    obtain ⟨m', hm'⟩ := h.owed c hc hhas
    rcases List.mem_cons.mp hm' with heq | hm'
    · cases heq
      exact (hi ⟨c, hhas, rfl⟩).elim
    · exact ⟨m', hm'⟩
  have hstands {c : ConnectionId} (hc : s'.active = some c) (hold : s.nextConnection ≤ c ∨ s.Has c) :
      s'.lifecycle.Over ∨ s.Overtaken s' ∨ s.Awaiting s' rest :=
    hold.elim (fun hle => .inr (.inl ⟨c, hc, hle⟩)) fun hc' => .inr (.inr ⟨⟨c, hc, hc'⟩, howed⟩)
  obtain ⟨c, hc, hhas⟩ := h.active
  have hchange := hsound.1.step_change m input
  rw [← hlast] at hchange
  generalize hst : s'.standing = st at hchange
  have hactive : s'.active = st.active := congrArg Standing.active hst
  generalize Effect.news ((s.run l).1.step m input).2 = news at hchange
  cases hchange with
  | stay => exact hstands (hactive.trans hc) (.inr hhas)
  | connect => exact hstands (hactive.trans hc) (.inr hhas)
  | giveUp => exact hstands (hactive.trans hc) (.inr hhas)
  | complete p =>
    refine hstands hactive ((le_or_gt s.nextConnection p.conn).imp_right fun hlt => ?_)
    exact hs.1.has_of_run _ hlt (.inl hactive)
  | lose c' hc' hi =>
    cases hc.symm.trans hc'
    exact (hforced c hhas hi).elim
  | finish reason =>
    left
    have hlifecycle : s'.lifecycle = _ := congrArg Standing.lifecycle hst
    rw [hlifecycle]
    exact Standing.over_finish _ reason

/-- **A session that is ended on purpose ends, unless it is overtaken.** The layer above asks it
to close its connections on purpose, and the loss of each of them is reported as on purpose. If
no connection that came later completes its handshake before, the session is over then, whatever
else happens. If one does, the reports on the old connections have no effect any more: the
session goes on as it would without them. -/
theorem ended_unless_overtaken (m : Moment) (h : s.Reachable) (ha : s.active.isSome)
    (inputs : List (Moment × Input))
    (hreported : ∀ c, .close c true ∈ (s.step m (.disconnect true)).2 →
      (∃ m, (m, .disconnected c true) ∈ inputs) ∧ ∀ m, (m, .disconnected c false) ∉ inputs) :
    let called := (s.step m (.disconnect true)).1
    ((∀ l, l <+: inputs → ¬ s.Overtaken (called.run l).1) → (called.run inputs).1.lifecycle.Over) ∧
      ∀ l l', inputs = l ++ l' → s.Overtaken (called.run l).1 →
        (called.run l).1.run l' = (called.run l).1.run (s.unreported l') := by
  intro called
  have hs := h.sound
  have hcalled : called = s := rfl
  simp only [close_mem_disconnect] at hreported
  rw [hcalled]
  refine ⟨fun hnot => ?_, fun l l' _ hover => ?_⟩
  · obtain ⟨c, hc⟩ := Option.isSome_iff_exists.mp ha
    -- the reports stay awaited until the session ends, and at last there is nothing to await
    suffices hall : ∀ rest l, inputs = l ++ rest → s.Awaiting (s.run l).1 rest →
        (s.run inputs).1.lifecycle.Over by
      exact hall inputs [] rfl ⟨⟨c, hc, .inl hc⟩, fun c hc _ => (hreported c hc).1⟩
    intro rest
    induction rest with
    | nil =>
      intro l hl hawaits
      obtain ⟨c, hc, hhas⟩ := hawaits.active
      obtain ⟨m, hm⟩ := hawaits.owed c hhas (.inl hc)
      cases hm
    | cons i rest ih =>
      intro l hl hawaits
      have hl' : inputs = (l ++ [i]) ++ rest := by rw [hl, List.append_assoc]; rfl
      have hforced : ∀ c, s.Has c → i.2 ≠ .disconnected c false := by
        intro c hc hi
        refine (hreported c hc).2 i.1 ?_
        rw [hl, ← hi]
        exact List.mem_append_right l List.mem_cons_self
      rcases hawaits.step hs hforced with hover | hover | hawaits
      · rw [hl', run_append]
        have hgone := (hs.run (l ++ [i])).gone hover
        exact ((hgone.run rest).gone hgone).ended
      · exact (hnot _ (hl' ▸ List.prefix_append _ _) hover).elim
      · exact ih (l ++ [i]) hl' hawaits
  · have hs' := (hs.run l).1
    exact hs'.run_unreported (fun c hc => hover.dropped hs.1 hs' hc) l'

/-- A handshake with a server comes on a connection. -/
def Input.greets (c : ConnectionId) : Input :=
  .frame c (Message.handshake (.ofNat 1) c noSequence).encode

/-- A server's session has connection 0, and connection 1 is to complete its handshake. -/
def replacing (m : Moment) : List (Moment × Input) := [(m, .connect), (m, .greets 0), (m, .connect)]

/-- The pending connection replaces the active one after the call, and another one comes. The first
report is on a connection that was replaced, and the second one ends the session. -/
theorem ended_unless_overtaken_replacing :
    let m : Moment := ⟨0, fun _ _ => true⟩
    let s := ((start .server (.ofNat 1) {} 0).run (replacing m)).1
    let inputs := [(m, .greets 1), (m, .connect), (m, .disconnected 0 true),
      (m, .disconnected 1 true)]
    (s.active = some 0 ∧ s.Has 1) ∧ ((s.step m (.disconnect true)).1.run inputs).1.lifecycle.Over := by
  intro m s inputs
  have hs : s.Reachable := ⟨.server, .ofNat 1, {}, 0, _, _, rfl, rfl⟩
  have hstands : s.active = some 0 ∧ s.pending.map (·.conn) = some 1 := by decide +kernel
  have hhas : ∀ c, s.Has c → c = 0 ∨ c = 1 := by
    intro c hc
    rcases has_iff.mp hc with hc | ⟨p, hp, rfl⟩
    · exact .inl (Option.some.inj (hc.symm.trans hstands.1))
    · rw [show s.pending = some p from hp] at hstands
      exact .inr (Option.some.inj hstands.2)
  have hintime : ∀ n ≤ inputs.length,
      ¬ s.Overtaken ((s.step m (.disconnect true)).1.run (inputs.take n)).1 := by decide +kernel
  refine ⟨⟨hstands.1, by decide +kernel⟩, ?_⟩
  refine (ended_unless_overtaken m hs (by simp [hstands.1]) inputs ?_).1 ?_
  · intro c hc
    rw [close_mem_disconnect] at hc
    rcases hhas c hc with rfl | rfl
    · simp [inputs, Input.greets]
    · simp [inputs, Input.greets]
  · intro l hl
    rw [List.prefix_iff_eq_take.mp hl]
    exact hintime l.length hl.length_le

/-- **A connection that comes after the call** may undo it: it completes its handshake before the
report, which is on a connection that the session does not have any more. -/
theorem forced_disconnect_undone :
    let m : Moment := ⟨0, fun _ _ => true⟩
    let s := ((start .server (.ofNat 1) {} 0).run [(m, .connect), (m, .greets 0)]).1
    let inputs := [(m, .connect), (m, .greets 1), (m, .disconnected 0 true)]
    let s' := ((s.step m (.disconnect true)).1.run inputs).1
    s.Reachable ∧ ¬ s.lifecycle.Over ∧ s.active = some 0 ∧
      (∀ c, .close c true ∈ (s.step m (.disconnect true)).2 → (m, .disconnected c true) ∈ inputs) ∧
      ¬ s'.lifecycle.Over ∧ s'.active = some 1 := by
  intro m s inputs s'
  have hstands : s.active = some 0 ∧ s.pending = none := by decide +kernel
  refine ⟨⟨.server, .ofNat 1, {}, 0, _, _, rfl, rfl⟩, by decide +kernel, hstands.1, ?_,
    by decide +kernel, by decide +kernel⟩
  intro c hc
  rw [close_mem_disconnect] at hc
  rcases has_iff.mp hc with hc | ⟨p, hp, -⟩
  · cases hstands.1.symm.trans hc
    simp [inputs]
  · rw [hstands.2] at hp
    cases hp

end Session

end Tether
