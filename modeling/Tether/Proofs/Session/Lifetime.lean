import Tether.Proofs.Session.Consistent

/-!
# What a session tells over its life

The layer above is told of messages and restorations, and then of at most one loss. Whatever
happens, a session goes on, or was ended by the layer above, or is lost, and only in the last
case it tells of a loss (`Sound.story`). When it is over, nothing happens any more
(`Gone.run`).
-/

namespace Tether

open Standing (Change lastPhase)

/-- Nothing tells of a loss. -/
def Lossless (news : List News) : Prop := ∀ reason, .notice (.lost reason) ∉ news

theorem Lossless.append {news news' : List News} (h : Lossless news) (h' : Lossless news') :
    Lossless (news ++ news') := by
  intro reason hmem
  rcases List.mem_append.mp hmem with hmem | hmem
  · exact h reason hmem
  · exact h' reason hmem

theorem Lossless.nil : Lossless [] := nofun

namespace Standing

variable {now : Nat} {s s' : Standing} {input : Session.Input} {news : List News}

/-- A session that is not over ends in a change, or tells of no loss. -/
theorem Change.loss_cases (h : Change now s input s' news)
    (ho : ¬ s.lifecycle.Over) :
    (¬ s'.lifecycle.Over ∧ input ≠ .close ∧ Lossless news) ∨
      ∃ reason, s.Ending input reason ∧ s'.lifecycle.phase = lastPhase reason ∧
        news = reason.toList.map fun r => .notice (.lost r) := by
  cases h with
  | stay payloads hi => exact .inl ⟨ho, fun h => ho (hi h), by simp [Lossless]⟩
  | connect hi => exact .inl ⟨ho, by simp [hi], .nil⟩
  | giveUp p hp hi => exact .inl ⟨ho, by rcases hi with h | h <;> simp [h], .nil⟩
  | complete p hp bytes hi =>
    have hphase := (Session.handshake_of_not_over ho).2.2
    refine .inl ⟨fun h => h.phase_ne.1 hphase, by simp [hi], ?_⟩
    split <;> simp [Lossless]
  | lose c hc hi =>
    exact .inl ⟨by simp [Lifecycle.Over, Phase.Final], by simp [hi], .nil⟩
  | finish reason _ he => exact .inr ⟨reason, he, rfl, rfl⟩

/-- The active connection goes only when its loss is reported, or when the session ends. -/
theorem Change.loss_of_inactive (h : Change now s input s' news) (ha : s.active ≠ none)
    (hn : s'.active = none) : (∃ c, input = .disconnected c false) ∨ s'.lifecycle.Over := by
  cases h with
  | stay | connect | giveUp => exact (ha hn).elim
  | complete p hp bytes hi => cases hn
  | lose c hc hi => exact .inl ⟨c, hi⟩
  | finish reason => exact .inr (over_finish s reason)

/-- A session tells that it is restored once for each handshake that replaces a lost
connection. -/
theorem Change.count_restored (h : Change now s input s' news) :
    news.count (.notice .restored) =
      if s.lifecycle.phase = .restoring ∧ s'.handshakes = s.handshakes + 1 then 1 else 0 := by
  cases h with
  | stay payloads =>
    have hnone : News.notice .restored ∉ payloads.map .message := by simp
    simp [List.count_eq_zero.mpr hnone]
  | connect | giveUp | lose => simp
  | complete p hp bytes hi =>
    by_cases hr : s.lifecycle.phase = .restoring <;> simp [hr]
  | finish reason ho he => rcases reason with _ | reason <;> simp [Standing.finish]

end Standing

namespace Session

variable {s s' s'' : Session} {e e' : List Effect}

/-! ### When it is over -/

/-- A session is over, and has no connections. -/
structure Gone (s : Session) : Prop where
  ended : s.lifecycle.Over
  active : s.active = none
  pending : s.pending = none

theorem Sound.gone (h : s.Sound) (ho : s.lifecycle.Over) : s.Gone := by
  obtain ⟨hactive, hpending, -⟩ := h.2.released ho
  exact ⟨ho, hactive, hpending⟩

/-- Nothing happens but that sends begin, and are refused. -/
structure Rests (s s' : Session) (e : List Effect) : Prop where
  same : ∃ waiting nextTicket, s' = { s with waiting, nextTicket }
  refused : ∀ x ∈ e, ∃ ticket, x = .sent ticket (.error .terminated)

theorem Rests.refl (s : Session) : Rests s s [] := ⟨⟨s.waiting, s.nextTicket, rfl⟩, nofun⟩

theorem Rests.trans (h : Rests s s' e) (h' : Rests s' s'' e') : Rests s s'' (e ++ e') := by
  obtain ⟨⟨_, _, rfl⟩, hrefused⟩ := h
  obtain ⟨⟨waiting, nextTicket, rfl⟩, hrefused'⟩ := h'
  refine ⟨⟨waiting, nextTicket, rfl⟩, fun x hx => ?_⟩
  rcases List.mem_append.mp hx with hx | hx
  · exact hrefused x hx
  · exact hrefused' x hx

theorem Rests.news (h : Rests s s' e) : Effect.news e = [] := by
  refine List.filterMap_eq_nil_iff.mpr fun x hx => ?_
  obtain ⟨ticket, rfl⟩ := h.refused x hx
  rfl

theorem Rests.gone (h : Rests s s' e) (hs : s.Gone) : s'.Gone := by
  obtain ⟨⟨_, _, rfl⟩, -⟩ := h
  exact ⟨hs.ended, hs.active, hs.pending⟩

theorem Gone.trySend (hs : s.Gone) (m : Moment) (payload : Bytes) :
    s.trySend m payload = ⟨.error .terminated, s, []⟩ := if_pos hs.ended

/-- A send that tries its luck is refused. -/
theorem Gone.attempt (hs : s.Gone) (m : Moment) (w : Waiting) :
    Rests s (s.attempt m w).1 (s.attempt m w).2 := by
  unfold Session.attempt
  split
  · exact ⟨⟨_, s.nextTicket, rfl⟩, nofun⟩
  · simp only [hs.trySend]
    rw [if_neg (by decide)]
    exact ⟨⟨s.waiting, s.nextTicket, rfl⟩, by simp⟩

/-- A send that begins is refused at once. -/
theorem Gone.send (hs : s.Gone) (m : Moment) (payload : Bytes) : s.send m payload =
    ⟨s.nextTicket, { s with nextTicket := s.nextTicket + 1 },
      [.sent s.nextTicket (.error .terminated)]⟩ := by
  have hover : ({ s with nextTicket := s.nextTicket + 1 } : Session).Gone :=
    ⟨hs.ended, hs.active, hs.pending⟩
  have hnot : ¬ Refusal.terminated.Temporary := by decide
  simp only [Session.send, Session.attempt, hover.trySend, hnot, Bool.true_eq_false, if_false,
    List.nil_append]

/-- No connection is taken. -/
theorem Gone.connect (hs : s.Gone) (m : Moment) :
    s.connect m = ⟨.error (.terminated s.id), s, []⟩ := if_pos hs.ended

theorem Gone.resume (hs : s.Gone) (m : Moment) : Rests s (s.resume m).1 (s.resume m).2 := by
  unfold Session.resume
  refine List.foldlRecOn (motive := fun acc : Session × List Effect => Rests s acc.1 acc.2)
    s.waiting _ ⟨⟨[], s.nextTicket, rfl⟩, nofun⟩ ?_
  intro acc hacc w _
  exact hacc.trans ((hacc.gone hs).attempt m w)

theorem Gone.not_has (hs : s.Gone) (c : ConnectionId) : ¬ s.Has c := by
  simp [Has, hs.active, hs.pending]

/-- **When a session is over, nothing happens any more.** -/
theorem Gone.step (hs : s.Gone) (m : Moment) (input : Input) :
    Rests s (s.step m input).1 (s.step m input).2 := by
  obtain ⟨hconnected, hrestoring⟩ := hs.ended.phase_ne
  have hflush : s.flush m = (s, []) := if_neg hconnected
  cases input with
  | trySend payload =>
    simp only [Session.step, hs.trySend]
    exact .refl s
  | send payload =>
    simp only [Session.step, hs.send]
    exact ⟨⟨s.waiting, _, rfl⟩, by simp⟩
  | resume => exact hs.resume m
  | close =>
    simp only [Session.step, close, Lifecycle.goodbye, hs.ended, if_true]
    exact .refl s
  | disconnect forced =>
    simp only [Session.step, disconnect, hs.active, hs.pending, Option.toList_none, List.map_nil,
      List.append_nil]
    exact .refl s
  | flush =>
    simp only [Session.step, hflush]
    exact .refl s
  | connect =>
    simp only [Session.step, hs.connect]
    exact .refl s
  | frame c bytes =>
    obtain ⟨hsame, hnone⟩ := receive_of_not_has (hs.not_has c) m bytes
    simp only [Session.step, hsame, hnone]
    exact .refl s
  | disconnected c forced =>
    simp only [Session.step, disconnected_of_not_has (hs.not_has c)]
    exact .refl s
  | ring alarm =>
    cases alarm with
    | window epoch =>
      simp only [Session.step, ring, expireWindow, Lifecycle.expire, hrestoring, false_and, if_false]
      exact .refl s
    | handshake c =>
      have hp : ¬ s.pending.any (·.conn = c) = true := fun h => hs.not_has c (.inr h)
      simp only [Session.step, ring, expireHandshake, if_neg hp]
      exact .refl s
    | idle =>
      simp only [Session.step, ring, hflush]
      exact .refl s

theorem Gone.run (hs : s.Gone) (inputs : List (Moment × Input)) :
    Rests s (s.run inputs).1 (s.run inputs).2 := by
  induction inputs generalizing s with
  | nil => exact .refl s
  | cons i inputs ih =>
    have hstep := hs.step i.1 i.2
    exact hstep.trans (ih (hstep.gone hs))

/-! ### The story of a session -/

/-- The layer above ends the session in a run: it closes it when it is not over. -/
def Leaves (s : Session) : List (Moment × Input) → Prop
  | [] => False
  | (m, input) :: rest => (input = .close ∧ ¬ s.lifecycle.Over) ∨ (s.step m input).1.Leaves rest

/-- How many lost connections are replaced in a run: handshakes that are completed while a
window is open. -/
def restorations (s : Session) : List (Moment × Input) → Nat
  | [] => 0
  | (m, input) :: rest =>
    let s' := (s.step m input).1
    (if s.lifecycle.phase = .restoring ∧ s'.handshakes = s.handshakes + 1 then 1 else 0) +
      s'.restorations rest

theorem Gone.not_leaves (hs : s.Gone) (inputs : List (Moment × Input)) : ¬ s.Leaves inputs := by
  induction inputs generalizing s with
  | nil => exact fun h => h
  | cons i inputs ih =>
    rintro (⟨-, ho⟩ | hrest)
    · exact ho hs.ended
    · exact ih ((hs.step i.1 i.2).gone hs) hrest

theorem over_of_lastPhase {l : Lifecycle} {reason : Option Loss} (h : l.phase = lastPhase reason) :
    l.Over := by
  unfold Lifecycle.Over
  rw [h]
  exact Standing.final_lastPhase reason

/-- **A session goes on, or the layer above ends it, or it is lost and tells so at last.** -/
theorem Sound.story (hs : s.Sound) (ho : ¬ s.lifecycle.Over) (inputs : List (Moment × Input)) :
    let s' := (s.run inputs).1
    let news := Effect.news (s.run inputs).2
    (¬ s'.lifecycle.Over ∧ ¬ s.Leaves inputs ∧ Lossless news) ∨
      (s'.lifecycle.phase = .closed ∧ s.Leaves inputs ∧ Lossless news) ∨
      ∃ reason news', s'.lifecycle.phase = lastPhase (some reason) ∧ ¬ s.Leaves inputs ∧
        Lossless news' ∧ news = news' ++ [.notice (.lost reason)] := by
  induction inputs generalizing s with
  | nil => exact .inl ⟨ho, fun h => h, .nil⟩
  | cons i inputs ih =>
    obtain ⟨m, input⟩ := i
    have hs' := hs.step m input
    simp only [Session.run, Leaves, Effect.news_append]
    rcases (hs.1.step_change m input).loss_cases ho with ⟨ho', hi, hnews⟩ | ⟨reason, he, hp, hnews⟩
    · -- the session goes on, and the rest of the run tells its story
      have hleaves : ¬ (input = .close ∧ ¬ s.lifecycle.Over) := fun h => hi h.1
      simp only [hleaves, false_or]
      rcases ih hs' ho' with ⟨hgoes, hnot, hrest⟩ | ⟨hclosed, hleft, hrest⟩ |
        ⟨reason, news', hp, hnot, hrest, heq⟩
      · exact .inl ⟨hgoes, hnot, hnews.append hrest⟩
      · exact .inr (.inl ⟨hclosed, hleft, hnews.append hrest⟩)
      · refine .inr (.inr ⟨reason, _, hp, hnot, hnews.append hrest, ?_⟩)
        rw [heq, List.append_assoc]
    · -- the session ends, and nothing happens after that
      have hover : (s.step m input).1.lifecycle.Over := by
        have hp : (s.step m input).1.lifecycle.phase = lastPhase reason := hp
        exact over_of_lastPhase hp
      have hgone := hs'.gone hover
      have hrests := hgone.run inputs
      have hphase : ((s.step m input).1.run inputs).1.lifecycle.phase = lastPhase reason := by
        obtain ⟨_, _, heq⟩ := hrests.same
        rw [heq]
        exact hp
      have hnot := hgone.not_leaves inputs
      rw [hnews, hrests.news, List.append_nil]
      cases reason with
      | none =>
        cases he
        exact .inr (.inl ⟨hphase, .inl ⟨rfl, ho⟩, .nil⟩)
      | some reason =>
        have hi : input ≠ .close := by cases he <;> nofun
        exact .inr (.inr ⟨reason, [], hphase, by simp [hi, hnot], .nil, rfl⟩)

/-- A session that is not over has told of no loss. -/
theorem Sound.lossless (hs : s.Sound) (inputs : List (Moment × Input))
    (ho : ¬ (s.run inputs).1.lifecycle.Over) : Lossless (Effect.news (s.run inputs).2) := by
  by_cases hs₀ : s.lifecycle.Over
  · exact (ho (((hs.gone hs₀).run inputs).gone (hs.gone hs₀)).ended).elim
  · rcases hs.story hs₀ inputs with ⟨-, -, hnews⟩ | ⟨hclosed, -, -⟩ | ⟨reason, -, hphase, -⟩
    · exact hnews
    · exact (ho (.inr hclosed)).elim
    · exact (ho (over_of_lastPhase hphase)).elim

/-- A session tells that it is restored as often as it is. -/
theorem Sound.count_restored (hs : s.Sound) (inputs : List (Moment × Input)) :
    (Effect.news (s.run inputs).2).count (.notice .restored) = s.restorations inputs := by
  induction inputs generalizing s with
  | nil => rfl
  | cons i inputs ih =>
    simp only [Session.run, restorations, Effect.news_append, List.count_append, ih (hs.step i.1 i.2),
      (hs.1.step_change i.1 i.2).count_restored]
    rfl

/-- **Nothing more will happen to a session**: nothing about it changes but which sends wait,
and it does nothing but refuse them. -/
structure AtRest (s : Session) : Prop where
  rests : ∀ later, Rests s (s.run later).1 (s.run later).2
  connect : ∀ m, (s.connect m).answer = .error (.terminated s.id)
  trySend : ∀ m payload, (s.trySend m payload).answer = .error .terminated
  send : ∀ m payload, (s.send m payload).effects = [.sent s.nextTicket (.error .terminated)]

theorem Gone.atRest (hs : s.Gone) : s.AtRest where
  rests := hs.run
  connect := fun m => by rw [hs.connect]
  trySend := fun m payload => by rw [hs.trySend]
  send := fun m payload => by rw [hs.send]

/-- **What a session tells over its life.** It tells of messages and restorations, and then of
at most one loss. It tells of a loss exactly if it is over and the layer above did not end it,
and of a goodbye exactly if it is closed. It tells of as many restorations as there were
handshakes while a window was open. When it is over, nothing more happens. -/
theorem lifecycle_discipline {role : Role} {id : SessionId} {config : Config} {now : Nat}
    {s₀ : Session} (h : create role id config now = .ok s₀) (inputs : List (Moment × Input)) :
    let s := (s₀.run inputs).1
    let news := Effect.news (s₀.run inputs).2
    (∃ l, Lossless l ∧ (news = l ∨ ∃ reason, news = l ++ [.notice (.lost reason)])) ∧
      ((∃ reason, .notice (.lost reason) ∈ news) ↔ s.lifecycle.Over ∧ ¬ s₀.Leaves inputs) ∧
      (∀ reason, .notice (.lost reason) ∈ news →
        (reason = .goodbye ↔ s.lifecycle.phase = .closed)) ∧
      news.count (.notice .restored) = s₀.restorations inputs ∧
      (s.lifecycle.Over → s.AtRest) := by
  intro s news
  have hs := Sound.start h
  have ho : ¬ s₀.lifecycle.Over := by
    unfold create at h
    split at h <;> cases h
    simp [start, Lifecycle.Over, Phase.Final]
  have hcount := hs.count_restored inputs
  have hrest : s.lifecycle.Over → s.AtRest := fun ho => ((hs.run inputs).gone ho).atRest
  have hnone (hnews : Lossless news) : ¬ ∃ reason, .notice (.lost reason) ∈ news := by
    rintro ⟨reason, hmem⟩
    exact hnews reason hmem
  rcases hs.story ho inputs with ⟨hgoes, hnot, hnews⟩ | ⟨hclosed, hleft, hnews⟩ |
    ⟨reason, news', hphase, hnot, hnews, heq⟩
  · have hlost : (∃ reason, .notice (.lost reason) ∈ news) ↔ s.lifecycle.Over ∧ ¬ s₀.Leaves inputs :=
      iff_of_false (hnone hnews) fun h => hgoes h.1
    exact ⟨⟨news, hnews, .inl rfl⟩, hlost, fun r hmem => (hnews r hmem).elim, hcount, hrest⟩
  · have hlost : (∃ reason, .notice (.lost reason) ∈ news) ↔ s.lifecycle.Over ∧ ¬ s₀.Leaves inputs :=
      iff_of_false (hnone hnews) fun h => h.2 hleft
    exact ⟨⟨news, hnews, .inl rfl⟩, hlost, fun r hmem => (hnews r hmem).elim, hcount, hrest⟩
  · have hmem : News.notice (.lost reason) ∈ news := by simp [news, heq]
    have hover : s.lifecycle.Over := over_of_lastPhase hphase
    refine ⟨⟨news', hnews, .inr ⟨reason, heq⟩⟩, ⟨fun _ => ⟨hover, hnot⟩, fun _ => ⟨reason, hmem⟩⟩,
      fun reason' hmem' => ?_, hcount, hrest⟩
    have hsame : reason' = reason := by
      rw [show news = _ from heq] at hmem'
      rcases List.mem_append.mp hmem' with hmem' | hmem'
      · exact (hnews reason' hmem').elim
      · simpa using hmem'
    subst hsame
    cases reason' <;> simp [s, hphase, lastPhase]

/-- The client of a server comes back once after a loss, once more before the server knows of
one, and then stays away. -/
def visits (m : Moment) : List (Moment × Input) :=
  let handshake (c : Nat) : Input := .frame c (Message.handshake (.ofNat 1) c noSequence).encode
  [(m, .connect), (m, handshake 0), (m, .frame 0 (Message.send (.ofNat 1) 0 noSequence []).encode),
    (m, .disconnected 0 false), (m, .connect), (m, handshake 1), (m, .connect), (m, handshake 2),
    (m, .disconnected 2 false), (m, .ring (.window 1)), (m, .ring (.window 3))]

/-- The server tells of the message, of one restoration and of the loss, and that is all. -/
theorem lifecycle_discipline_visits :
    let m : Moment := ⟨0, fun _ _ => true⟩
    let s₀ := start .server (.ofNat 1) {} 0
    let s := (s₀.run (visits m)).1
    Effect.news (s₀.run (visits m)).2 =
        [.message [], .notice .restored, .notice (.lost .restoreTimeout)] ∧
      s₀.restorations (visits m) = 1 ∧ ¬ s₀.Leaves (visits m) ∧ s.lifecycle.phase = .lost ∧
      s.AtRest := by
  intro m s₀ s
  have hnews : Effect.news (s₀.run (visits m)).2 =
      [.message [], .notice .restored, .notice (.lost .restoreTimeout)] := by decide +kernel
  have hphase : s.lifecycle.phase = .lost := by decide +kernel
  have hs₀ : create .server (.ofNat 1) {} 0 = .ok s₀ := rfl
  obtain ⟨-, hlost, -, hcount, hrest⟩ := lifecycle_discipline hs₀ (visits m)
  have hover : s.lifecycle.Over := .inl hphase
  refine ⟨hnews, ?_, (hlost.mp ⟨.restoreTimeout, ?_⟩).2, hphase, hrest hover⟩
  · rw [← hcount, hnews]
    rfl
  · rw [hnews]
    simp

end Session

end Tether
