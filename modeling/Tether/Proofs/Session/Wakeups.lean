import Tether.Proofs.Session.Lifetime
import Tether.Proofs.Session.Senders

/-!
# No wakeup is lost

Room for a payload comes in a turn that wakes all who wait, whoever waits
(`Books.signals_or_tightens`). What wakes them is the same turn that made room, so there is no
moment between at which a send could go to sleep.

Main result: nobody who is not woken waits for room that there is; when those who were woken have
tried again there is no room for the rest; and when the session is over they are all refused
(`no_lost_wakeup`).
-/

namespace Tether.Session

open Effect (results)

variable {m : Moment} {s s' : Session} {w : Waiting} {e : List Effect} {l : List Entry}
  {told : List (Nat × Except Refusal Int)} {calls : List Bytes}

/-! ### Wakeups -/

theorem attemptAll_tightens (m : Moment) (s : Session) (l : List Waiting) :
    s.Tightens (s.attemptAll m l).1 := by
  induction l generalizing s with
  | nil => exact .refl s
  | cons w l ih => exact (tries_attempt m s w).tightens.trans (ih _)

/-- **A turn wakes all who wait, or makes no room** and does not end the session. -/
theorem Books.signals_or_tightens (h : Books s [] l told calls) (m : Moment) (t : Turn) :
    Signals (fun s => (s.turn m t).1) s ∨ s.Tightens (s.turn m t).1 := by
  cases t with
  | retry ticket =>
    refine .inr ?_
    simp only [Session.turn, Session.retry]
    cases s.waiting.find? (·.ticket = ticket) with
    | none => exact .refl s
    | some w => exact (tries_attempt m _ _).tightens.of_eq rfl rfl
  | input input =>
    by_cases hi : input.Sends
    · refine .inr ?_
      cases input with
      | trySend payload => exact (h.trySend m payload).2.2
      | send payload => exact (tries_attempt m _ _).tightens.of_eq rfl rfl
      | resume =>
        simp only [Session.turn, step, resume_eq]
        exact (attemptAll_tightens m { s with waiting := [] } s.waiting).of_eq rfl rfl
      | _ => exact hi.elim
    · obtain ⟨log, hk, -⟩ := h.log
      exact ((step_stirred s m hi).signals_or_tightens hk).imp And.left And.left

theorem Tries.unwoken {x : List Entry} (h : Tries m s w s' e x) :
    ∀ w' ∈ s'.waiting, w' ∈ s.waiting ∨ w'.woken = false := by
  cases h with
  | waits =>
    intro w' hw'
    exact (List.mem_append.mp hw').imp_right fun hw' => by rw [List.mem_singleton.mp hw']
  | fails | succeeds => exact fun w' hw' => .inl hw'

theorem attemptAll_unwoken (m : Moment) (s : Session) (l : List Waiting) :
    ∀ w ∈ (s.attemptAll m l).1.waiting, w ∈ s.waiting ∨ w.woken = false := by
  induction l generalizing s with
  | nil => exact fun w hw => .inl hw
  | cons w l ih =>
    intro w' hw'
    rcases ih _ w' hw' with hw' | hw'
    · exact (tries_attempt m s w).unwoken w' hw'
    · exact .inr hw'

/-- When those who were woken have tried again, there is no room for those who still wait. -/
theorem Books.resume (h : Books s [] l told calls) (m : Moment) :
    ∀ w ∈ (s.resume m).1.waiting, (s.resume m).1.Full w.payload := by
  intro w hw
  have hbooks := h.turn m (.input .resume)
  have hfair := hbooks.fair w (List.mem_append_left _ hw)
  have hwoken : w.woken = false := by
    rw [resume_eq] at hw
    exact (attemptAll_unwoken m _ s.waiting w hw).resolve_left nofun
  exact hfair.resolve_left (by simp [hwoken])

/-! ### The end -/

/-- When the session is over, a send that is woken is refused. -/
theorem Tries.of_over {x : List Entry} (h : Tries m s w s' e x) (ho : s.lifecycle.Over)
    (hw : w.woken = true) : s' = s ∧ e = [.sent w.ticket (.error .terminated)] := by
  cases h with
  | waits hwaits =>
    rcases hwaits with hnot | hr
    · simp [hw] at hnot
    · exact absurd ho (refused_iff.mp hr).1
  | fails r hr hover => exact ⟨rfl, by rw [hover ho]⟩
  | succeeds inbox effects he hnot => exact absurd ho hnot

theorem attemptAll_of_over (m : Moment) (ho : s.lifecycle.Over) {waiting : List Waiting}
    (hw : ∀ w ∈ waiting, w.woken = true) : s.attemptAll m waiting =
      (s, waiting.map fun w => .sent w.ticket (.error .terminated)) := by
  induction waiting with
  | nil => rfl
  | cons w waiting ih =>
    obtain ⟨hw, hrest⟩ := List.forall_mem_cons.mp hw
    obtain ⟨hsame, hrefused⟩ := (tries_attempt m s w).of_over ho hw
    simp only [Session.attemptAll, hsame, hrefused, ih hrest, List.map_cons, List.cons_append,
      List.nil_append]

theorem Gone.turn (hs : s.Gone) (m : Moment) (t : Turn) :
    Rests s (s.turn m t).1 (s.turn m t).2 := by
  cases t with
  | input input => exact hs.step m input
  | retry ticket =>
    simp only [Session.turn, Session.retry]
    cases s.waiting.find? (·.ticket = ticket) with
    | none => exact .refl s
    | some w =>
      have hrest : Rests s { s with waiting := s.waiting.erase w } [] :=
        ⟨⟨_, s.nextTicket, rfl⟩, by simp⟩
      exact hrest.trans ((hrest.gone hs).attempt m w.rouse)

theorem Gone.turns (hs : s.Gone) (turns : List (Moment × Turn)) :
    Rests s (s.turns turns).1 (s.turns turns).2 := by
  induction turns generalizing s with
  | nil => exact .refl s
  | cons x turns ih =>
    have hturn := hs.turn x.1 x.2
    exact hturn.trans (ih (hturn.gone hs))

theorem Sound.turn (hs : s.Sound) (m : Moment) (t : Turn) : (s.turn m t).1.Sound := by
  cases t with
  | input input => exact hs.step m input
  | retry ticket =>
    simp only [Session.turn, Session.retry]
    cases s.waiting.find? (·.ticket = ticket) with
    | none => exact hs
    | some w =>
      have hcoherent : ({ s with waiting := s.waiting.erase w } : Session).Coherent := { hs.1 with }
      refine ⟨(hcoherent.attempt m w.rouse).1.coherent hcoherent, ?_⟩
      rw [(attempt_standing m _ _).1]
      exact hs.2

theorem Sound.turns (hs : s.Sound) (turns : List (Moment × Turn)) : (s.turns turns).1.Sound := by
  induction turns generalizing s with
  | nil => exact hs
  | cons x turns ih => exact ih (hs.turn x.1 x.2)

/-! ### All together -/

/-- **Nobody who sends is forgotten.** -/
structure Attends (s : Session) : Prop where
  /-- A turn that makes room for a payload, or ends the session, wakes all who wait, whoever that
  is. -/
  signals : ∀ m t, (∃ payload, s.Refused m payload ∧ ¬ (s.turn m t).1.Refused m payload) ∨
    ¬ s.lifecycle.Over ∧ (s.turn m t).1.lifecycle.Over → Signals (fun s => (s.turn m t).1) s
  /-- For those that are not woken there is no room. -/
  waits : ∀ w ∈ s.waiting, w.woken = false → ∀ m, s.Refused m w.payload
  /-- When those that were woken have tried again, there is no room for anyone who waits. -/
  resumed : ∀ m, ∀ w ∈ (s.resume m).1.waiting, ∀ m', (s.resume m).1.Refused m' w.payload
  /-- When the session is over, all that wait are refused as they try again, -/
  refused : s.lifecycle.Over → ∀ m, (s.resume m).1.waiting = [] ∧
    results (s.resume m).2 = s.waiting.map fun w => (w.ticket, .error .terminated)
  /-- and so is whoever tries later. -/
  ended : s.lifecycle.Over → ∀ later, ∀ x ∈ results (s.turns later).2, x.2 = .error .terminated

theorem Rests.results_eq (h : Rests s s' e) : ∀ x ∈ results e, x.2 = .error .terminated := by
  intro x hx
  obtain ⟨effect, heffect, hresult⟩ := List.mem_filterMap.mp hx
  obtain ⟨ticket, rfl⟩ := h.refused effect heffect
  cases hresult
  rfl

theorem Books.attends (h : Books s [] l told calls) (hs : s.Sound) : s.Attends where
  signals := by
    intro m t ht
    refine (h.signals_or_tightens m t).resolve_right fun htight => ?_
    obtain ⟨payload, hr, hr'⟩ | ⟨ho, ho'⟩ := ht
    · exact hr' (refused_iff.mpr (htight.full (refused_iff.mp hr)))
    · exact ho (htight.over_of ho')
  waits := by
    intro w hw hwoken m
    have hfair := h.fair w (List.mem_append_left _ hw)
    exact refused_iff.mpr (hfair.resolve_left (by simp [hwoken]))
  resumed := fun m w hw m' => refused_iff.mpr (h.resume m w hw)
  refused := by
    intro ho m
    have hwoken : ∀ w ∈ s.waiting, w.woken = true := fun w hw =>
      (h.fair w (List.mem_append_left _ hw)).resolve_right fun hfull => hfull.1 ho
    have hover : ({ s with waiting := [] } : Session).lifecycle.Over := ho
    rw [resume_eq, attemptAll_of_over m hover hwoken]
    refine ⟨rfl, ?_⟩
    simp [results, List.filterMap_map, Function.comp_def, Effect.result?]
  ended := fun ho later => ((hs.gone ho).turns later).results_eq

/-- **No wakeup is lost.** Whatever happens to a session, and whenever those who wait try again: a
turn that makes room for a payload, or ends the session, wakes all who wait, and nobody who is not
woken waits for room that there is. Every send that began waits or was told once, is accepted once
at most, and was told the number under which it was accepted. When the session is over, all that
wait are refused. -/
theorem no_lost_wakeup {role : Role} {id : SessionId} {config : Config} {now : Nat}
    {s₀ : Session} (h : create role id config now = .ok s₀) (turns : List (Moment × Turn)) :
    let s := (s₀.turns turns).1
    let told := results (s₀.turns turns).2
    s.Attends ∧ Books s [] (s₀.ledger turns) told (Session.calls turns) ∧
      ((s₀.ledger turns).filterMap (·.ticket)).Nodup := by
  intro s told
  have hbooks : Books s [] (s₀.ledger turns) told (Session.calls turns) :=
    (Books.create h).turns turns
  exact ⟨hbooks.attends ((Sound.start h).turns turns), hbooks, hbooks.nodup_tickets⟩

/-- Three sends begin when there is room for one. A connection comes, and those who wait try again,
the last one first. When the connection is lost one more waits, until the session is closed. -/
def crowd (m : Moment) : List (Moment × Turn) :=
  let send (payload : Bytes) : Moment × Turn := (m, .input (.send payload))
  let handshake : Input := .frame 0 (Message.handshake (.ofNat 1) 0 noSequence).encode
  [send [1], send [2], send [3], (m, .input .connect), (m, .input handshake), (m, .retry 2),
    (m, .input .resume), (m, .input (.disconnected 0 false)), send [4], send [5],
    (m, .input .close)]

/-- Each of them is told its own number, or that the session is over. -/
theorem no_lost_wakeup_crowd :
    let m : Moment := ⟨0, fun _ _ => true⟩
    let config : Config := { queueCap := 1 }
    let s₀ := start .server (.ofNat 1) config 0
    let s := (s₀.turns (crowd m)).1
    create .server (.ofNat 1) config 0 = .ok s₀ ∧
      results (s₀.turns (crowd m)).2 = [(0, .ok 0), (2, .ok 1), (1, .ok 2), (3, .ok 3)] ∧
      s.waiting = [⟨4, [5], true⟩] ∧ s.lifecycle.Over ∧
      (s.resume m).1.waiting = [] ∧ results (s.resume m).2 = [(4, .error .terminated)] ∧
      ((s₀.ledger (crowd m)).filterMap (·.ticket)).Nodup := by
  intro m config s₀ s
  have hs₀ : create .server (.ofNat 1) config 0 = .ok s₀ := rfl
  have htold : results (s₀.turns (crowd m)).2 =
      [(0, .ok 0), (2, .ok 1), (1, .ok 2), (3, .ok 3)] := by decide +kernel
  have hover : s.lifecycle.Over := by decide +kernel
  have hwaiting : s.waiting = [⟨4, [5], true⟩] := by decide +kernel
  obtain ⟨(hattends : s.Attends), -, hnodup⟩ := no_lost_wakeup hs₀ (crowd m)
  obtain ⟨hnone, hrefused⟩ := hattends.refused hover m
  refine ⟨hs₀, htold, hwaiting, hover, hnone, ?_, hnodup⟩
  rw [hrefused, hwaiting]
  rfl

end Tether.Session
