import Tether.Proofs.Session.Shutdown

/-!
# Outdated connections

The numbers of connections are handed out one after the other (`Coherent.openedIn_eq`), and a
connection that a session let go of never comes back. What comes on it all the same, a frame or
the report that it was lost, does nothing. So a run may be strewn with such things (`Strewn`), and
the session neither becomes nor does anything else than without them (`outdated_inert`).
-/

namespace Tether.Session

variable {m : Moment} {s : Session} {c : ConnectionId} {input : Input}
  {inputs inputs' : List (Moment × Input)}

/-! ### Numbers -/

/-- The number that a new connection is given. -/
def opened (m : Moment) (s : Session) : Input → List ConnectionId
  | .connect =>
    match (s.connect m).answer with
    | .ok c => [c]
    | .error _ => []
  | _ => []

/-- The numbers that new connections are given in a run. -/
def openedIn (s : Session) : List (Moment × Input) → List ConnectionId
  | [] => []
  | (m, input) :: rest => s.opened m input ++ (s.step m input).1.openedIn rest

/-- Only a new connection is given a number, and that is the next one. -/
theorem Coherent.opened_eq (hs : s.Coherent) (m : Moment) (input : Input) :
    s.opened m input =
      List.range' s.nextConnection ((s.step m input).1.nextConnection - s.nextConnection) := by
  by_cases hi : input.Own
  · have hnext := (hs.step_keeps m input hi).nextConnection
    have hnone : s.opened m input = [] := by
      cases input with
      | connect => exact hi.elim
      | _ => rfl
    rw [hnone, hnext, Nat.sub_self, List.range'_zero]
  cases input with
  | connect =>
    by_cases ho : s.lifecycle.Over
    · simp [opened, Session.step, Session.connect, ho]
    · have hnext : (s.connect m).session.nextConnection = s.nextConnection + 1 := by
        rw [Session.connect, if_neg ho]
        cases s.role <;> rfl
      simp only [opened, connect_of_not_over m ho, Session.step, hnext, Nat.add_sub_cancel_left]
      rfl
  | frame c bytes =>
    have hnext : (s.step m (.frame c bytes)).1.nextConnection = s.nextConnection := by
      rcases hs.frame_cases m c bytes with ⟨x, d, h⟩ | ⟨hsame, -⟩
      · exact h.nextConnection
      · exact congrArg Session.nextConnection hsame
    rw [hnext, Nat.sub_self, List.range'_zero]
    rfl
  | _ => exact (hi trivial).elim

/-- **Numbers are handed out one after the other.** -/
theorem Coherent.openedIn_eq (hs : s.Coherent) (inputs : List (Moment × Input)) :
    s.openedIn inputs =
      List.range' s.nextConnection ((s.run inputs).1.nextConnection - s.nextConnection) := by
  induction inputs generalizing s with
  | nil => simp [openedIn, run]
  | cons i inputs ih =>
    have hs' := hs.step i.1 i.2
    have hle := (hs.step_change i.1 i.2).nextConnection_le
    have hle' := hs'.nextConnection_le_run inputs
    rw [openedIn, hs.opened_eq, ih hs']
    change s.nextConnection ≤ (s.step i.1 i.2).1.nextConnection at hle
    obtain ⟨n, hn⟩ := Nat.exists_eq_add_of_le hle
    obtain ⟨n', hn'⟩ := Nat.exists_eq_add_of_le hle'
    simp only [run, hn', hn, Nat.add_sub_cancel_left]
    rw [Nat.add_assoc, Nat.add_sub_cancel_left]
    exact List.range'_append_1

/-! ### What comes on outdated connections -/

/-- The input comes on a connection that the session does not have. -/
def Input.Outdated (s : Session) : Input → Prop
  | .frame c _ | .disconnected c _ => ¬ s.Has c
  | _ => False

instance (s : Session) : (input : Input) → Decidable (input.Outdated s)
  | .frame c _ | .disconnected c _ => inferInstanceAs (Decidable (¬ s.Has c))
  | .trySend _ | .send _ | .resume | .close | .disconnect _ | .flush | .connect | .ring _ =>
    inferInstanceAs (Decidable False)

/-- It does nothing. -/
theorem Input.Outdated.step (hi : input.Outdated s) (m : Moment) : s.step m input = (s, []) := by
  cases input with
  | frame c bytes =>
    obtain ⟨hsame, hnone⟩ := receive_of_not_has hi m bytes
    simp only [Session.step, hsame, hnone]
  | disconnected c forced => exact disconnected_of_not_has hi m forced
  | _ => exact hi.elim

/-- A run is strewn with inputs on connections that the session does not have at the time. -/
inductive Strewn : Session → List (Moment × Input) → List (Moment × Input) → Prop where
  | nil (s : Session) : Strewn s [] []
  /-- The same happens. -/
  | same {s : Session} {inputs inputs' : List (Moment × Input)} (m : Moment) (input : Input)
    (h : Strewn (s.step m input).1 inputs inputs') :
    Strewn s ((m, input) :: inputs) ((m, input) :: inputs')
  /-- Something comes on an outdated connection. -/
  | stray {s : Session} {inputs inputs' : List (Moment × Input)} (m : Moment) (input : Input)
    (hi : input.Outdated s) (h : Strewn (s.step m input).1 inputs inputs') :
    Strewn s inputs ((m, input) :: inputs')

theorem Strewn.run (h : s.Strewn inputs inputs') : s.run inputs' = s.run inputs := by
  induction h with
  | nil => rfl
  | same m input h ih => rw [Session.run, Session.run, ih]
  | stray m input hi h ih =>
    rw [hi.step] at ih
    rw [Session.run, hi.step, ih, List.nil_append]

theorem Strewn.chronicle (h : s.Strewn inputs inputs') :
    s.chronicle inputs' = s.chronicle inputs := by
  induction h with
  | nil => rfl
  | same m input h ih => rw [Session.chronicle, Session.chronicle, ih]
  | stray m input hi h ih =>
    rw [hi.step] at ih
    rw [Session.chronicle, hi.step, ih, List.map_nil, List.nil_append]

/-- **Outdated connections have no effect, ever.** No number is handed out twice, and a connection
that a session had and does not have any more it never has again. Any frame on a connection that it
does not have, and any report that it was lost, changes nothing and does nothing. So however a run
is strewn with them, the session comes to the same state and does the same at the same times. -/
theorem outdated_inert {role : Role} {id : SessionId} {config : Config} {now : Nat} {s₀ : Session}
    (h : create role id config now = .ok s₀) (inputs : List (Moment × Input)) :
    let s := (s₀.run inputs).1
    s₀.openedIn inputs = List.range s.nextConnection ∧
      (∀ l c, l <+: inputs → (s₀.run l).1.Has c → ¬ s.Has c →
        ∀ later, ¬ (s.run later).1.Has c) ∧
      (∀ c, ¬ s.Has c → ∀ m bytes forced, s.step m (.frame c bytes) = (s, []) ∧
        s.step m (.disconnected c forced) = (s, [])) ∧
      ∀ inputs', s₀.Strewn inputs inputs' →
        s₀.run inputs' = s₀.run inputs ∧ s₀.chronicle inputs' = s₀.chronicle inputs := by
  intro s
  have hs₀ := Sound.start h
  have hs : s.Coherent := (hs₀.run inputs).1
  refine ⟨?_, ?_, ?_, fun inputs' h => ⟨h.run, h.chronicle⟩⟩
  · have hfirst : s₀.nextConnection = 0 := by rw [eq_start h, start]
    rw [hs₀.1.openedIn_eq, hfirst, List.range_eq_range', Nat.sub_zero]
  · rintro l c ⟨l', rfl⟩ hhad hnot later hhas
    have hlast : s = ((s₀.run l).1.run l').1 := s₀.run_append l l'
    have hn : c < s.nextConnection := by
      rw [hlast]
      exact ((hs₀.run l).1.lt_of_has hhad).trans_le ((hs₀.run l).1.nextConnection_le_run l')
    exact hnot (hs.has_of_run later hn hhas)
  · intro c hc m bytes forced
    have hframe : (Input.frame c bytes).Outdated s := hc
    have hreport : (Input.disconnected c forced).Outdated s := hc
    exact ⟨hframe.step m, hreport.step m⟩

/-- On connection 0, which connection 1 replaced, and on connection 2, which nobody opened, come a
payload, a goodbye, what is no message, and a forced end. Nothing of it matters to the server. -/
theorem outdated_inert_replaced :
    let m : Moment := ⟨0, fun _ _ => true⟩
    let s₀ := start .server (.ofNat 1) {} 0
    let inputs := replacing m ++ [(m, .greets 1), (m, .trySend [7])]
    let strays (c : ConnectionId) := [(m, .frame c (Message.send (.ofNat 1) 0 noSequence [5]).encode),
      (m, .frame c (Message.goodbye (.ofNat 1)).encode), (m, .frame c []), (m, .disconnected c true)]
    let inputs' := replacing m ++ (m, .greets 1) :: strays 0 ++ (m, .trySend [7]) :: strays 2
    s₀.openedIn inputs = [0, 1] ∧ (s₀.run (replacing m)).1.Has 0 ∧
      (∀ later, ¬ ((s₀.run inputs).1.run later).1.Has 0) ∧
      s₀.run inputs' = s₀.run inputs ∧ (s₀.run inputs').1.active = some 1 := by
  intro m s₀ inputs strays inputs'
  have h : create .server (.ofNat 1) {} 0 = .ok s₀ := rfl
  obtain ⟨hopened, hnever, -, hstrewn⟩ := outdated_inert h inputs
  have hhad : (s₀.run (replacing m)).1.Has 0 := by decide +kernel
  have hnot : ¬ (s₀.run inputs).1.Has 0 := by decide +kernel
  have hnext : (s₀.run inputs).1.nextConnection = 2 := by decide +kernel
  have hrun : s₀.run inputs' = s₀.run inputs := by
    refine (hstrewn inputs' ?_).1
    refine .same _ _ (.same _ _ (.same _ _ (.same _ _ ?_)))
    refine .stray _ _ ?_ (.stray _ _ ?_ (.stray _ _ ?_ (.stray _ _ ?_ (.same _ _ ?_))))
    any_goals decide +kernel
    refine .stray _ _ ?_ (.stray _ _ ?_ (.stray _ _ ?_ (.stray _ _ ?_ (.nil _))))
    all_goals decide +kernel
  refine ⟨?_, hhad, hnever _ 0 (List.prefix_append ..) hhad hnot, hrun, ?_⟩
  · rw [hopened, hnext]
    rfl
  · rw [hrun]
    decide +kernel

end Tether.Session
