import Tether.Proofs.Session.Course
import Tether.Proofs.Session.Faults

/-!
# The parts of a session agree

The lifecycle, the outbox, the connections and the deadline of a window are changed one by
one, and yet they always say the same about a session (`Standing.Consistent`): each change of
where it stands keeps that (`Change.consistent`), so it holds whatever happened
(`Reachable.sound`). A handshake can therefore not be completed in vain, and whatever a session
refuses leaves it as it was (`errors_leave_unchanged`).
-/

namespace Tether

/-- A session that is over is neither connected nor to be restored. -/
theorem Lifecycle.Over.phase_ne {l : Lifecycle} (h : l.Over) :
    l.phase ≠ .connected ∧ l.phase ≠ .restoring := by
  rcases h with h | h <;> simp [h]

/-! ### Standings -/

namespace Standing

open Session (Input)

/-- **The parts of a session say the same about it.** -/
structure Consistent (s : Standing) : Prop where
  /-- There is an active connection while the session is connected, and only then. -/
  active : s.active.isSome ↔ s.lifecycle.phase = .connected
  /-- The outbox knows. -/
  connected : s.lifecycle.phase = .connected ↔ s.connected = true
  /-- A deadline is set while the connection may be replaced, and only then. -/
  window : s.windowEnd.isSome ↔ s.lifecycle.phase = .restoring
  /-- It is the deadline of the latest window. -/
  epoch : ∀ w ∈ s.windowEnd, w.epoch = s.lifecycle.epoch
  /-- A session that is over holds on to nothing. -/
  released : s.lifecycle.Over → s.active = none ∧ s.pending = none ∧ s.windowEnd = none
  /-- It is made known that a session is over, and only then. -/
  terminated : s.terminated = true ↔ s.lifecycle.Over
  /-- A connection is not both active and pending. -/
  apart : ∀ c ∈ s.active, ∀ p ∈ s.pending, c ≠ p.conn
  /-- The connections were given their numbers. -/
  active_lt : ∀ c ∈ s.active, c < s.nextConnection
  pending_lt : ∀ p ∈ s.pending, p.conn < s.nextConnection
  /-- Whether a connection may be replaced is as configured. -/
  reconnects : s.lifecycle.reconnects = s.config.reconnects

variable {now : Nat} {s s' : Standing} {input : Input} {news : List News}

theorem Consistent.start (role : Role) (id : SessionId) (config : Config) (now : Nat) :
    (Session.start role id config now).standing.Consistent where
  active := by simp [Session.start, Session.standing]
  connected := by simp [Session.start, Session.standing, Outbox.new]
  window := by simp [Session.start, Session.standing]
  epoch := nofun
  released := fun _ => ⟨rfl, rfl, rfl⟩
  terminated := by simp [Session.start, Session.standing, Lifecycle.Over, Phase.Final]
  apart := nofun
  active_lt := nofun
  pending_lt := nofun
  reconnects := rfl

theorem final_lastPhase (reason : Option Loss) : (lastPhase reason).Final := by
  rcases reason with _ | _ | _ | _ | _ <;> simp [lastPhase, Phase.Final]

/-- A session ends in a last phase. -/
theorem over_finish (s : Standing) (reason : Option Loss) :
    (s.finish (lastPhase reason)).lifecycle.Over := final_lastPhase reason

theorem Consistent.finish (h : s.Consistent) (reason : Option Loss) :
    (s.finish (lastPhase reason)).Consistent := by
  have ho := over_finish s reason
  obtain ⟨hc, hr⟩ := ho.phase_ne
  exact {
    active := by simpa [Standing.finish] using hc
    connected := by simpa [Standing.finish] using hc
    window := by simpa [Standing.finish] using hr
    epoch := nofun
    released := fun _ => ⟨rfl, rfl, rfl⟩
    terminated := ⟨fun _ => ho, fun _ => rfl⟩
    apart := nofun
    active_lt := nofun
    pending_lt := nofun
    reconnects := h.reconnects }

/-- **Every change keeps the parts of a session in agreement.** -/
theorem Change.consistent (h : Change now s input s' news) (hs : s.Consistent) : s'.Consistent := by
  cases h with
  | stay => exact hs
  | connect hi ho =>
    exact { hs with
      released := fun h => (ho h).elim
      apart := fun c hc p hp => by cases hp; exact (hs.active_lt c hc).ne
      active_lt := fun c hc => Nat.lt_succ_of_lt (hs.active_lt c hc)
      pending_lt := fun p hp => by cases hp; exact Nat.lt_succ_self _ }
  | giveUp p hp hi =>
    exact { hs with
      released := fun h => ⟨(hs.released h).1, rfl, (hs.released h).2.2⟩
      apart := fun _ _ _ h => by cases h
      pending_lt := by simp }
  | complete p hp bytes hi ho =>
    obtain ⟨-, -, hphase⟩ := Session.handshake_of_not_over ho
    have hover : ¬ s.lifecycle.connect.2.Over := by simp [Lifecycle.Over, Phase.Final, hphase]
    have hreconnects : s.lifecycle.connect.2.reconnects = s.lifecycle.reconnects := by
      unfold Lifecycle.connect
      split <;> rfl
    exact {
      active := by simp [hphase]
      connected := by simp [hphase]
      window := by simp [hphase]
      epoch := by simp
      released := fun h => (hover h).elim
      terminated := by simpa [hover, hs.terminated] using ho
      apart := fun _ _ _ h => by cases h
      active_lt := fun c hc => by cases hc; exact hs.pending_lt p hp
      pending_lt := by simp
      reconnects := hreconnects.trans hs.reconnects }
  | lose c hc hi hr =>
    have hphase : s.lifecycle.phase = .connected := hs.active.mp (by rw [hc]; rfl)
    have ho : ¬ s.lifecycle.Over := by simp [Lifecycle.Over, Phase.Final, hphase]
    exact {
      active := by simp
      connected := by simp
      window := by simp
      epoch := fun w hw => by cases hw; rfl
      released := fun h => by simp [Lifecycle.Over, Phase.Final] at h
      terminated := by simpa [Lifecycle.Over, Phase.Final, hs.terminated] using ho
      apart := by simp
      active_lt := by simp
      pending_lt := hs.pending_lt
      reconnects := hs.reconnects }
  | finish reason ho he => exact hs.finish reason

end Standing

/-! ### Sessions -/

namespace Session

variable {s : Session}

/-- Whatever happens, the parts of a session stay in agreement. -/
theorem Coherent.step (hs : s.Coherent) (m : Moment) (input : Input) :
    (s.step m input).1.Coherent := by
  by_cases hi : input.Own
  · exact (hs.step_moves m hi).1.coherent hs
  cases input with
  | connect => exact (opens_connect m s).1.coherent hs
  | frame c bytes =>
    simp only [Session.step, receive]
    cases Message.decode bytes with
    | error e => exact hs
    | ok x =>
      by_cases hx : x.session = s.id
      · exact (hs.receiveMessage m c hx).coherent hs
      · simpa [Session.receiveMessage, hx] using hs
  | _ => exact (hi trivial).elim

/-- What a step preserves holds after a run. -/
theorem run_induction {P : Session → Prop} (h : P s)
    (hstep : ∀ s m input, P s → P (s.step m input).1) (inputs : List (Moment × Input)) :
    P (s.run inputs).1 := by
  induction inputs generalizing s with
  | nil => exact h
  | cons i inputs ih => exact ih (hstep s i.1 i.2 h)

theorem Coherent.later (hs : s.Coherent) (inputs : List (Moment × Input)) :
    (s.run inputs).1.Coherent :=
  run_induction hs (fun _ m input h => h.step m input) inputs

/-- Both views of a session in agreement. -/
def Sound (s : Session) : Prop := s.Coherent ∧ s.standing.Consistent

theorem Sound.start {role : Role} {id : SessionId} {config : Config} {now : Nat}
    (h : create role id config now = .ok s) : s.Sound := by
  refine ⟨.start h, ?_⟩
  unfold create at h
  split at h
  · cases h
  · cases h
    exact .start role id config now

theorem Sound.step (h : s.Sound) (m : Moment) (input : Input) : (s.step m input).1.Sound :=
  ⟨h.1.step m input, (h.1.step_change m input).consistent h.2⟩

theorem Sound.run (h : s.Sound) (inputs : List (Moment × Input)) : (s.run inputs).1.Sound :=
  run_induction h (fun _ m input h => h.step m input) inputs

theorem Reachable.sound (h : s.Reachable) : s.Sound := by
  obtain ⟨role, id, config, now, s₀, inputs, hc, rfl⟩ := h
  exact (Sound.start hc).run inputs

/-! ### Handshakes -/

/-- A frame is never refused for a handshake that comes too late. -/
theorem Coherent.receive_fault (hs : s.Coherent) (m : Moment) (c : ConnectionId) (bytes : Bytes)
    {e : Fault} (h : (s.receive m c bytes).answer = .error e) :
    e ≠ .noPending ∧ ∀ id, e ≠ .terminated id := by
  cases (hs.receive_error_iff m).mp h <;> exact ⟨nofun, nofun⟩

/-- **The parts of a session always agree**: its lifecycle, its outbox, its connections and the
deadline that is set. So what completes a handshake finds a connection that is to complete it,
and a session that is not over. -/
theorem parts_agree (h : s.Reachable) :
    s.standing.Consistent ∧
      (∀ m acked, s.pending.isSome → (s.completeHandshake m acked).answer = .ok ()) ∧
      ∀ m c bytes, (s.receive m c bytes).answer ≠ .error .noPending ∧
        ∀ id, (s.receive m c bytes).answer ≠ .error (.terminated id) := by
  obtain ⟨hs, hconsistent⟩ := h.sound
  refine ⟨hconsistent, fun m acked hp => ?_, fun m c bytes => ⟨fun hf => ?_, fun id hf => ?_⟩⟩
  · obtain ⟨p, hp⟩ := Option.isSome_iff_exists.mp hp
    obtain ⟨waiting, hdone⟩ := hs.completeHandshake_eq m hp acked
    rw [hdone]
  · exact (hs.receive_fault m c bytes hf).1 rfl
  · exact (hs.receive_fault m c bytes hf).2 id rfl

/-- The connection of a server is lost while another one is to complete its handshake. -/
def overlap (m : Moment) : List (Moment × Input) :=
  [(m, .connect), (m, .frame 0 (Message.handshake (.ofNat 1) 0 noSequence).encode), (m, .connect),
    (m, .disconnected 0 false)]

/-- In the window that opens the pending connection is still there, and completes its
handshake when the client asks for it. -/
theorem parts_agree_overlap :
    let m : Moment := ⟨3, fun _ _ => true⟩
    let s := ((start .server (.ofNat 1) {} 0).run (overlap m)).1
    s.Reachable ∧ s.lifecycle.phase = .restoring ∧ s.windowEnd = some ⟨1, 5003⟩ ∧
      s.pending = some ⟨1, 5003⟩ ∧ s.standing.Consistent ∧
      (s.completeHandshake m noSequence).answer = .ok () := by
  intro m s
  have h : s.Reachable := ⟨.server, .ofNat 1, {}, 0, _, overlap m, rfl, rfl⟩
  have hphase : s.lifecycle.phase = .restoring := by decide +kernel
  have hwindow : s.windowEnd = some ⟨1, 5003⟩ := by decide +kernel
  have hpending : s.pending = some ⟨1, 5003⟩ := by decide +kernel
  obtain ⟨hconsistent, hcompletes, -⟩ := parts_agree h
  exact ⟨h, hphase, hwindow, hpending, hconsistent, hcompletes m noSequence (by rw [hpending]; rfl)⟩

/-! ### Faults -/

/-- **What a session refuses leaves it as it was**, whether it is a frame, a payload or a
connection. Nothing comes of it, but that a handshake for another session is answered, once, on
the pending connection. -/
theorem errors_leave_unchanged (h : s.Reachable) (m : Moment) :
    (∀ c bytes e, (s.receive m c bytes).answer = .error e →
      s.Faulty c bytes e ∧ (s.receive m c bytes).session = s ∧
        ((s.receive m c bytes).effects = [] ∨ ∃ x, s.Misdirected c bytes x ∧
          (s.receive m c bytes).effects = [transmit m c (.handshakeFail x.session)])) ∧
    (∀ payload e, (s.trySend m payload).answer = .error e →
      (s.trySend m payload).session = s ∧ (s.trySend m payload).effects = []) ∧
    ∀ e, (s.connect m).answer = .error e →
      (s.connect m).session = s ∧ (s.connect m).effects = [] := by
  have hs := h.sound.1
  refine ⟨?_, ?_, ?_⟩
  · intro c bytes e he
    have hfault := (hs.receive_error_iff m).mp he
    obtain ⟨effects, heq, heffects⟩ := hs.receive_of_faulty m hfault
    rw [heq]
    exact ⟨hfault, rfl, heffects⟩
  · intro payload e he
    rcases hs.trySend m payload with ⟨r, heq⟩ | ⟨-, -, n, heq⟩ | ⟨c, n, -, -, heq⟩
    · rw [heq]
      exact ⟨rfl, rfl⟩
    · rw [heq] at he
      cases he
    · rw [heq] at he
      cases he
  · intro e he
    by_cases ho : s.lifecycle.Over
    · rw [show s.connect m = ⟨.error (.terminated s.id), s, []⟩ from if_pos ho]
      exact ⟨rfl, rfl⟩
    · rw [connect_of_not_over m ho] at he
      cases he

/-- A server has a connection that completed its handshake, and one that did not. -/
def meeting (m : Moment) : List (Moment × Input) :=
  [(m, .connect), (m, .frame 0 (Message.handshake (.ofNat 1) 0 noSequence).encode), (m, .connect)]

/-- A handshake for another session comes on the latter, a handshake on the former, and a frame
that is no message on a connection that does not exist. -/
theorem errors_leave_unchanged_meeting :
    let m : Moment := ⟨3, fun _ _ => true⟩
    let s := ((start .server (.ofNat 1) {} 0).run (meeting m)).1
    let foreign := (Message.handshake (.ofNat 2) 0 noSequence).encode
    let late := (Message.handshake (.ofNat 1) 0 noSequence).encode
    s.Reachable ∧ s.active = some 0 ∧ s.pending = some ⟨1, 5003⟩ ∧
      (s.receive m 1 foreign).answer = .error (.wrongSession (.ofNat 1) (.ofNat 2)) ∧
      (s.receive m 1 foreign).session = s ∧
      Effect.transmitted (s.receive m 1 foreign).effects =
        [handing m 1 (.handshakeFail (.ofNat 2))] ∧
      (s.receive m 0 late).answer = .error (.unexpected .handshake 0) ∧
      (s.receive m 0 late).session = s ∧
      (s.receive m 7 [1, 2]).session = s := by
  intro m s foreign late
  have h : s.Reachable := ⟨.server, .ofNat 1, {}, 0, _, meeting m, rfl, rfl⟩
  have hactive : s.active = some 0 := by decide +kernel
  have hpending : s.pending = some ⟨1, 5003⟩ := by decide +kernel
  have hsaid : Effect.transmitted (s.receive m 1 foreign).effects =
      [handing m 1 (.handshakeFail (.ofNat 2))] := by decide +kernel
  have hid : s.id = .ofNat 1 := by decide +kernel
  have hforeign : (s.receive m 1 foreign).answer =
      .error (.wrongSession (.ofNat 1) (.ofNat 2)) := by
    have hd : Message.decode foreign = .ok (.handshake (.ofNat 2) 0 noSequence) := by
      decide +kernel
    have hne : (Message.handshake (.ofNat 2) 0 noSequence).session ≠ s.id := by
      rw [hid]
      decide
    rw [(h.sound.1.receive_error_iff m).mpr (.foreign hd hne), hid]
    rfl
  have hlate : (s.receive m 0 late).answer = .error (.unexpected .handshake 0) := by
    have hd : Message.decode late = .ok (.handshake (.ofNat 1) 0 noSequence) := by
      decide +kernel
    exact (h.sound.1.receive_error_iff m).mpr (.late hd hid.symm hactive (by decide))
  obtain ⟨e, hshort⟩ : ∃ e, (s.receive m 7 [1, 2]).answer = .error e := ⟨_, rfl⟩
  obtain ⟨hreceive, -, -⟩ := errors_leave_unchanged h m
  exact ⟨h, hactive, hpending, hforeign, (hreceive 1 foreign _ hforeign).2.1, hsaid, hlate,
    (hreceive 0 late _ hlate).2.1, (hreceive 7 [1, 2] e hshort).2.1⟩

end Session

end Tether
