import Tether.Proofs.Session.Hears

/-!
# Which frames a session refuses

A frame is refused in one of five cases (`Faulty`), and in no other (`receive_error_iff`). It
leaves the session as it was, and is not answered, unless it is a handshake for another session
(`receive_of_faulty`).
-/

namespace Tether.Session

variable {s : Session} {m : Moment} {c : ConnectionId} {x : Message} {bytes : Bytes} {e : Fault}

/-! ### Which frames are faults -/

/-- A frame on a connection is a fault. -/
inductive Faulty (s : Session) (c : ConnectionId) (bytes : Bytes) : Fault → Prop where
  /-- It is no message. -/
  | undecodable {e : DecodeError} (hd : Message.decode bytes = .error e) :
    Faulty s c bytes (.undecodable e)
  /-- It belongs to another session, whatever the connection is. -/
  | foreign {x : Message} (hd : Message.decode bytes = .ok x) (hx : x.session ≠ s.id) :
    Faulty s c bytes (.wrongSession s.id x.session)
  /-- The peer does not know the session. -/
  | rejected {x : Message} (hd : Message.decode bytes = .ok x) (hx : x.session = s.id)
    (hc : s.Awaits c) (hr : s.role = .client) (hk : x.kind = .handshakeFail) :
    Faulty s c bytes (.rejected s.id)
  /-- The connection did not complete its handshake, and this does not do it. -/
  | early {x : Message} (hd : Message.decode bytes = .ok x) (hx : x.session = s.id)
    (hc : s.Awaits c) (hk : x.kind ≠ s.role.awaited)
    (hf : ¬ (s.role = .client ∧ x.kind = .handshakeFail)) :
    Faulty s c bytes (.expectedHandshake c x.kind)
  /-- The connection completed its handshake before. -/
  | late {x : Message} (hd : Message.decode bytes = .ok x) (hx : x.session = s.id)
    (hc : s.active = some c) (hk : ¬ x.kind.Ordinary) :
    Faulty s c bytes (.unexpected x.kind c)

/-! ### On the pending connection -/

/-- A message completes the handshake. -/
theorem Coherent.receivePending_awaited (hs : s.Coherent) (m : Moment) (hc : s.Awaits c)
    (hk : x.kind = s.role.awaited) : (s.receivePending m c x).answer = .ok () := by
  obtain ⟨p, hp, rfl⟩ := hc
  obtain ⟨waiting, hdone⟩ := hs.completeHandshake_eq m hp x.acked
  rw [receivePending_eq m p.conn hk, hdone]

/-- The peer does not know the session. -/
theorem receivePending_rejected (m : Moment) (c : ConnectionId) (hr : s.role = .client)
    (hk : x.kind = .handshakeFail) :
    s.receivePending m c x = ⟨.error (.rejected s.id), s, []⟩ := by
  unfold receivePending
  rw [hr, hk]

/-- A message comes too early. -/
theorem receivePending_early (m : Moment) (c : ConnectionId) (hk : x.kind ≠ s.role.awaited)
    (hf : ¬ (s.role = .client ∧ x.kind = .handshakeFail)) :
    s.receivePending m c x = ⟨.error (.expectedHandshake c x.kind), s, []⟩ := by
  unfold receivePending
  cases hr : s.role <;> cases hx : x.kind <;> simp_all [Role.awaited]

/-- A message of the session comes on the pending connection. -/
theorem receive_of_awaits (m : Moment) (hd : Message.decode bytes = .ok x) (hx : x.session = s.id)
    (hc : s.Awaits c) : s.receive m c bytes = s.receivePending m c x := by
  simp [receive, hd, receiveMessage, hx, awaits_iff.mpr hc]

/-! ### On the active connection -/

/-- A message is heard. -/
theorem receiveActive_ordinary (m : Moment) (s : Session) (c : ConnectionId)
    (hk : x.kind.Ordinary) : (s.receiveActive m c x).answer = .ok () := by
  unfold receiveActive
  rcases hk with hk | hk | hk <;> rw [hk] <;> dsimp only <;> split <;> rfl

/-- A message comes too late. -/
theorem receiveActive_late (m : Moment) (s : Session) (c : ConnectionId) (hk : ¬ x.kind.Ordinary) :
    s.receiveActive m c x = ⟨.error (.unexpected x.kind c), s, []⟩ := by
  unfold receiveActive
  cases hx : x.kind with
  | send | ack | goodbye => exact absurd (by simp [hx, Kind.Ordinary]) hk
  | handshake | handshakeOk | handshakeFail => rfl

/-- A message of the session comes on the active connection. -/
theorem Coherent.receive_of_active (hs : s.Coherent) (m : Moment)
    (hd : Message.decode bytes = .ok x) (hx : x.session = s.id) (hc : s.active = some c) :
    s.receive m c bytes = s.receiveActive m c x := by
  have hp := mt awaits_iff.mp (hs.not_awaits hc)
  simp [Session.receive, hd, Session.receiveMessage, hx, hp, Active, hc]

/-! ### Any frame -/

/-- A frame that is refused is a fault. -/
theorem Coherent.faulty_of_error (hs : s.Coherent) (h : (s.receive m c bytes).answer = .error e) :
    s.Faulty c bytes e := by
  cases hd : Message.decode bytes with
  | error e' =>
    simp only [Session.receive, hd, Except.error.injEq] at h
    exact h ▸ .undecodable hd
  | ok x =>
    by_cases hx : x.session = s.id
    · by_cases hp : s.Awaits c
      · rw [receive_of_awaits m hd hx hp] at h
        by_cases hk : x.kind = s.role.awaited
        · rw [hs.receivePending_awaited m hp hk] at h
          cases h
        by_cases hf : s.role = .client ∧ x.kind = .handshakeFail
        · rw [receivePending_rejected m c hf.1 hf.2] at h
          cases h
          exact .rejected hd hx hp hf.1 hf.2
        · rw [receivePending_early m c hk hf] at h
          cases h
          exact .early hd hx hp hk hf
      by_cases hc : s.active = some c
      · rw [hs.receive_of_active m hd hx hc] at h
        by_cases hk : x.kind.Ordinary
        · rw [receiveActive_ordinary m s c hk] at h
          cases h
        · rw [receiveActive_late m s c hk] at h
          cases h
          exact .late hd hx hc hk
      · simp [Session.receive, hd, Session.receiveMessage, hx, mt awaits_iff.mp hp, Active, hc] at h
    · simp only [Session.receive, hd, Session.receiveMessage, ne_eq, hx, not_false_eq_true, if_true,
        Except.error.injEq] at h
      exact h ▸ .foreign hd hx

/-- A handshake for another session comes on the pending connection. -/
def Misdirected (s : Session) (c : ConnectionId) (bytes : Bytes) (x : Message) : Prop :=
  Message.decode bytes = .ok x ∧ x.kind = .handshake ∧ x.session ≠ s.id ∧ s.Awaits c

/-- **A frame that is a fault is refused, and leaves the session as it was.** Nothing is said, but
to a handshake for another session. -/
theorem Coherent.receive_of_faulty (hs : s.Coherent) (m : Moment) (h : s.Faulty c bytes e) :
    ∃ effects, s.receive m c bytes = ⟨.error e, s, effects⟩ ∧
      (effects = [] ∨
        ∃ x, s.Misdirected c bytes x ∧ effects = [transmit m c (.handshakeFail x.session)]) := by
  cases h with
  | undecodable hd => exact ⟨[], by simp only [Session.receive, hd], .inl rfl⟩
  | @foreign x hd hx =>
    simp only [Session.receive, hd, Session.receiveMessage, ne_eq, hx, not_false_eq_true, if_true]
    refine ⟨_, rfl, ?_⟩
    by_cases hk : x.kind = .handshake ∧ s.pending.any (·.conn = c) = true
    · exact .inr ⟨x, ⟨hd, hk.1, hx, awaits_iff.mp hk.2⟩, if_pos hk⟩
    · exact .inl (if_neg hk)
  | rejected hd hx hc hr hk =>
    rw [receive_of_awaits m hd hx hc, receivePending_rejected m c hr hk]
    exact ⟨[], rfl, .inl rfl⟩
  | early hd hx hc hk hf =>
    rw [receive_of_awaits m hd hx hc, receivePending_early m c hk hf]
    exact ⟨[], rfl, .inl rfl⟩
  | late hd hx hc hk =>
    rw [hs.receive_of_active m hd hx hc, receiveActive_late m s c hk]
    exact ⟨[], rfl, .inl rfl⟩

/-- **A frame is refused exactly if it is a fault.** -/
theorem Coherent.receive_error_iff (hs : s.Coherent) (m : Moment) :
    (s.receive m c bytes).answer = .error e ↔ s.Faulty c bytes e := by
  constructor
  · intro h
    exact hs.faulty_of_error h
  · intro h
    obtain ⟨effects, heq, -⟩ := hs.receive_of_faulty m h
    rw [heq]

end Tether.Session
