import Tether.Proofs.Inbox
import Tether.Proofs.Outbox
import Tether.Session.Step

/-!
# What holds of a session at all times

The parts of a session agree: the outbox and the lifecycle know whether there is an
active connection, the pending connection is the latest one, and a session that is
over waits for none (`Coherent`).
-/

namespace Tether

/-- A configuration that is acceptable delays acknowledgements by some number of
messages. -/
theorem Config.delayed_pos {c : Config} (h : c.validate = .ok ()) : 0 < c.maxDelayedAcks := by
  unfold validate at h
  split at h
  · cases h
  · omega

/-- A frame with a payload that is not too long has its length in front. -/
theorem Config.header_add_maxPayload_le {c : Config} (h : c.validate = .ok ()) :
    Message.headerLength + c.maxPayload ≤ maxPrefix := by
  unfold validate at h
  repeat' split at h
  all_goals try contradiction
  unfold maxPayload
  omega

namespace Session

/-- **The parts of a session agree.** -/
structure Coherent (s : Session) : Prop where
  config : s.config.validate = .ok ()
  /-- The outbox retains what is not acknowledged. -/
  outbox : s.outbox.Contiguous
  /-- The inbox holds back less than the limit. -/
  inbox : s.inbox.Bounded s.config.maxDelayedAcks
  serves : s.outbox.Serves s.id s.config
  connected : s.outbox.connected = s.active.isSome
  phase : s.lifecycle.phase = .connected ↔ s.active.isSome
  /-- The pending connection is the latest one. -/
  latest : ∀ p ∈ s.pending, p.conn + 1 = s.nextConnection
  numbered : ∀ c ∈ s.active, c < s.nextConnection
  /-- The active connection is older than the pending one. -/
  older : ∀ c ∈ s.active, ∀ p ∈ s.pending, c < p.conn
  ended : s.lifecycle.Over → s.pending = none

/-- A session begins so. -/
theorem Coherent.start {role : Role} {id : SessionId} {config : Config} {now : Nat} {s : Session}
    (h : create role id config now = .ok s) : s.Coherent := by
  unfold create at h
  split at h
  · cases h
  · next hc =>
    cases h
    exact {
      config := hc
      outbox := .new id config
      inbox := .new (Config.delayed_pos hc)
      serves := .new id config
      connected := rfl
      phase := ⟨fun h => (by cases h), fun h => (by cases h)⟩
      latest := fun _ h => (by cases h)
      numbered := fun _ h => (by cases h)
      older := fun _ h => (by cases h)
      ended := fun _ => rfl }

/-- What is created is a session that begins. -/
theorem eq_start {role : Role} {id : SessionId} {config : Config} {now : Nat} {s : Session}
    (h : create role id config now = .ok s) : s = start role id config now := by
  unfold create at h
  split at h <;> cases h
  rfl

/-- The connection is the one that is to complete its handshake. -/
def Awaits (s : Session) (conn : ConnectionId) : Prop := ∃ p ∈ s.pending, p.conn = conn

/-- A session that has an active connection is not over. -/
theorem Coherent.not_over {s : Session} (h : s.Coherent) {c : ConnectionId}
    (hc : s.active = some c) : ¬ s.lifecycle.Over := by
  have hp : s.lifecycle.phase = .connected := h.phase.mpr (by rw [hc]; rfl)
  simp [Lifecycle.Over, Phase.Final, hp]

/-- A connection is not both active and pending. -/
theorem Coherent.not_awaits {s : Session} (h : s.Coherent) {c : ConnectionId}
    (hc : s.active = some c) : ¬ s.Awaits c := by
  rintro ⟨p, hp, rfl⟩
  exact (h.older p.conn hc p hp).ne rfl

end Session

end Tether
