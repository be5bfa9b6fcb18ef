import Tether.Proofs.Session.Progress

/-!
# What a session keeps

The counters of a session only grow (`Grows`), so what it said once it could say at any
later time (`Said`). What it does of its own accord, time included, changes nothing
that a peer has a say in: which connections there are, what was received, and what was
acknowledged (`Keeps`).
-/

namespace Tether.Session

/-- A session goes on in some number of steps. -/
structure Grows (s s' : Session) : Prop where
  role : s'.role = s.role
  id : s'.id = s.id
  config : s'.config = s.config
  received : s.inbox.received ≤ s'.inbox.received
  acked : s.inbox.acked ≤ s'.inbox.acked
  next : s.outbox.next ≤ s'.outbox.next

/-- A session may have said the message at some time. -/
structure Said (s : Session) (x : Message) : Prop where
  session : x.session = s.id
  low : noSequence ≤ x.acked
  acked : x.acked ≤ s.inbox.acked
  /-- The number of a payload was given out. -/
  number : x.kind = .send → 0 ≤ x.seq ∧ x.seq < s.outbox.next
  short : x.payload.length ≤ s.config.maxPayload

/-- A session goes on without a peer, and hands messages to its active connection. -/
structure Keeps (s s' : Session) (t : List Transmission) : Prop where
  coherent : s'.Coherent
  grows : s.Grows s'
  received : s'.inbox.received = s.inbox.received
  highestAck : s'.outbox.highestAck = s.outbox.highestAck
  nextConnection : s'.nextConnection = s.nextConnection
  handshakes : s'.handshakes = s.handshakes
  active : ∀ c ∈ s'.active, c ∈ s.active
  pending : ∀ p ∈ s'.pending, p ∈ s.pending
  said : ∀ τ ∈ t, s'.Said τ.message ∧ τ.conn ∈ s.active

variable {m : Moment} {s s' s'' : Session} {t t' : List Transmission} {a d : List Bytes}

/-! ### Growing -/

theorem Grows.refl (s : Session) : s.Grows s := ⟨rfl, rfl, rfl, le_rfl, le_rfl, le_rfl⟩

theorem Grows.trans (h : s.Grows s') (h' : s'.Grows s'') : s.Grows s'' where
  role := h'.role.trans h.role
  id := h'.id.trans h.id
  config := h'.config.trans h.config
  received := h.received.trans h'.received
  acked := h.acked.trans h'.acked
  next := h.next.trans h'.next

theorem Progress.grows (h : Progress s s' a) : s.Grows s' where
  role := h.role
  id := h.id
  config := h.config
  received := h.received
  acked := h.acked
  next := by have := h.next; omega

/-- What was said stays said. -/
theorem Said.mono {x : Message} (h : s.Said x) (hg : s.Grows s') : s'.Said x where
  session := h.session.trans hg.id.symm
  low := h.low
  acked := h.acked.trans hg.acked
  number := fun hk => ⟨(h.number hk).1, (h.number hk).2.trans_le hg.next⟩
  short := hg.config ▸ h.short

/-- What a session may say it may have said. -/
theorem Coherent.said (hs : s.Coherent) {x : Message} (h : s.Tells x) : s.Said x := by
  refine ⟨h.session, h.low, h.acked, ?_, ?_⟩
  · intro hk
    rcases h.body with ⟨-, hr⟩ | ⟨hk', -⟩
    · have hlow := hs.outbox.low
      obtain ⟨hlt, hnext⟩ := hs.outbox.seq_range hr
      simp only [noSequence] at hlow
      exact ⟨by dsimp only at hlt; omega, hnext⟩
    · exact (hk' hk).elim
  · rcases h.body with ⟨-, hr⟩ | ⟨-, hp⟩
    · exact hs.serves.short _ hr
    · rw [hp]
      exact Nat.zero_le _

/-! ### Keeping -/

theorem Keeps.refl (hs : s.Coherent) : s.Keeps s [] :=
  ⟨hs, .refl s, rfl, rfl, rfl, rfl, fun _ h => h, fun _ h => h, fun _ h => by cases h⟩

theorem Keeps.trans (h : s.Keeps s' t) (h' : s'.Keeps s'' t') : s.Keeps s'' (t ++ t') where
  coherent := h'.coherent
  grows := h.grows.trans h'.grows
  received := h'.received.trans h.received
  highestAck := h'.highestAck.trans h.highestAck
  nextConnection := h'.nextConnection.trans h.nextConnection
  handshakes := h'.handshakes.trans h.handshakes
  active := fun c hc => h.active c (h'.active c hc)
  pending := fun p hp => h.pending p (h'.pending p hp)
  said := fun τ hτ => by
    rcases List.mem_append.mp hτ with hτ | hτ
    · exact ⟨(h.said τ hτ).1.mono h'.grows, (h.said τ hτ).2⟩
    · exact ⟨(h'.said τ hτ).1, h.active _ (h'.said τ hτ).2⟩

theorem Move.keeps (h : Move m s s' t a) (hs : s.Coherent) : s.Keeps s' t := by
  have hs' := h.coherent hs
  have hg := (h.progress hs).grows
  have hsaid : ∀ τ ∈ t, s'.Said τ.message := fun τ hτ => hs'.said (h.tells hs τ hτ)
  have hconn : ∀ τ ∈ t, τ.conn ∈ s.active := by
    intro τ hτ
    cases h with
    | wait | defer | giveUp | lose | finish => cases hτ
    | send c payload unsent hc | flush c hc | farewell c lifecycle terminated hc ho =>
      rw [List.mem_singleton.mp hτ]
      exact hc
  have hactive : ∀ c ∈ s'.active, c ∈ s.active := by
    cases h with
    | wait | defer | giveUp | send | flush => exact fun _ h => h
    | lose | finish | farewell => exact fun _ h => by cases h
  have hpending : ∀ p ∈ s'.pending, p ∈ s.pending := by
    cases h with
    | wait | defer | lose | send | flush => exact fun _ h => h
    | giveUp | finish | farewell => exact fun _ h => by cases h
  refine ⟨hs', hg, ?_, ?_, ?_, ?_, hactive, hpending, fun τ hτ => ⟨hsaid τ hτ, hconn τ hτ⟩⟩ <;>
    cases h <;> rfl

theorem Moves.keeps (h : Moves m s s' t a) (hs : s.Coherent) : s.Keeps s' t := by
  induction h with
  | nil => exact .refl hs
  | cons hm _ ih => exact (hm.keeps hs).trans (ih (hm.coherent hs))

/-- Nothing that a session does of its own accord changes what a peer has a say in. -/
theorem Coherent.step_keeps (hs : s.Coherent) (m : Moment) (input : Input) (hi : input.Own) :
    s.Keeps (s.step m input).1 (Effect.transmitted (s.step m input).2) :=
  (hs.step_moves m hi).1.keeps hs

/-- Nor does anything that falls due. -/
theorem Coherent.elapse_keeps (hs : s.Coherent) (takes : ConnectionId → Message → Bool)
    (finish n now : Nat) : s.Keeps (elapse takes finish n now s).1
      (Effect.transmitted (elapse takes finish n now s).2) := by
  induction n generalizing s now with
  | zero => exact .refl hs
  | succ n ih =>
    unfold elapse
    split
    · exact .refl hs
    · next time alarm _ =>
      split
      · exact .refl hs
      · simp only [Effect.transmitted_append]
        have hring := hs.step_keeps ⟨time, takes⟩ (.ring alarm) trivial
        have hresume := hring.coherent.step_keeps ⟨time, takes⟩ .resume trivial
        exact (hring.trans hresume).trans (ih hresume.coherent time)

/-! ### Holding back -/

theorem holdsBack_iff : s.HoldsBack ↔
    s.lifecycle.phase = .connected ∧ s.inbox.acked < s.inbox.received := by
  refine and_congr_right fun _ => ?_
  unfold Inbox.heldBack
  split <;> simp [*]

/-- What a session does of its own accord holds nothing back. -/
theorem Coherent.holdsBack_of_step (hs : s.Coherent) (m : Moment) (input : Input) (hi : input.Own)
    (h : (s.step m input).1.HoldsBack) : s.HoldsBack := by
  obtain ⟨hphase, hlt⟩ := holdsBack_iff.mp h
  have hkeeps := hs.step_keeps m input hi
  obtain ⟨c, hc⟩ := Option.isSome_iff_exists.mp (hkeeps.coherent.phase.mp hphase)
  refine holdsBack_iff.mpr ⟨hs.phase.mpr (Option.isSome_of_mem (hkeeps.active c hc)), ?_⟩
  rw [hkeeps.received] at hlt
  exact hkeeps.grows.acked.trans_lt hlt

/-- The tick leaves nothing that is held back. -/
theorem not_holdsBack_flush (m : Moment) (s : Session) : ¬ (s.flush m).1.HoldsBack := by
  rw [holdsBack_iff]
  unfold flush
  split
  · cases hn : s.inbox.heldBack with
    | none => exact fun h => by simp [Inbox.heldBack, h.2] at hn
    | some n => exact fun h => lt_irrefl _ h.2
  · next hp => exact fun h => hp h.1

/-- Neither do the sends that try again after it. -/
theorem Coherent.not_holdsBack_tick (hs : s.Coherent) (m : Moment) :
    ¬ ((s.step m (.ring .idle)).1.step m .resume).1.HoldsBack := by
  have hs' : (s.step m (.ring .idle)).1.Coherent := (hs.step_keeps m (.ring .idle) trivial).coherent
  exact fun h => not_holdsBack_flush m s (hs'.holdsBack_of_step m .resume trivial h)

/-! ### Hearing -/

variable {c : ConnectionId} {x : Message}

theorem Opens.received (h : Opens m s s' t) : s'.inbox.received = s.inbox.received := by
  cases h <;> rfl

/-- Only a payload on the active connection is received. -/
theorem Hears.received (h : Hears m s c x s' t d) :
    s'.inbox.received = s.inbox.received ∨
      (x.kind = .send ∧ c ∈ s.active ∧ s'.inbox.received = x.seq) := by
  cases h with
  | held waiting hc hk | answered waiting hc hk => exact .inr ⟨hk, hc, rfl⟩
  | ignored | completed | repeated | acked | left => exact .inl rfl

/-- Only what is heard on the active connection, or completes a handshake, acknowledges. -/
theorem Hears.highestAck (h : Hears m s c x s' t d) :
    s'.outbox.highestAck = s.outbox.highestAck ∨
      ((c ∈ s.active ∨ s'.handshakes = s.handshakes + 1) ∧ x.kind ≠ .handshakeFail ∧
        s'.outbox.highestAck ≤ x.acked) := by
  have hack : (s.outbox.acknowledge x.acked).2.highestAck = s.outbox.highestAck ∨
      (s.outbox.acknowledge x.acked).2.highestAck ≤ x.acked := by
    unfold Outbox.acknowledge Outbox.credible
    split
    · exact .inl rfl
    · refine .inr ?_
      dsimp only
      split <;> omega
  cases h with
  | completed lifecycle waiting hc hk =>
    have hk' : x.kind ≠ .handshakeFail := by
      rw [hk]
      cases s.role <;> simp [Role.awaited]
    exact hack.imp_right fun h => ⟨.inr rfl, hk', h⟩
  | held waiting hc hk | answered waiting hc hk | repeated waiting hc hk | acked waiting hc hk =>
    exact hack.imp_right fun h => ⟨.inl hc, by rw [hk]; decide, h⟩
  | ignored | left => exact .inl rfl

/-- A handshake is completed on the pending connection, or the connections stay what
they are. -/
theorem Hears.connections (h : Hears m s c x s' t d) :
    (s'.handshakes = s.handshakes + 1 ∧ s.Awaits c ∧ x.kind = s.role.awaited ∧ s'.active = some c ∧
        s'.pending = none) ∨
      (s'.handshakes = s.handshakes ∧ (∀ c ∈ s'.active, c ∈ s.active) ∧
        ∀ p ∈ s'.pending, p ∈ s.pending) := by
  cases h with
  | completed lifecycle waiting hc hk => exact .inl ⟨rfl, hc, hk, rfl, rfl⟩
  | left => exact .inr ⟨rfl, (fun _ h => by cases h), fun _ h => by cases h⟩
  | ignored | held | answered | repeated | acked =>
    exact .inr ⟨rfl, fun _ h => h, fun _ h => h⟩

theorem Hears.nextConnection (h : Hears m s c x s' t d) : s'.nextConnection = s.nextConnection := by
  cases h <;> rfl

/-- The answer goes to the connection, which is active from then on. -/
theorem Hears.conn (h : Hears m s c x s' t d) : ∀ τ ∈ t, τ.conn = c ∧ c ∈ s'.active := by
  intro τ hτ
  cases h with
  | ignored | held | acked | left => cases hτ
  | completed => exact ⟨welcome_conn hτ, rfl⟩
  | answered waiting hc | repeated waiting hc =>
    rw [List.mem_singleton.mp hτ]
    exact ⟨rfl, hc⟩

end Tether.Session
