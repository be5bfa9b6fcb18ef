import Tether.Proofs.Session.Hears

/-!
# How a session goes on

Whatever happens to a session, it keeps its identity and its counters only grow
(`Progress`). It hands on what it retains, and acknowledges no more than it noted
(`Tells`), so what it said once stays true.
-/

namespace Tether.Session

/-- A session goes on, and accepts payloads. -/
structure Progress (s s' : Session) (a : List Bytes) : Prop where
  role : s'.role = s.role
  id : s'.id = s.id
  config : s'.config = s.config
  received : s.inbox.received ≤ s'.inbox.received
  acked : s.inbox.acked ≤ s'.inbox.acked
  highestAck : s.outbox.highestAck ≤ s'.outbox.highestAck
  next : s'.outbox.next = s.outbox.next + a.length
  /-- What is retained was retained before, or is the payload that is accepted. -/
  retained : ∀ r ∈ s'.outbox.retained.toList,
    r ∈ s.outbox.retained.toList ∨ (r.seq = s.outbox.next ∧ a = [r.payload])

/-- A session may say the message: it acknowledges no more than the session noted, and a
payload in it is one that the session retains. -/
structure Tells (s : Session) (x : Message) : Prop where
  session : x.session = s.id
  low : noSequence ≤ x.acked
  acked : x.acked ≤ s.inbox.acked
  body : (x.kind = .send ∧ ⟨x.seq, x.payload⟩ ∈ s.outbox.retained.toList) ∨
    (x.kind ≠ .send ∧ x.payload = [])

variable {m : Moment} {s s' : Session} {t : List Transmission} {a d : List Bytes}

/-! ### The counters -/

theorem Progress.refl (s : Session) : Progress s s [] where
  role := rfl
  id := rfl
  config := rfl
  received := le_rfl
  acked := le_rfl
  highestAck := le_rfl
  next := by simp
  retained := fun _ h => .inl h

/-- A payload is accepted. -/
theorem Progress.retain (s : Session) (payload : Bytes) (unsent : Nat) :
    Progress s { s with outbox := s.outbox.retain payload unsent } [payload] :=
  { Progress.refl s with
    next := by simp [Outbox.retain]
    retained := fun r hr => by
      simp only [Outbox.retain, Array.toList_push, List.mem_append, List.mem_singleton] at hr
      rcases hr with hr | rfl
      · exact .inl hr
      · exact .inr ⟨rfl, rfl⟩ }

/-- The peer acknowledges. -/
theorem Coherent.progress_acknowledge (hs : s.Coherent) (n : Int) :
    Progress s { s with outbox := (s.outbox.acknowledge n).2 } [] :=
  { Progress.refl s with
    highestAck := Outbox.le_acknowledge_highestAck hs.outbox n
    next := by simp
    retained := fun _ hr => .inl ((Outbox.acknowledge_retained_sublist s.outbox n).subset hr) }

theorem Move.progress (h : Move m s s' t a) (hs : s.Coherent) : Progress s s' a := by
  have hle := hs.inbox.acked_le
  cases h with
  | wait | giveUp | lose | finish | farewell => exact { Progress.refl s with }
  | defer payload unsent hc => exact { Progress.retain s payload unsent with }
  | send c payload unsent hc => exact { Progress.retain s payload unsent with acked := hle }
  | flush c hc => exact { Progress.refl s with acked := hle }

theorem Opens.progress (h : Opens m s s' t) (hs : s.Coherent) : Progress s s' [] := by
  have hle := hs.inbox.acked_le
  cases h with
  | refused | waits => exact { Progress.refl s with }
  | asks deadline ho hr => exact { Progress.refl s with acked := hle }

theorem Hears.progress {c : ConnectionId} {x : Message} (h : Hears m s c x s' t d)
    (hs : s.Coherent) : Progress s s' [] := by
  have hle := hs.inbox.acked_le
  have hp := hs.progress_acknowledge x.acked
  cases h with
  | ignored => exact .refl s
  | completed lifecycle waiting hc hk hph => exact { hp with acked := hle }
  | held waiting hc hk hn hd => exact { hp with received := by simp only; omega }
  | answered waiting hc hk hn =>
    exact { hp with received := by simp only; omega, acked := by simp only; omega }
  | repeated waiting hc hk hn => exact { hp with acked := hle }
  | acked waiting hc hk => exact { hp with }
  | left waiting lifecycle hc hk ho => exact { Progress.refl s with }

/-! ### What is said -/

/-- A session may say that it received what it received, once it noted that. -/
theorem Coherent.tells_received (hs : s.Coherent) (hid : s'.id = s.id)
    (hi : s'.inbox.acked = s.inbox.received) {x : Message} (hx : x.session = s.id)
    (hk : x.kind ≠ .send) (hp : x.payload = []) (ha : x.acked = s.inbox.received) : s'.Tells x where
  session := hx.trans hid.symm
  low := ha ▸ hs.inbox.low.trans hs.inbox.acked_le
  acked := (ha.trans hi.symm).le
  body := .inr ⟨hk, hp⟩

theorem Move.tells (h : Move m s s' t a) (hs : s.Coherent) : ∀ τ ∈ t, s'.Tells τ.message := by
  intro τ hτ
  cases h with
  | wait | defer | giveUp | lose | finish => cases hτ
  | send c payload unsent hc =>
    obtain rfl := List.mem_singleton.mp hτ
    refine ⟨rfl, hs.inbox.low.trans hs.inbox.acked_le, le_rfl, .inl ⟨rfl, ?_⟩⟩
    simp [Outbox.retain, handing, Message.send]
  | flush c hc =>
    obtain rfl := List.mem_singleton.mp hτ
    refine hs.tells_received ?_ ?_ ?_ ?_ ?_ ?_
    exacts [rfl, rfl, rfl, by rintro ⟨⟩, rfl, rfl]
  | farewell c lifecycle terminated hc ho =>
    obtain rfl := List.mem_singleton.mp hτ
    exact ⟨rfl, le_rfl, hs.inbox.low, .inr ⟨by rintro ⟨⟩, rfl⟩⟩

theorem Opens.tells (h : Opens m s s' t) (hs : s.Coherent) : ∀ τ ∈ t, s'.Tells τ.message := by
  intro τ hτ
  cases h with
  | refused | waits => cases hτ
  | asks deadline ho hr =>
    obtain rfl := List.mem_singleton.mp hτ
    refine hs.tells_received ?_ ?_ ?_ ?_ ?_ ?_
    exacts [rfl, rfl, rfl, by rintro ⟨⟩, rfl, rfl]

/-- What a session says when a handshake is completed. -/
theorem Coherent.tells_welcome {c : ConnectionId} {n : Int} (hs : s.Coherent) (hid : s'.id = s.id)
    (hi : s'.inbox = s.inbox.flush) (ho : s'.outbox = (s.outbox.acknowledge n).2.reconnect)
    {τ : Transmission} (hτ : τ ∈ s.welcome m c n) : s'.Tells τ.message := by
  have hacked : s'.inbox.acked = s.inbox.received := by rw [hi]; rfl
  rcases List.mem_append.mp hτ with hτ | hτ
  · split at hτ
    · obtain rfl := List.mem_singleton.mp hτ
      exact hs.tells_received hid hacked rfl (by rintro ⟨⟩) rfl rfl
    · cases hτ
  · obtain ⟨r, hr, hx⟩ := List.mem_map.mp (mem_handAll hτ).2
    rw [← hx]
    refine ⟨?_, hs.inbox.low.trans hs.inbox.acked_le, hacked.ge, .inl ⟨rfl, ?_⟩⟩
    · exact (Outbox.acknowledge_session s.outbox n).trans (hs.serves.session.trans hid.symm)
    · rw [ho]
      exact hr

theorem Hears.tells {c : ConnectionId} {x : Message} (h : Hears m s c x s' t d)
    (hs : s.Coherent) : ∀ τ ∈ t, s'.Tells τ.message := by
  intro τ hτ
  cases h with
  | ignored | held | acked | left => cases hτ
  | completed lifecycle waiting hc hk hph =>
    refine hs.tells_welcome ?_ ?_ ?_ hτ
    exacts [rfl, rfl, rfl]
  | answered waiting hc hk hn =>
    obtain rfl := List.mem_singleton.mp hτ
    have hlow := hs.inbox.low.trans hs.inbox.acked_le
    have hack : noSequence ≤ x.seq := by omega
    exact ⟨rfl, hack, le_rfl, .inr ⟨by rintro ⟨⟩, rfl⟩⟩
  | repeated waiting hc hk hn =>
    obtain rfl := List.mem_singleton.mp hτ
    refine hs.tells_received ?_ ?_ ?_ ?_ ?_ ?_
    exacts [rfl, rfl, rfl, by rintro ⟨⟩, rfl, rfl]

end Tether.Session
