import Tether.Proofs.Session.Moves

/-!
# What a session does about a connection or a message

A new connection becomes the pending one, and a client asks for the handshake on it at
once (`Opens`). A message of the session completes the handshake of the pending
connection, or says something on the active one, or is ignored (`Hears`).
-/

namespace Tether

/-- The kind of message that completes a handshake. -/
def Role.awaited : Role → Kind
  | .client => .handshakeOk
  | .server => .handshake

/-- The message belongs on a connection that completed its handshake. -/
def Kind.Ordinary (k : Kind) : Prop := k = .send ∨ k = .ack ∨ k = .goodbye

instance (k : Kind) : Decidable k.Ordinary := inferInstanceAs (Decidable (_ ∨ _ ∨ _))

namespace Session

variable {m : Moment} {s s' : Session} {t : List Transmission} {d : List Bytes}

/-! ### The connections of a session -/

theorem awaits_iff {c : ConnectionId} : s.pending.any (·.conn = c) = true ↔ s.Awaits c := by
  simp [Awaits, Option.any_eq_true]

/-- The connection is the active one, or the pending one. -/
def Has (s : Session) (c : ConnectionId) : Prop := s.active = some c ∨ s.pending.any (·.conn = c) = true

instance (s : Session) (c : ConnectionId) : Decidable (s.Has c) := inferInstanceAs (Decidable (_ ∨ _))

theorem has_iff {c : ConnectionId} : s.Has c ↔ s.active = some c ∨ s.Awaits c :=
  or_congr_right awaits_iff

/-- A frame on another connection is not heard. -/
theorem receive_of_not_has {c : ConnectionId} (hc : ¬ s.Has c) (m : Moment) (bytes : Bytes) :
    (s.receive m c bytes).session = s ∧ (s.receive m c bytes).effects = [] := by
  obtain ⟨hactive, hpending⟩ := not_or.mp hc
  have ha : ¬ s.Active c := hactive
  unfold receive
  cases Message.decode bytes with
  | error e => exact ⟨rfl, rfl⟩
  | ok x =>
    by_cases hx : x.session = s.id <;> simp [Session.receiveMessage, hx, hpending, ha]

/-- The loss of another connection means nothing. -/
theorem disconnected_of_not_has {c : ConnectionId} (hc : ¬ s.Has c) (m : Moment) (forced : Bool) :
    s.disconnected m c forced = (s, []) := by
  obtain ⟨hactive, hpending⟩ := not_or.mp hc
  have ha : ¬ s.Active c := hactive
  simp only [disconnected, if_neg hpending, if_neg ha]

/-! ### New connections -/

/-- What a new connection means for a session, and what is handed to it. -/
inductive Opens (m : Moment) (s : Session) : Session → List Transmission → Prop where
  /-- The session is over. -/
  | refused (ho : s.lifecycle.Over) : Opens m s s []
  /-- The client asks for the handshake, and tells what it received. -/
  | asks (deadline : Nat) (ho : ¬ s.lifecycle.Over) (hr : s.role = .client) :
    Opens m s { s with
      nextConnection := s.nextConnection + 1, pending := some ⟨s.nextConnection, deadline⟩,
      inbox := s.inbox.flush }
      [handing m s.nextConnection (.handshake s.id s.handshakes s.inbox.received)]
  /-- The server waits to be asked. -/
  | waits (deadline : Nat) (ho : ¬ s.lifecycle.Over) (hr : s.role = .server) :
    Opens m s { s with
      nextConnection := s.nextConnection + 1, pending := some ⟨s.nextConnection, deadline⟩ } []

theorem opens_connect (m : Moment) (s : Session) :
    Opens m s (s.connect m).session (Effect.transmitted (s.connect m).effects) ∧
      Effect.delivered (s.connect m).effects = [] := by
  unfold connect
  by_cases ho : s.lifecycle.Over
  · rw [if_pos ho]
    exact ⟨.refused ho, rfl⟩
  rw [if_neg ho]
  cases hr : s.role with
  | client =>
    simp only [Effect.transmitted_append, Effect.delivered_append, Effect.transmitted_close_map,
      Effect.delivered_close_map]
    exact ⟨hr ▸ .asks _ ho hr, rfl⟩
  | server =>
    simp only [Effect.transmitted_close_map, Effect.delivered_close_map, and_true]
    exact hr ▸ .waits _ ho hr

/-- A session that is not over gives the connection the next number. -/
theorem connect_of_not_over (m : Moment) (ho : ¬ s.lifecycle.Over) :
    (s.connect m).answer = .ok s.nextConnection := by
  unfold connect
  rw [if_neg ho]
  cases s.role <;> rfl

theorem Opens.coherent (h : Opens m s s' t) (hs : s.Coherent) : s'.Coherent := by
  cases h with
  | refused => exact hs
  | asks deadline ho hr =>
    exact { hs with
      inbox := hs.inbox.flush
      latest := fun p hp => by cases hp; rfl
      numbered := fun c hc => Nat.lt_succ_of_lt (hs.numbered c hc)
      older := fun c hc p hp => by cases hp; exact hs.numbered c hc
      ended := fun h => (ho h).elim }
  | waits deadline ho hr =>
    exact { hs with
      latest := fun p hp => by cases hp; rfl
      numbered := fun c hc => Nat.lt_succ_of_lt (hs.numbered c hc)
      older := fun c hc p hp => by cases hp; exact hs.numbered c hc
      ended := fun h => (ho h).elim }

/-! ### Messages -/

/-- What a session hands to a connection that completed its handshake: the server
agrees, and what is retained is replayed. -/
def welcome (m : Moment) (s : Session) (c : ConnectionId) (acked : Int) : List Transmission :=
  (if s.role = .server then [handing m c (.handshakeOk s.id s.inbox.received)] else []) ++
    handAll m c ((s.outbox.acknowledge acked).2.replay s.inbox.received)

/-- What a session has to say when a handshake is completed. -/
def greetings (s : Session) (acked : Int) : List Message :=
  (if s.role = .server then [.handshakeOk s.id s.inbox.received] else []) ++
    (s.outbox.acknowledge acked).2.replay s.inbox.received

/-- It says the first of it, and all unless a message is not taken. -/
theorem welcome_prefix (m : Moment) (s : Session) (c : ConnectionId) (acked : Int) :
    (s.welcome m c acked).map (·.message) <+: s.greetings acked ∧
      ((∀ τ ∈ s.welcome m c acked, τ.taken = true) →
        (s.welcome m c acked).map (·.message) = s.greetings acked) := by
  obtain ⟨hp, hall⟩ := handAll_prefix m c ((s.outbox.acknowledge acked).2.replay s.inbox.received)
  have hfirst : (if s.role = .server then [handing m c (.handshakeOk s.id s.inbox.received)]
      else []).map (·.message) =
        if s.role = .server then [.handshakeOk s.id s.inbox.received] else [] := by
    split <;> rfl
  rw [welcome, greetings, List.map_append, hfirst]
  refine ⟨(List.prefix_append_right_inj _).mpr hp, fun h => ?_⟩
  rw [hall (List.forall_mem_append.mp h).2]

theorem welcome_conn {m : Moment} {s : Session} {c : ConnectionId} {acked : Int} {τ : Transmission}
    (h : τ ∈ s.welcome m c acked) : τ.conn = c := by
  rcases List.mem_append.mp h with h | h
  · split at h
    · rw [List.mem_singleton.mp h]
      rfl
    · cases h
  · exact (mem_handAll h).1

/-- What a message of the session means on a connection, what is handed to
connections, and what is delivered. -/
inductive Hears (m : Moment) (s : Session) (c : ConnectionId) (x : Message) :
    Session → List Transmission → List Bytes → Prop where
  /-- It does not belong there. -/
  | ignored (hc : s.Awaits c → x.kind ≠ s.role.awaited) (ho : s.active = some c → ¬ x.kind.Ordinary) :
    Hears m s c x s [] []
  /-- The pending connection completes its handshake. -/
  | completed (lifecycle : Lifecycle) (waiting : List Waiting) (hc : s.Awaits c)
    (hk : x.kind = s.role.awaited) (hp : lifecycle.phase = .connected) :
    Hears m s c x { s with
      lifecycle, waiting, active := some c, pending := none, windowEnd := none,
      outbox := (s.outbox.acknowledge x.acked).2.reconnect, inbox := s.inbox.flush,
      handshakes := s.handshakes + 1 } (s.welcome m c x.acked) []
  /-- The next payload comes. -/
  | held (waiting : List Waiting) (hc : s.active = some c) (hk : x.kind = .send)
    (hn : x.seq = s.inbox.received + 1) (hd : x.seq - s.inbox.acked < s.config.maxDelayedAcks) :
    Hears m s c x { s with
      waiting, outbox := (s.outbox.acknowledge x.acked).2, inbox := ⟨x.seq, s.inbox.acked⟩ }
      [] [x.payload]
  /-- The next payload comes, and enough are acknowledged. -/
  | answered (waiting : List Waiting) (hc : s.active = some c) (hk : x.kind = .send)
    (hn : x.seq = s.inbox.received + 1) :
    Hears m s c x { s with
      waiting, outbox := (s.outbox.acknowledge x.acked).2, inbox := ⟨x.seq, x.seq⟩ }
      [handing m c (.ack s.id x.seq)] [x.payload]
  /-- A payload comes that is not the next one. -/
  | repeated (waiting : List Waiting) (hc : s.active = some c) (hk : x.kind = .send)
    (hn : x.seq ≠ s.inbox.received + 1) :
    Hears m s c x { s with
      waiting, outbox := (s.outbox.acknowledge x.acked).2, inbox := s.inbox.flush }
      [handing m c (.ack s.id s.inbox.received)] []
  /-- The peer acknowledges. -/
  | acked (waiting : List Waiting) (hc : s.active = some c) (hk : x.kind = .ack) :
    Hears m s c x { s with waiting, outbox := (s.outbox.acknowledge x.acked).2 } [] []
  /-- The peer says goodbye. -/
  | left (waiting : List Waiting) (lifecycle : Lifecycle) (hc : s.active = some c)
    (hk : x.kind = .goodbye) (ho : lifecycle.Over) :
    Hears m s c x { s with
      waiting, lifecycle, windowEnd := none, pending := none, active := none,
      outbox := s.outbox.disconnect, terminated := true } [] []

/-- Acknowledging changes the outbox, and who waits. -/
theorem exists_acknowledge_eq (s : Session) (n : Int) :
    ∃ waiting, s.acknowledge n = { s with outbox := (s.outbox.acknowledge n).2, waiting } := by
  simp only [acknowledge]
  split
  · exact ⟨_, rfl⟩
  · exact ⟨s.waiting, rfl⟩

/-- A session that is not over is connected by a handshake, and thereby restored if its
connection was lost. -/
theorem handshake_of_not_over {l : Lifecycle} (h : ¬ l.Over) :
    l.connect.1 ≠ .rejected ∧ (l.connect.1 = .restored ↔ l.phase = .restoring) ∧
      l.connect.2.phase = .connected := by
  unfold Lifecycle.connect
  cases hp : l.phase with
  | initial | restoring | connected => simp [hp]
  | lost => exact (h (.inl hp)).elim
  | closed => exact (h (.inr hp)).elim

/-- A session that has a pending connection is not over. -/
theorem Coherent.not_over_of_pending (hs : s.Coherent) {p : Pending} (hp : s.pending = some p) :
    ¬ s.lifecycle.Over := fun ho => by
  rw [hs.ended ho] at hp
  cases hp

/-- What is done when the pending connection completes its handshake. -/
theorem Coherent.completeHandshake_eq (hs : s.Coherent) (m : Moment) {p : Pending}
    (hp : s.pending = some p) (acked : Int) : ∃ waiting, s.completeHandshake m acked =
      ⟨.ok (), { s with
          lifecycle := s.lifecycle.connect.2, waiting, active := some p.conn, pending := none,
          windowEnd := none, outbox := (s.outbox.acknowledge acked).2.reconnect,
          inbox := s.inbox.flush, handshakes := s.handshakes + 1 },
        (s.active.toList.map fun c => Effect.close c false) ++
          (if s.role = .server then [transmit m p.conn (.handshakeOk s.id s.inbox.received)] else []) ++
          transmitAll m p.conn ((s.outbox.acknowledge acked).2.replay s.inbox.received) ++
          if s.lifecycle.phase = .restoring then [.notify .restored] else []⟩ := by
  obtain ⟨hr, hrestored, -⟩ := handshake_of_not_over (hs.not_over_of_pending hp)
  rcases hl : s.lifecycle.connect with ⟨outcome, lifecycle⟩
  rw [hl] at hr hrestored
  obtain ⟨waiting, hw⟩ := exists_acknowledge_eq
    { s with pending := none, lifecycle, windowEnd := none } acked
  refine ⟨waiting.map fun w => { w with woken := true }, ?_⟩
  cases outcome with
  | rejected => exact (hr rfl).elim
  | established | restored | replaced =>
    simp only [Session.completeHandshake, hp, hl, hw, ← hrestored, wake]

/-- A handshake is completed on the pending connection. -/
theorem Coherent.completeHandshake (hs : s.Coherent) (m : Moment) {c : ConnectionId} {x : Message}
    (hc : s.Awaits c) (hk : x.kind = s.role.awaited) :
    Hears m s c x (s.completeHandshake m x.acked).session
        (Effect.transmitted (s.completeHandshake m x.acked).effects)
        (Effect.delivered (s.completeHandshake m x.acked).effects) := by
  obtain ⟨p, hp, rfl⟩ := hc
  obtain ⟨waiting, h⟩ := hs.completeHandshake_eq m hp x.acked
  have hconnected := (handshake_of_not_over (hs.not_over_of_pending hp)).2.2
  have hcompleted := Hears.completed (m := m) (s := s) (x := x) _ waiting ⟨p, hp, rfl⟩ hk hconnected
  have hgreeting : Effect.transmitted
      (if s.role = .server then [transmit m p.conn (.handshakeOk s.id s.inbox.received)] else []) =
        if s.role = .server then [handing m p.conn (.handshakeOk s.id s.inbox.received)] else [] := by
    split <;> rfl
  have hsilent : Effect.delivered
      (if s.role = .server then [transmit m p.conn (.handshakeOk s.id s.inbox.received)] else []) =
        [] := by
    split <;> rfl
  have hnotice : ∀ q : Prop, ∀ _ : Decidable q,
      Effect.transmitted (if q then [.notify .restored] else []) = [] ∧
        Effect.delivered (if q then [.notify .restored] else []) = [] := by
    intro q _
    split <;> exact ⟨rfl, rfl⟩
  simp only [h, Effect.transmitted_append, Effect.delivered_append, Effect.transmitted_close_map,
    Effect.delivered_close_map, transmitted_transmitAll, delivered_transmitAll, hgreeting, hsilent,
    (hnotice _ _).1, (hnotice _ _).2, List.nil_append, List.append_nil]
  exact hcompleted

/-- A message of the session comes on the active connection. -/
theorem Coherent.receiveActive (hs : s.Coherent) (m : Moment) {c : ConnectionId} {x : Message}
    (hc : s.active = some c) :
    Hears m s c x (s.receiveActive m c x).session (Effect.transmitted (s.receiveActive m c x).effects)
      (Effect.delivered (s.receiveActive m c x).effects) := by
  have hp : ¬ s.Awaits c := hs.not_awaits hc
  obtain ⟨waiting, hw⟩ := exists_acknowledge_eq s x.acked
  have hsend : ∀ n, Effect.transmitted
      (({ s with outbox := (s.outbox.acknowledge x.acked).2, waiting } : Session).sendAck m n) =
        [handing m c (.ack s.id n)] := fun n => transmitted_sendAck hc m n
  unfold Session.receiveActive
  cases hk : x.kind with
  | send =>
    simp only [hw]
    by_cases hn : x.seq = s.inbox.received + 1
    · have hnext := @Inbox.receive_next s.inbox s.config.maxDelayedAcks
      rw [← hn] at hnext
      by_cases hd : s.config.maxDelayedAcks ≤ x.seq - s.inbox.acked
      · rw [if_pos hd] at hnext
        simp only [hnext, Option.toList_some, List.flatMap_cons, List.flatMap_nil, List.append_nil,
          Effect.transmitted_append, Effect.delivered_append, hsend, delivered_sendAck]
        exact .answered waiting hc hk hn
      · rw [if_neg hd] at hnext
        simp only [hnext]
        exact .held waiting hc hk hn (by omega)
    · obtain ⟨hanswer, hinbox⟩ := @Inbox.receive_of_ne s.inbox s.config.maxDelayedAcks _ hn
      rcases hanswer with h | h <;> simp only [h, hinbox, hsend, delivered_sendAck] <;>
        exact .repeated waiting hc hk hn
  | ack =>
    simp only [hw]
    exact .acked waiting hc hk
  | goodbye =>
    simp only [Lifecycle.goodbye, if_neg (hs.not_over hc), Effect.transmitted_append,
      Effect.delivered_append, transmitted_shutDown, delivered_shutDown]
    exact .left _ _ hc hk (.inr rfl)
  | handshake | handshakeOk | handshakeFail =>
    exact .ignored (fun h => (hp h).elim) (fun _ => by simp [hk, Kind.Ordinary])

/-- The message that the role waits for completes the handshake. -/
theorem receivePending_eq (m : Moment) (c : ConnectionId) {x : Message}
    (hk : x.kind = s.role.awaited) : s.receivePending m c x = s.completeHandshake m x.acked := by
  unfold receivePending
  cases hr : s.role <;> rw [hr] at hk <;> simp only [hk, Role.awaited]

/-- A message of the session comes on the pending connection. -/
theorem Coherent.receivePending (hs : s.Coherent) (m : Moment) {c : ConnectionId} {x : Message}
    (hc : s.Awaits c) : Hears m s c x (s.receivePending m c x).session
      (Effect.transmitted (s.receivePending m c x).effects)
      (Effect.delivered (s.receivePending m c x).effects) := by
  have hp : s.active ≠ some c := fun ha => hs.not_awaits ha hc
  by_cases hk : x.kind = s.role.awaited
  · rw [receivePending_eq m c hk]
    exact hs.completeHandshake m hc hk
  · have hsame : ∃ e, s.receivePending m c x = ⟨.error e, s, []⟩ := by
      unfold Session.receivePending
      cases hr : s.role <;> cases hx : x.kind <;> simp_all [Role.awaited]
    obtain ⟨e, h⟩ := hsame
    rw [h]
    exact .ignored (fun _ => hk) (fun ha => (hp ha).elim)

/-- **What a message of the session means.** -/
theorem Coherent.receiveMessage (hs : s.Coherent) (m : Moment) (c : ConnectionId) {x : Message}
    (hx : x.session = s.id) : Hears m s c x (s.receiveMessage m c x).session
      (Effect.transmitted (s.receiveMessage m c x).effects)
      (Effect.delivered (s.receiveMessage m c x).effects) := by
  unfold Session.receiveMessage
  rw [if_neg (not_not.mpr hx)]
  by_cases hp : s.Awaits c
  · rw [if_pos (awaits_iff.mpr hp)]
    exact hs.receivePending m hp
  rw [if_neg (fun h => hp (awaits_iff.mp h))]
  split
  · next hc => exact hs.receiveActive m hc
  · next hc => exact .ignored (fun h => (hp h).elim) (fun ha => (hc ha).elim)

/-- A message leaves the parts of a session in agreement. -/
theorem Hears.coherent {c : ConnectionId} {x : Message} (h : Hears m s c x s' t d)
    (hs : s.Coherent) : s'.Coherent := by
  cases h with
  | ignored => exact hs
  | completed lifecycle waiting hc hk hp =>
    obtain ⟨p, hp', rfl⟩ := hc
    have hlatest := hs.latest p hp'
    exact { hs with
      outbox := (hs.outbox.acknowledge x.acked).reconnect
      inbox := hs.inbox.flush
      serves := { hs.serves.acknowledge x.acked with }
      connected := rfl
      phase := by simp [hp]
      latest := fun _ h => (by cases h)
      numbered := fun c hc => by cases hc; exact hlatest ▸ Nat.lt_succ_self p.conn
      older := fun _ _ _ h => (by cases h)
      ended := fun _ => rfl }
  | held waiting hc hk hn hd =>
    have hlow := hs.inbox.low
    have hle := hs.inbox.acked_le
    exact { hs with
      outbox := hs.outbox.acknowledge x.acked
      inbox := ⟨hlow, by simp only; omega, hd⟩
      serves := hs.serves.acknowledge x.acked
      connected := (Outbox.acknowledge_connected s.outbox x.acked).trans hs.connected }
  | answered waiting hc hk hn =>
    have hlow := hs.inbox.low
    have hle := hs.inbox.acked_le
    have hheld := hs.inbox.held
    exact { hs with
      outbox := hs.outbox.acknowledge x.acked
      inbox := ⟨by simp only; omega, le_rfl, by simp only; omega⟩
      serves := hs.serves.acknowledge x.acked
      connected := (Outbox.acknowledge_connected s.outbox x.acked).trans hs.connected }
  | repeated waiting hc hk hn =>
    exact { hs with
      outbox := hs.outbox.acknowledge x.acked
      inbox := hs.inbox.flush
      serves := hs.serves.acknowledge x.acked
      connected := (Outbox.acknowledge_connected s.outbox x.acked).trans hs.connected }
  | acked waiting hc hk =>
    exact { hs with
      outbox := hs.outbox.acknowledge x.acked
      serves := hs.serves.acknowledge x.acked
      connected := (Outbox.acknowledge_connected s.outbox x.acked).trans hs.connected }
  | left waiting lifecycle hc hk ho =>
    have hp : lifecycle.phase ≠ .connected := by
      rcases ho with h | h <;> simp [h]
    exact { hs with
      outbox := hs.outbox.disconnect
      serves := { hs.serves with }
      connected := rfl
      phase := by simp [hp]
      latest := fun _ h => (by cases h)
      numbered := fun _ h => (by cases h)
      older := fun _ h => (by cases h)
      ended := fun _ => rfl }

end Session

/-! ### Numbers -/

/-- The numbers of the payloads among messages. -/
def Message.numbers (l : List Message) : List Int := (l.filter (·.kind = .send)).map (·.seq)

namespace Message

@[simp] theorem numbers_nil : numbers [] = [] := rfl

@[simp] theorem numbers_append (l l' : List Message) :
    numbers (l ++ l') = numbers l ++ numbers l' := by
  simp [numbers]

theorem numbers_cons_send {x : Message} (l : List Message) (h : x.kind = .send) :
    numbers (x :: l) = x.seq :: numbers l := by
  simp [numbers, h]

theorem numbers_cons_other {x : Message} (l : List Message) (h : x.kind ≠ .send) :
    numbers (x :: l) = numbers l := by
  simp [numbers, h]

theorem mem_numbers {l : List Message} {n : Int} :
    n ∈ numbers l ↔ ∃ x ∈ l, x.kind = .send ∧ x.seq = n := by
  simp [numbers, and_assoc]

theorem numbers_prefix {l l' : List Message} (h : l <+: l') : numbers l <+: numbers l' :=
  (h.filter _).map _

/-- What is replayed are the payloads after the highest acknowledgement. -/
theorem numbers_greetings {s : Session} (hs : s.Coherent) (n : Int) :
    numbers (s.greetings n) =
      Int.range ((s.outbox.acknowledge n).2.highestAck + 1) s.outbox.next := by
  have hreplay : ∀ (o : Outbox) (n : Int), numbers (o.replay n) = o.sequences := by
    intro o n
    simp only [numbers, Outbox.replay, Outbox.sequences]
    rw [List.filter_eq_self.mpr (by simp [Message.send]), List.map_map]
    rfl
  have hgreeting : numbers (if s.role = .server then [.handshakeOk s.id s.inbox.received] else []) =
      [] := by
    split <;> rfl
  rw [Session.greetings, numbers_append, hgreeting, List.nil_append, hreplay,
    (hs.outbox.acknowledge n).sequences, Outbox.acknowledge_next]

end Message

end Tether
