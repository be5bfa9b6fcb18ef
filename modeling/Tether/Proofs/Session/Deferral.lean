import Tether.Proofs.Session.Discipline
import Tether.Proofs.Session.Room

/-!
# Payloads that are deferred

A payload that is accepted while there is no connection is deferred, and goes out in the replay
when a handshake is completed. Sent right after the handshake it goes out at once. The two ways
are the same (`Coherent.defer_comm`): the outbox retains the same (`Outbox.acknowledge_retain`), and
the connection hears the same.

Main result: this holds of any number of payloads (`deferring_unobservable`).
-/

namespace Tether

/-! ### Outboxes -/

namespace Outbox

variable {o : Outbox} {acked : Int} {payload : Bytes}

/-- What is retained last is not acknowledged by the number of an older message. -/
theorem acknowledge_retain (h : acked < o.next) (payload : Bytes) (n : Nat) :
    ((o.retain payload n).acknowledge acked).2.reconnect =
      (o.acknowledge acked).2.reconnect.retain payload 0 := by
  unfold acknowledge
  by_cases hle : acked ≤ o.highestAck
  · rw [if_pos hle, if_pos (show acked ≤ (o.retain payload n).highestAck from hle)]
    rfl
  rw [if_neg hle, if_neg (show ¬ acked ≤ (o.retain payload n).highestAck from hle)]
  have hcredible : o.credible acked = acked := if_neg h.not_ge
  have hcredible' : (o.retain payload n).credible acked = acked :=
    if_neg (show ¬ o.next + 1 ≤ acked by omega)
  have hkept : (o.retain payload n).retained.toList.dropWhile (·.seq ≤ acked) =
      o.retained.toList.dropWhile (·.seq ≤ acked) ++ [⟨o.next, payload⟩] := by
    have hlast : ¬ o.next ≤ acked := h.not_ge
    simp only [retain, Array.toList_push, List.dropWhile_append]
    split
    · next hnone => simp [List.isEmpty_iff.mp hnone, hlast]
    · rfl
  simp only [hcredible, hcredible', hkept]
  simp [reconnect, retain]

/-- A payload is accepted if it is not too long, and there is room for it. -/
theorem refusal?_eq_none_iff : o.refusal? payload = none ↔
    payload.length ≤ o.maxPayload ∧ ¬ o.WindowFull ∧ ¬ o.QueueFull := by
  unfold refusal?
  by_cases hp : o.maxPayload < payload.length
  · simp [hp]
  rw [if_neg hp]
  by_cases hw : o.WindowFull
  · simp [hw]
  · simp [hw, Nat.not_lt.mp hp]

theorem refusal?_of_accept {r : Accepted × Outbox} (h : o.accept payload = .ok r) :
    o.refusal? payload = none := by
  unfold accept at h
  split at h
  · cases h
  · assumption

/-- It is replayed last. -/
theorem replay_acknowledge_retain (h : acked < o.next) (payload : Bytes) (n : Nat) (received : Int) :
    ((o.retain payload n).acknowledge acked).2.replay received =
      (o.acknowledge acked).2.replay received ++ [.send o.session o.next received payload] := by
  have hreconnect (o : Outbox) : o.replay received = o.reconnect.replay received := rfl
  rw [hreconnect, acknowledge_retain h, hreconnect (o.acknowledge acked).2]
  simp [replay, retain, reconnect]

/-- Where there was room before a handshake, there is room after it. -/
theorem accept_reconnect {r : Accepted × Outbox} (h : o.accept payload = .ok r) (acked : Int) :
    (o.acknowledge acked).2.reconnect.accept payload =
      .ok (.transmit o.next, (o.acknowledge acked).2.reconnect.retain payload 0) := by
  obtain ⟨hp, hwindow, -⟩ := refusal?_eq_none_iff.mp (refusal?_of_accept h)
  have hroom : ¬ (o.acknowledge acked).2.reconnect.WindowFull := by
    rintro ⟨w, hw, hle⟩
    have hsize := (acknowledge_retained_sublist o acked).length_le
    exact hwindow ⟨w, acknowledge_window o acked ▸ hw, hle.trans (by simpa [reconnect] using hsize)⟩
  have hqueue : ¬ (o.acknowledge acked).2.reconnect.QueueFull := by simp [QueueFull, reconnect]
  have hnone : (o.acknowledge acked).2.reconnect.refusal? payload = none :=
    refusal?_eq_none_iff.mpr ⟨acknowledge_maxPayload o acked ▸ hp, hroom, hqueue⟩
  have hnext : (o.acknowledge acked).2.reconnect.next = o.next := acknowledge_next o acked
  unfold accept
  rw [hnone, hnext]
  rfl

end Outbox

namespace Session

variable {m m₁ : Moment} {s : Session} {p : Pending} {c : ConnectionId} {acked : Int}
  {payload bytes : Bytes} {x : Message}

/-! ### Completing a handshake -/

/-- A session without an active connection, after its pending one completed its handshake. -/
def completed (s : Session) (c : ConnectionId) (acked : Int) : Session :=
  { s with
    lifecycle := s.lifecycle.connect.2, waiting := s.waiting.map Waiting.rouse, active := some c,
    pending := none, windowEnd := none, outbox := (s.outbox.acknowledge acked).2.reconnect,
    inbox := s.inbox.flush, handshakes := s.handshakes + 1 }

/-- The frame holds the message that completes a handshake of the session, on its pending
connection. -/
structure Completing (s : Session) (bytes : Bytes) (x : Message) : Prop where
  decode : Message.decode bytes = .ok x
  session : x.session = s.id
  kind : x.kind = s.role.awaited

theorem Completing.receive (hx : s.Completing bytes x) (hp : s.pending = some p) (m : Moment) :
    s.receive m p.conn bytes = s.completeHandshake m x.acked := by
  rw [receive_of_awaits m hx.decode hx.session ⟨p, hp, rfl⟩, receivePending_eq m p.conn hx.kind]

/-- No other frame completes it. -/
theorem Coherent.exists_completing_iff (hs : s.Coherent) (hp : s.pending = some p) (m : Moment) :
    (∃ x, s.Completing bytes x) ↔
      (s.step m (.frame p.conn bytes)).1.handshakes = s.handshakes + 1 := by
  constructor
  · rintro ⟨x, hx⟩
    obtain ⟨waiting, h⟩ := hs.completeHandshake_eq m hp x.acked
    simp only [Session.step, hx.receive hp, h]
  · intro h
    by_contra hnot
    have hawaits : s.Awaits p.conn := ⟨p, hp, rfl⟩
    have hfaulty : ∃ e, s.Faulty p.conn bytes e := by
      cases hd : Message.decode bytes with
      | error e => exact ⟨_, .undecodable hd⟩
      | ok x =>
        by_cases hx : x.session = s.id
        · have hk : x.kind ≠ s.role.awaited := fun hk => hnot ⟨x, hd, hx, hk⟩
          by_cases hf : s.role = .client ∧ x.kind = .handshakeFail
          · exact ⟨_, .rejected hd hx hawaits hf.1 hf.2⟩
          · exact ⟨_, .early hd hx hawaits hk hf⟩
        · exact ⟨_, .foreign hd hx⟩
    obtain ⟨e, hfaulty⟩ := hfaulty
    obtain ⟨effects, hsame, -⟩ := hs.receive_of_faulty m hfaulty
    simp [Session.step, hsame] at h

theorem transmitAll_of_takesAll (h : ∀ x, m.takes c x = true) (l : List Message) :
    transmitAll m c l = l.map (.transmit c · true) := by
  induction l with
  | nil => rfl
  | cons x l ih => rw [transmitAll, transmit, h, if_pos rfl, ih, List.map_cons]

/-- The pending connection completes its handshake, and takes all that the session has to say. -/
theorem Coherent.step_completing (hs : s.Coherent) (hp : s.pending = some p) (ha : s.active = none)
    (hx : s.Completing bytes x) (ht : ∀ x, m.takes p.conn x = true) :
    s.step m (.frame p.conn bytes) = (s.completed p.conn x.acked,
      (s.greetings x.acked).map (.transmit p.conn · true) ++
        if s.lifecycle.phase = .restoring then [.notify .restored] else []) := by
  obtain ⟨hr, -, -⟩ := handshake_of_not_over (hs.not_over_of_pending hp)
  obtain ⟨waiting, h⟩ := hs.completeHandshake_eq m hp x.acked
  have hwaiting : waiting = s.waiting.map Waiting.rouse := by
    have hleft := (left_completeHandshake hp hr m x.acked).waiting
    rwa [h, if_pos rfl] at hleft
  have hreceive := hx.receive hp m
  have hgreeting : (if s.role = .server then
      [transmit m p.conn (.handshakeOk s.id s.inbox.received)] else []) =
        (if s.role = .server then [.handshakeOk s.id s.inbox.received] else []).map
          (.transmit p.conn · true) := by
    split
    · rw [transmit, ht]
      rfl
    · rfl
  simp only [Session.step, hreceive, h, hwaiting, ha, completed, greetings, List.map_append,
    transmitAll_of_takesAll ht, hgreeting, Option.toList_none, List.map_nil, List.nil_append]

/-! ### Sending before and after -/

/-- A payload that is accepted without a connection is deferred. -/
theorem Coherent.trySend_deferring (hs : s.Coherent) (ha : s.active = none)
    (hok : ∃ n, (s.trySend m payload).answer = .ok n) :
    (∃ r, s.outbox.accept payload = .ok r) ∧ ∃ unsent, s.trySend m payload =
      ⟨.ok s.outbox.next, { s with outbox := s.outbox.retain payload unsent }, []⟩ := by
  obtain ⟨n, hn⟩ := hok
  rcases hs.trySend m payload with ⟨r, h⟩ | ⟨-, -, unsent, h⟩ | ⟨c, -, -, hc, -⟩
  · rw [h] at hn
    cases hn
  · refine ⟨?_, unsent, h⟩
    unfold Session.trySend at h
    split at h
    · cases h
    · cases hr : s.outbox.accept payload with
      | ok r => exact ⟨r, rfl⟩
      | error r =>
        rw [hr] at h
        cases h
  · cases ha.symm.trans hc

/-- After the handshake it goes out at once. -/
theorem Coherent.trySend_completed (hs : s.Coherent) (hp : s.pending = some p) (c : ConnectionId)
    (acked : Int) (hr : ∃ r, s.outbox.accept payload = .ok r) (ht : ∀ x, m.takes c x = true) :
    (s.completed c acked).trySend m payload = ⟨.ok s.outbox.next,
      { s.completed c acked with
        outbox := (s.outbox.acknowledge acked).2.reconnect.retain payload 0 },
      [.transmit c (.send s.id s.outbox.next s.inbox.received payload) true]⟩ := by
  obtain ⟨r, hr⟩ := hr
  obtain ⟨-, -, hphase⟩ := handshake_of_not_over (hs.not_over_of_pending hp)
  have ho : ¬ s.lifecycle.connect.2.Over := fun ho => ho.phase_ne.1 hphase
  simp only [Session.trySend, completed, if_neg ho, Outbox.accept_reconnect hr, transmit, ht]
  rfl

/-- Two ways to the same end: the same session, the same messages on the connections in the same
order, and the same news in the same order, and nothing else is done either. -/
structure Alike (r r' : Session × List Effect) : Prop where
  session : r.1 = r'.1
  transmitted : Effect.transmitted r.2 = Effect.transmitted r'.2
  news : Effect.news r.2 = Effect.news r'.2
  effects : r.2.Perm r'.2

theorem Alike.refl (r : Session × List Effect) : Alike r r := ⟨rfl, rfl, rfl, .refl _⟩

theorem Alike.trans {r r' r'' : Session × List Effect} (h : Alike r r') (h' : Alike r' r'') :
    Alike r r'' :=
  ⟨h.session.trans h'.session, h.transmitted.trans h'.transmitted, h.news.trans h'.news,
    h.effects.trans h'.effects⟩

/-- Messages may change places with what is told meanwhile. -/
theorem Alike.swap (s : Session) (before : List Effect) {told said : List Effect}
    (htold : Effect.transmitted told = []) (hsaid : Effect.news said = []) :
    Alike (s, before ++ said ++ told) (s, before ++ told ++ said) where
  session := rfl
  transmitted := by simp [htold]
  news := by simp [hsaid]
  effects := by
    rw [List.append_assoc, List.append_assoc]
    exact List.perm_append_comm.append_left before

/-- What happens before is the same. -/
theorem Alike.cons {i : Moment × Input} {l l' : List (Moment × Input)}
    (h : Alike ((s.step i.1 i.2).1.run l) ((s.step i.1 i.2).1.run l')) :
    Alike (s.run (i :: l)) (s.run (i :: l')) where
  session := h.session
  transmitted := by simp only [run, Effect.transmitted_append, h.transmitted]
  news := by simp only [run, Effect.news_append, h.news]
  effects := h.effects.append_left _

/-- What happens after that is the same. -/
theorem Alike.append {l l' : List (Moment × Input)} (h : Alike (s.run l) (s.run l'))
    (rest : List (Moment × Input)) : Alike (s.run (l ++ rest)) (s.run (l' ++ rest)) where
  session := by rw [run_append, run_append, h.session]
  transmitted := by simp only [run_append_effects, Effect.transmitted_append, h.transmitted, h.session]
  news := by simp only [run_append_effects, Effect.news_append, h.news, h.session]
  effects := by
    rw [run_append_effects, run_append_effects, h.session]
    exact h.effects.append_right _

/-- The handshake acknowledges nothing of a payload that is accepted before it. -/
theorem completed_retain (h : acked < s.outbox.next) (c : ConnectionId) (payload : Bytes) (n : Nat) :
    ({ s with outbox := s.outbox.retain payload n } : Session).completed c acked =
      { s.completed c acked with
        outbox := (s.outbox.acknowledge acked).2.reconnect.retain payload 0 } := by
  simp only [completed, Outbox.acknowledge_retain h]

/-- **A payload may as well be deferred**: it goes out in the same message, after the same ones. -/
theorem Coherent.defer_comm (hs : s.Coherent) (hp : s.pending = some p) (ha : s.active = none)
    (hx : s.Completing bytes x) (hn : x.acked < s.outbox.next)
    (ht : ∀ x, m.takes p.conn x = true) (ht₁ : ∀ x, m₁.takes p.conn x = true)
    (hok : ∃ n, (s.trySend m₁ payload).answer = .ok n) :
    Alike (s.run [(m₁, .trySend payload), (m, .frame p.conn bytes)])
        (s.run [(m, .frame p.conn bytes), (m₁, .trySend payload)]) := by
  obtain ⟨hr, unsent, hdefer⟩ := hs.trySend_deferring ha hok
  have hs' := hs.step m₁ (.trySend payload)
  simp only [Session.step, hdefer] at hs'
  let s' : Session := { s with outbox := s.outbox.retain payload unsent }
  have hx' : s'.Completing bytes x := ⟨hx.decode, hx.session, hx.kind⟩
  have hlast : s'.greetings x.acked = s.greetings x.acked ++
      [.send s.id s.outbox.next s.inbox.received payload] := by
    simp only [greetings, s', Outbox.replay_acknowledge_retain hn, hs.serves.session,
      List.append_assoc]
  have hbefore : s.run [(m₁, .trySend payload), (m, .frame p.conn bytes)] =
      s'.step m (.frame p.conn bytes) := by
    simp [run, Session.step, hdefer, s']
  have htold : Effect.transmitted
      (if s.lifecycle.phase = .restoring then [.notify .restored] else []) = [] := by
    split <;> rfl
  rw [hbefore, hs'.step_completing hp ha hx' ht, hlast, completed_retain hn, List.map_append]
  simp only [run, hs.step_completing hp ha hx ht]
  simp only [Session.step, hs.trySend_completed hp p.conn x.acked hr ht₁, List.append_nil]
  exact .swap _ _ htold rfl

/-! ### Any number of payloads -/

/-- The payloads are sent one after the other. -/
def sends (payloads : List (Moment × Bytes)) : List (Moment × Input) :=
  payloads.map fun (m, payload) => (m, .trySend payload)

/-- All of them are accepted. -/
def AcceptsAll (s : Session) : List (Moment × Bytes) → Prop
  | [] => True
  | (m, payload) :: rest =>
    (∃ n, (s.trySend m payload).answer = .ok n) ∧ (s.trySend m payload).session.AcceptsAll rest

/-- They get consecutive numbers. -/
theorem Coherent.grantsIn_sends (hs : s.Coherent) {payloads : List (Moment × Bytes)}
    (hok : s.AcceptsAll payloads) : s.grantsIn (sends payloads) =
      Int.range s.outbox.next (s.outbox.next + payloads.length) := by
  have hall : (s.acceptedIn (sends payloads)).length = payloads.length := by
    induction payloads generalizing s with
    | nil => rfl
    | cons i payloads ih =>
      obtain ⟨⟨n, hn⟩, hrest⟩ := hok
      have haccepted : s.accepted i.1 (.trySend i.2) = [i.2] := by
        simp only [accepted, accepts, hn]
      have hlater := ih (hs.step i.1 (.trySend i.2)) hrest
      change (s.accepted i.1 (.trySend i.2) ++
        (s.step i.1 (.trySend i.2)).1.acceptedIn (sends payloads)).length = _
      rw [haccepted, List.length_append, hlater, List.length_cons, List.length_cons, List.length_nil,
        Nat.zero_add, Nat.add_comm]
  rw [hs.grantsIn_eq, hall]

/-- After the handshake they are accepted, too. -/
theorem Coherent.acceptsAll_completed (hs : s.Coherent) (hp : s.pending = some p)
    (ha : s.active = none) (hn : acked < s.outbox.next) {payloads : List (Moment × Bytes)}
    (hts : ∀ i ∈ payloads, ∀ x, i.1.takes c x = true) (hok : s.AcceptsAll payloads) :
    (s.completed c acked).AcceptsAll payloads := by
  induction payloads generalizing s with
  | nil => trivial
  | cons i payloads ih =>
    obtain ⟨m₁, payload⟩ := i
    obtain ⟨hfirst, hrest⟩ := hok
    obtain ⟨hm₁, hms⟩ := List.forall_mem_cons.mp hts
    obtain ⟨hr, unsent, hdefer⟩ := hs.trySend_deferring ha hfirst
    have hs' := hs.step m₁ (.trySend payload)
    simp only [Session.step, hdefer] at hs' hrest
    have hlater := ih hs' hp ha (by simp only [Outbox.retain]; omega) hms hrest
    rw [completed_retain hn] at hlater
    rw [AcceptsAll, hs.trySend_completed hp c acked hr hm₁]
    exact ⟨⟨_, rfl⟩, hlater⟩

/-- **All may as well be deferred.** -/
theorem Coherent.alike_deferred (hs : s.Coherent) (hp : s.pending = some p) (ha : s.active = none)
    (hx : s.Completing bytes x) (hn : x.acked < s.outbox.next)
    (ht : ∀ x, m.takes p.conn x = true) {payloads : List (Moment × Bytes)}
    (hts : ∀ i ∈ payloads, ∀ x, i.1.takes p.conn x = true) (hok : s.AcceptsAll payloads) :
    Alike (s.run (sends payloads ++ [(m, .frame p.conn bytes)]))
      (s.run ((m, .frame p.conn bytes) :: sends payloads)) := by
  induction payloads generalizing s with
  | nil => exact .refl _
  | cons i payloads ih =>
    obtain ⟨m₁, payload⟩ := i
    obtain ⟨hfirst, hrest⟩ := hok
    obtain ⟨hm₁, hms⟩ := List.forall_mem_cons.mp hts
    obtain ⟨-, unsent, hdefer⟩ := hs.trySend_deferring ha hfirst
    have hstep : s.step m₁ (.trySend payload) =
        ({ s with outbox := s.outbox.retain payload unsent }, []) := by
      simp only [Session.step, hdefer]
    have hs' := hs.step m₁ (.trySend payload)
    rw [hdefer] at hrest
    rw [hstep] at hs'
    -- the others are deferred, and then this one changes places with the handshake
    have hothers := ih hs' hp ha ⟨hx.decode, hx.session, hx.kind⟩
      (by simp only [Outbox.retain]; omega) hms hrest
    rw [← congrArg Prod.fst hstep] at hothers
    have hcomm := hs.defer_comm hp ha hx hn ht hm₁ hfirst
    exact (Alike.cons (i := (m₁, .trySend payload)) hothers).trans (hcomm.append (sends payloads))

/-- **Deferring payloads cannot be observed.** While a session has a pending connection and no active
one, some payloads are accepted, and a handshake is completed that acknowledges none of them. If the
connection takes everything, it makes no difference whether the payloads are sent before the
handshake or after it: the layer above is told the same numbers, the same messages go out in the
same order, it hears the same news, and the session is the same in the end. -/
theorem deferring_unobservable (h : s.Reachable) (hp : s.pending = some p) (ha : s.active = none)
    (hx : s.Completing bytes x) (hn : x.acked < s.outbox.next)
    (ht : ∀ x, m.takes p.conn x = true) (payloads : List (Moment × Bytes))
    (hts : ∀ i ∈ payloads, ∀ x, i.1.takes p.conn x = true) (hok : s.AcceptsAll payloads) :
    let handshake : Moment × Input := (m, .frame p.conn bytes)
    let numbers := Int.range s.outbox.next (s.outbox.next + payloads.length)
    s.grantsIn (sends payloads ++ [handshake]) = numbers ∧
      s.grantsIn (handshake :: sends payloads) = numbers ∧
      Alike (s.run (sends payloads ++ [handshake])) (s.run (handshake :: sends payloads)) := by
  intro handshake numbers
  have hs := h.sound.1
  have hfirst : s.grantsIn (sends payloads ++ [handshake]) = s.grantsIn (sends payloads) := by
    rw [grantsIn_append]
    exact List.append_nil _
  have hstep := hs.step m handshake.2
  rw [show s.step m handshake.2 = _ from hs.step_completing hp ha hx ht] at hstep
  have hlater := hstep.grantsIn_sends (hs.acceptsAll_completed hp ha hn hts hok)
  have hnext : (s.completed p.conn x.acked).outbox.next = s.outbox.next :=
    Outbox.acknowledge_next ..
  refine ⟨hfirst.trans (hs.grantsIn_sends hok), ?_, hs.alike_deferred hp ha hx hn ht hts hok⟩
  rw [hnext] at hlater
  rw [grantsIn, show s.step m handshake.2 = _ from hs.step_completing hp ha hx ht]
  exact hlater

/-- The first connection of a server is lost after two payloads, and the second one is pending. -/
def interrupted (m : Moment) : List (Moment × Input) :=
  [(m, .connect), (m, .frame 0 (Message.handshake (.ofNat 1) 0 noSequence).encode),
    (m, .trySend [1]), (m, .trySend [2]), (m, .disconnected 0 false), (m, .connect)]

/-- Two more payloads fill the window, and then the client acknowledges the first one. Both ways the
three others go out after the server agreed to the handshake. -/
theorem deferring_unobservable_interrupted :
    let m : Moment := ⟨0, fun _ _ => true⟩
    let config : Config := { sendWindow := 4, maxDelayedAcks := 2 }
    let s := ((start .server (.ofNat 1) config 0).run (interrupted m)).1
    let handshake := (m, .frame 1 (Message.handshake (.ofNat 1) 1 0).encode)
    let late := s.run (handshake :: sends [(m, [3]), (m, [4])])
    s.pending = some ⟨1, 5000⟩ ∧ s.lifecycle.phase = .restoring ∧
      s.grantsIn (handshake :: sends [(m, [3]), (m, [4])]) = [2, 3] ∧
      Alike (s.run (sends [(m, [3]), (m, [4])] ++ [handshake])) late ∧
      (Effect.transmitted late.2).map (·.message.kind) = [.handshakeOk, .send, .send, .send] ∧
      (Effect.transmitted late.2).map (·.message.seq) = [noSequence, 1, 2, 3] := by
  intro m config s handshake late
  have h : s.Reachable := ⟨.server, .ofNat 1, config, 0, _, _, rfl, rfl⟩
  have hp : s.pending = some ⟨1, 5000⟩ := by decide +kernel
  have ha : s.active = none := by decide +kernel
  have hnext : s.outbox.next = 2 := by decide +kernel
  have hx : s.Completing (Message.handshake (.ofNat 1) 1 0).encode (.handshake (.ofNat 1) 1 0) :=
    ⟨Message.decode_encode ⟨by decide, .inr ⟨nofun, rfl⟩⟩ ⟨by decide, by decide⟩,
      by decide +kernel, by decide +kernel⟩
  have hn : (Message.handshake (.ofNat 1) 1 0).acked < s.outbox.next := by decide +kernel
  have hok : s.AcceptsAll [(m, [3]), (m, [4])] :=
    ⟨⟨2, by decide +kernel⟩, ⟨3, by decide +kernel⟩, trivial⟩
  obtain ⟨-, hgrants, halike⟩ := deferring_unobservable (m := m) h hp ha hx hn (fun _ => rfl)
    [(m, [3]), (m, [4])] (by simp [m]) hok
  rw [hnext] at hgrants
  exact ⟨hp, by decide +kernel, hgrants, halike, by decide +kernel, by decide +kernel⟩

end Session

end Tether
