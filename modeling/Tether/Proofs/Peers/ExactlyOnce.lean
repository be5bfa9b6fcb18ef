import Tether.Proofs.Peers.Basic

/-!
# Exactly once

Whatever is lost, repeated or late between two sides of a session, each side delivers
exactly the first payloads that the other accepted, in order and each once, and no
payload is retired before it was delivered (`exactly_once`).

The invariant has two parts. Of one side alone, what it said is true (`Sound`): a
payload in a message is the one that was accepted under its number. Of both sides
together, each is acknowledged no further than it was received (`Agree`).
-/

namespace Tether

/-! ### One side -/

namespace Peer

/-- The payload is the one that was accepted under the number. -/
def Holds (p : Peer) (r : Retained) : Prop := 0 ≤ r.seq ∧ p.accepted[r.seq.toNat]? = some r.payload

/-- What the message says is true of the side. -/
structure Says (p : Peer) (x : Message) : Prop where
  session : x.session = p.session.id
  low : noSequence ≤ x.acked
  acked : x.acked ≤ p.session.inbox.acked
  body : (x.kind = .send ∧ p.Holds ⟨x.seq, x.payload⟩) ∨ (x.kind ≠ .send ∧ x.payload = [])

/-- A message that says something true means something. -/
theorem Says.wellFormed {p : Peer} {x : Message} (h : p.Says x) : x.WellFormed where
  acked := h.low
  body := h.body.imp (fun h => ⟨h.1, h.2.1⟩) id

/-- **What a side retains and what it said is true.** -/
structure Sound (p : Peer) (id : SessionId) (role : Role) : Prop where
  id : p.session.id = id
  role : p.session.role = role
  coherent : p.session.Coherent
  numbered : p.session.outbox.next = p.accepted.length
  retained : ∀ r ∈ p.session.outbox.retained.toList, p.Holds r
  truthful : ∀ x ∈ p.handed, p.Says x

variable {p : Peer} {id : SessionId} {role : Role} {s' : Session} {t : List Transmission}
  {a d : List Bytes}

/-- A side starts with nothing said. -/
theorem Sound.create {config : Config} {now : Nat} {s : Session}
    (h : Session.create role id config now = .ok s) : ({ session := s } : Peer).Sound id role := by
  have hs := Session.Coherent.start h
  unfold Session.create at h
  split at h
  · cases h
  · cases h
    exact ⟨rfl, rfl, hs, rfl, List.forall_mem_nil _, List.forall_mem_nil _⟩

theorem Holds.after {r : Retained} (h : p.Holds r) : (p.after s' t a d).Holds r := by
  refine ⟨h.1, ?_⟩
  obtain ⟨hlt, -⟩ := List.getElem?_eq_some_iff.mp h.2
  show (p.accepted ++ a)[r.seq.toNat]? = some r.payload
  rw [List.getElem?_append_left hlt]
  exact h.2

/-- What is true of a side stays true when its session goes on. -/
theorem Sound.after (hp : p.Sound id role) (hs : s'.Coherent) (hg : p.session.Progress s' a)
    (ht : ∀ τ ∈ t, s'.Tells τ.message) : (p.after s' t a d).Sound id role := by
  have hretained : ∀ r ∈ s'.outbox.retained.toList, (p.after s' t a d).Holds r := by
    intro r hr
    rcases hg.retained r hr with hr | ⟨hseq, rfl⟩
    · exact (hp.retained r hr).after
    · have hn := hp.numbered
      refine ⟨by omega, ?_⟩
      have hidx : r.seq.toNat = p.accepted.length := by omega
      simp [Peer.after, hidx]
  exact {
    id := hg.id.trans hp.id
    role := hg.role.trans hp.role
    coherent := hs
    numbered := by
      have hn := hp.numbered
      have hnext := hg.next
      simp only [Peer.after, List.length_append]
      omega
    retained := hretained
    truthful := by
      intro x hx
      rcases List.mem_append.mp hx with hx | hx
      · have hsays := hp.truthful x hx
        exact {
          session := hsays.session.trans hg.id.symm
          low := hsays.low
          acked := hsays.acked.trans hg.acked
          body := hsays.body.imp (fun h => ⟨h.1, h.2.after⟩) (fun h => h) }
      · obtain ⟨τ, hτ, rfl⟩ := List.mem_map.mp hx
        have htells := ht τ hτ
        exact {
          session := htells.session
          low := htells.low
          acked := htells.acked
          body := htells.body.imp (fun h => ⟨h.1, hretained _ h.2⟩) (fun h => h) } }

end Peer

/-! ### Both sides -/

namespace Peers

/-- What one side received is what the other one accepted, and what that one takes for
received was received. -/
structure Agreement (sender receiver : Peer) : Prop where
  delivered : receiver.delivered =
    sender.accepted.take (receiver.session.inbox.received + 1).toNat
  behind : receiver.session.inbox.received < sender.session.outbox.next
  acked : sender.session.outbox.highestAck ≤ receiver.session.inbox.acked

/-- **The two sides agree.** -/
structure Agree (ps : Peers) (id : SessionId) : Prop where
  sound : ∀ r, (ps r).Sound id r
  agreement : ∀ r : Role, Agreement (ps r.other) (ps r)

variable {ps : Peers} {id : SessionId} {side : Role} {m : Moment} {s' : Session}
  {t : List Transmission} {a d : List Bytes}

/-- What the other side received is what a side accepted. -/
theorem Agree.agreement_other (h : ps.Agree id) (side : Role) :
    Agreement (ps side) (ps side.other) := by
  have hside := h.agreement side.other
  rwa [Role.other_other] at hside

/-- The sides agree before anything happened. -/
theorem Agree.begin {config config' : Config} {now now' : Nat} {client server : Session}
    (hc : Session.create .client id config now = .ok client)
    (hs : Session.create .server id config' now' = .ok server) :
    (Peers.begin client server).Agree id := by
  have hnew : ∀ {role : Role} {config : Config} {now : Nat} {s : Session},
      Session.create role id config now = .ok s →
        s.inbox = {} ∧ s.outbox.next = 0 ∧ s.outbox.highestAck = noSequence := by
    intro role config now s h
    unfold Session.create at h
    split at h <;> cases h
    exact ⟨rfl, rfl, rfl⟩
  obtain ⟨hc₁, hc₂, hc₃⟩ := hnew hc
  obtain ⟨hs₁, hs₂, hs₃⟩ := hnew hs
  refine ⟨fun r => ?_, fun r => ?_⟩
  · cases r with
    | client => exact .create hc
    | server => exact .create hs
  · cases r with
    | client => exact ⟨List.take_nil.symm, by simp [Peers.begin, Role.other, hc₁, hs₂, noSequence],
        by simp [Peers.begin, Role.other, hc₁, hs₃]⟩
    | server => exact ⟨List.take_nil.symm, by simp [Peers.begin, Role.other, hs₁, hc₂, noSequence],
        by simp [Peers.begin, Role.other, hs₁, hc₃]⟩

/-- One side goes on. What it received is to agree with what the other side accepted,
and what it takes for received with what the other side received. -/
theorem Agree.after (h : ps.Agree id) (hs : s'.Coherent) (hg : (ps side).session.Progress s' a)
    (ht : ∀ τ ∈ t, s'.Tells τ.message) (hd : Agreement (ps side.other) ((ps side).after s' t a d))
    (ha : s'.outbox.highestAck ≤ (ps side.other).session.inbox.acked) :
    Agree (Function.update ps side ((ps side).after s' t a d)) id := by
  have hside := h.agreement_other side
  refine ⟨fun r => ?_, fun r => ?_⟩
  · rcases Role.eq_or_eq_other side r with rfl | rfl
    · rw [Function.update_self]
      exact (h.sound _).after hs hg ht
    · rw [Function.update_of_ne side.other_ne]
      exact h.sound _
  · rcases Role.eq_or_eq_other side r with rfl | rfl
    · rw [Function.update_self, Function.update_of_ne (Role.other_ne _)]
      exact hd
    · rw [Role.other_other, Function.update_self, Function.update_of_ne side.other_ne]
      have hn := (h.sound side).numbered
      have hnext := hg.next
      have hbehind := hside.behind
      refine ⟨?_, ?_, ha⟩
      · rw [hside.delivered]
        exact (List.take_append_of_le_length (by omega)).symm
      · show (ps side.other).session.inbox.received < s'.outbox.next
        omega

/-! ### Acting -/

/-- A side that receives nothing keeps its agreement. -/
theorem Agree.agreement_after (h : ps.Agree id) (hg : (ps side).session.Progress s' a)
    (hr : s'.inbox.received = (ps side).session.inbox.received) :
    Agreement (ps side.other) ((ps side).after s' t a []) := by
  have hside := h.agreement side
  refine ⟨?_, ?_, hside.acked.trans hg.acked⟩
  · show (ps side).delivered ++ [] = _
    rw [List.append_nil, hside.delivered, Peer.after_session, hr]
  · rw [Peer.after_session, hr]
    exact hside.behind

/-- A side goes on without hearing anything. -/
theorem Agree.unheard (h : ps.Agree id) (hs : s'.Coherent) (hg : (ps side).session.Progress s' a)
    (ht : ∀ τ ∈ t, s'.Tells τ.message)
    (hsame : s'.inbox.received = (ps side).session.inbox.received ∧
      s'.outbox.highestAck = (ps side).session.outbox.highestAck) :
    Agree (Function.update ps side ((ps side).after s' t a [])) id := by
  refine h.after hs hg ht (h.agreement_after hg hsame.1) ?_
  rw [hsame.2]
  exact (h.agreement_other side).acked

theorem Agree.move (h : ps.Agree id) (hm : (ps side).session.Move m s' t a) :
    Agree (Function.update ps side ((ps side).after s' t a [])) id := by
  have hs := (h.sound side).coherent
  refine h.unheard (hm.coherent hs) (hm.progress hs) (hm.tells hs) ?_
  cases hm <;> exact ⟨rfl, rfl⟩

theorem Agree.moves (h : ps.Agree id) {s : Session} (hs : (ps side).session = s)
    (hm : s.Moves m s' t a) : Agree (Function.update ps side ((ps side).after s' t a [])) id := by
  induction hm generalizing ps with
  | nil s =>
    subst hs
    rw [Peer.after_self, Function.update_eq_self]
    exact h
  | cons hone _ ih =>
    subst hs
    have hrest := ih (h.move hone) (by rw [Function.update_self, Peer.after_session])
    rw [Function.update_self, Peer.after_after, Function.update_idem] at hrest
    exact hrest

/-- A new connection. -/
theorem Agree.opens (h : ps.Agree id) (ho : (ps side).session.Opens m s' t) :
    Agree (Function.update ps side ((ps side).after s' t [] [])) id := by
  have hs := (h.sound side).coherent
  refine h.unheard (ho.coherent hs) (ho.progress hs) (ho.tells hs) ?_
  cases ho <;> exact ⟨rfl, rfl⟩

theorem Agree.act (h : ps.Agree id) (m : Moment) {input : Session.Input} (hi : input.Local) :
    Agree (Function.update ps side ((ps side).act m input)) id := by
  have hs := (h.sound side).coherent
  rcases hi.cases with rfl | hi
  · obtain ⟨ho, hnone⟩ := Session.opens_connect m (ps side).session
    simp only [Peer.act, Session.step, Session.accepted, hnone]
    exact h.opens ho
  · obtain ⟨hmoves, hnone⟩ := hs.step_moves m hi
    simp only [Peer.act, hnone]
    exact h.moves rfl hmoves

/-! ### Hearing -/

/-- What a message acknowledges was received. -/
theorem Agree.acknowledge_le (h : ps.Agree id) {x : Message} (hx : (ps side.other).Says x) :
    ((ps side).session.outbox.acknowledge x.acked).2.highestAck ≤
      (ps side.other).session.inbox.acked := by
  have hside := h.agreement_other side
  have hle := (h.sound side.other).coherent.inbox.acked_le
  have hbehind := hside.behind
  have hacked := hx.acked
  rw [Outbox.acknowledge_highestAck (by omega)]
  exact max_le hside.acked hacked

theorem Agree.hears (h : ps.Agree id) {c : ConnectionId} {x : Message}
    (hx : (ps side.other).Says x) (hh : (ps side).session.Hears m c x s' t d) :
    Agree (Function.update ps side ((ps side).after s' t [] d)) id := by
  have hs := (h.sound side).coherent
  have hside := h.agreement side
  have hg := hh.progress hs
  have hack := h.acknowledge_le hx
  have hkeep : s'.outbox.highestAck = (ps side).session.outbox.highestAck ∨
      s'.outbox.highestAck = ((ps side).session.outbox.acknowledge x.acked).2.highestAck := by
    cases hh with
    | ignored | left => exact .inl rfl
    | _ => exact .inr rfl
  have hnext : (d = [] ∧ s'.inbox.received = (ps side).session.inbox.received) ∨
      (d = [x.payload] ∧ x.kind = .send ∧ x.seq = (ps side).session.inbox.received + 1 ∧
        s'.inbox.received = x.seq) := by
    cases hh with
    | held waiting hc hk hn hd => exact .inr ⟨rfl, hk, hn, rfl⟩
    | answered waiting hc hk hn => exact .inr ⟨rfl, hk, hn, rfl⟩
    | _ => exact .inl ⟨rfl, rfl⟩
  refine h.after (hh.coherent hs) hg (hh.tells hs) ?_ ?_
  · rcases hnext with ⟨rfl, hr⟩ | ⟨rfl, hk, hn, hr⟩
    · exact h.agreement_after hg hr
    · obtain ⟨hpos, hpayload⟩ := (hx.body.resolve_right fun hb => hb.1 hk).2
      have hnumbered := (h.sound side.other).numbered
      obtain ⟨hlt, hget⟩ := List.getElem?_eq_some_iff.mp hpayload
      simp only at hpos hlt hget
      have hlow := hs.inbox.low.trans hs.inbox.acked_le
      simp only [noSequence] at hlow
      have hsucc : (x.seq + 1).toNat = x.seq.toNat + 1 := by omega
      have hprev : ((ps side).session.inbox.received + 1).toNat = x.seq.toNat := by omega
      refine ⟨?_, ?_, hside.acked.trans hg.acked⟩
      · show (ps side).delivered ++ [x.payload] = _
        rw [hside.delivered, Peer.after_session, hr, hsucc, hprev, ← hget,
          List.take_append_getElem]
      · rw [Peer.after_session, hr]
        omega
  · rcases hkeep with hkeep | hkeep
    · rw [hkeep]
      exact (h.agreement_other side).acked
    · rw [hkeep]
      exact hack

/-- The frame of a true message is read back, and its message is heard. -/
theorem Agree.receive (h : ps.Agree id) (m : Moment) (conn : ConnectionId) {x : Message}
    (hx : x ∈ (ps side.other).handed) (hr : x.Representable) :
    let o := (ps side).session.receive m conn x.encode
    (ps side).session.Hears m conn x o.session (Effect.transmitted o.effects)
      (Effect.delivered o.effects) := by
  have hsays := (h.sound side.other).truthful x hx
  have hid : x.session = (ps side).session.id :=
    hsays.session.trans ((h.sound side.other).id.trans (h.sound side).id.symm)
  intro o
  have ho : o = (ps side).session.receiveMessage m conn x := by
    simp only [o, Session.receive, Message.decode_encode hsays.wellFormed hr]
  rw [ho]
  exact (h.sound side).coherent.receiveMessage m conn hid

theorem Agree.hear (h : ps.Agree id) (m : Moment) (conn : ConnectionId) {x : Message}
    (hx : x ∈ (ps side.other).handed) (hr : x.Representable) :
    Agree (Function.update ps side ((ps side).hear m conn x)) id :=
  h.hears ((h.sound side.other).truthful x hx) (h.receive m conn hx hr)

/-! ### Every run -/

theorem Agree.step (h : ps.Agree id) (e : Event) : (ps.step e).Agree id := by
  cases e with
  | act side m input own => exact h.act m own
  | relay side m conn x =>
    by_cases hx : x ∈ (ps side.other).handed ∧ x.Representable
    · rw [Peers.step, if_pos hx]
      exact h.hear m conn hx.1 hx.2
    · rw [Peers.step, if_neg hx]
      exact h

theorem Reachable.agree (h : ps.Reachable) : ∃ id, ps.Agree id := by
  obtain ⟨id, _, _, _, _, client, server, events, hc, hs, rfl⟩ := h
  exact ⟨id, run_induction (P := (Agree · id)) (.begin hc hs) (fun _ e h => h.step e) events⟩

/-- What was accepted on one side came out on the other, exactly once and in order, and
what did not come out yet is retained. -/
structure ExactlyOnce (sender receiver : Peer) : Prop where
  /-- The first payloads that were accepted are delivered. -/
  order : receiver.delivered <+: sender.accepted
  /-- As many as were received are delivered. -/
  count : (receiver.delivered.length : Int) = receiver.session.inbox.received + 1
  /-- What was accepted and not received is retained. -/
  retained : ∀ (n : Nat) (payload : Bytes), sender.accepted[n]? = some payload →
    receiver.session.inbox.received < n → ⟨n, payload⟩ ∈ sender.session.outbox.retained.toList

/-- **Each side delivers exactly once what the other side accepted**, whatever is lost,
repeated, late or out of order, and nothing is retired before it is delivered. -/
theorem exactly_once (h : ps.Reachable) (side : Role) :
    ExactlyOnce (ps side.other) (ps side) := by
  obtain ⟨id, h⟩ := h.agree
  have hsender := h.sound side.other
  have hreceiver := (h.sound side).coherent.inbox
  obtain ⟨hdelivered, hbehind, hacked⟩ := h.agreement side
  have hlow := hreceiver.low.trans hreceiver.acked_le
  have hle := hreceiver.acked_le
  have hnumbered := hsender.numbered
  refine ⟨?_, ?_, fun n payload hn hlt => ?_⟩
  · rw [hdelivered]
    exact List.take_prefix _ _
  · rw [hdelivered, List.length_take, min_eq_left (by omega)]
    simp only [noSequence] at hlow
    omega
  · -- the number is among those that are retained, and only one payload has it
    obtain ⟨hlen, -⟩ := List.getElem?_eq_some_iff.mp hn
    have hmem : (n : Int) ∈ (ps side.other).session.outbox.sequences := by
      rw [hsender.coherent.outbox.sequences, Int.mem_range_iff]
      omega
    obtain ⟨r, hr, hseq⟩ := List.mem_map.mp hmem
    obtain ⟨-, hpayload⟩ := hsender.retained r hr
    rw [hseq, Int.toNat_natCast, hn] at hpayload
    cases hpayload
    rw [← hseq]
    exact hr

section
variable (id : SessionId) (m : Moment)

/-- A client sends a payload, and its frame comes twice. -/
def repetition : List Event :=
  [.act .client m .connect trivial, .act .server m .connect trivial,
    .relay .server m 0 (.handshake id 0 noSequence), .relay .client m 0 (.handshakeOk id noSequence),
    .act .client m (.trySend [7]) trivial, .relay .server m 0 (.send id 0 noSequence [7]),
    .relay .server m 0 (.send id 0 noSequence [7])]

end

/-- The payload of a frame that comes twice is delivered once. -/
theorem exactly_once_repetition :
    let id := SessionId.ofNat 1
    let ps := (begin (.start .client id {} 0) (.start .server id {} 0)).run
      (repetition id ⟨0, fun _ _ => true⟩)
    ps.Reachable ∧ ExactlyOnce (ps .client) (ps .server) ∧ (ps .server).delivered = [[7]] := by
  intro id ps
  have h : ps.Reachable := ⟨id, {}, {}, 0, 0, _, _, _, rfl, rfl, rfl⟩
  exact ⟨h, exactly_once h .server, by decide +kernel⟩

end Peers

end Tether
