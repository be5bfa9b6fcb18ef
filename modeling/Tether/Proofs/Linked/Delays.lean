import Tether.Proofs.Linked.Acks

/-!
# Delayed acknowledgements do not stall a sender

Where both sides have the same connection active, nothing was lost on it and nothing is
on the way, a side retains just what the peer holds back (`settled_unacknowledged`).
That is less than the peer's limit, so it does not fill a window that is greater; and if
both sides acknowledge what they hold back, nothing is retained any more.
-/

namespace Tether

/-! ### Windows -/

/-- A payload is refused for the window only if the window is full. -/
theorem Session.windowFull_of_trySend {s : Session} {m : Moment} {payload : Bytes}
    (h : (s.trySend m payload).answer = .error .windowFull) : s.outbox.WindowFull := by
  unfold trySend at h
  split at h
  · cases h
  · split at h
    · next r ha =>
      cases h
      unfold Outbox.accept Outbox.refusal? at ha
      split at ha
      · next hr =>
        cases ha
        split at hr
        · cases hr
        · split at hr
          · assumption
          · split at hr <;> cases hr
      · split at ha <;> cases ha
    · cases h
    · split at h <;> cases h

/-- A window that is greater than what is retained is not full. -/
theorem Session.Coherent.not_windowFull {s : Session} (hs : s.Coherent)
    (h : s.config.sendWindow ≤ 0 ∨ s.outbox.retained.size < s.config.sendWindow) :
    ¬ s.outbox.WindowFull := by
  rintro ⟨w, hw, hle⟩
  rw [hs.serves.window, Config.window] at hw
  split at hw
  · cases hw
  · cases hw
    omega

namespace Linked

variable {f g : Linked} {id : SessionId} {i : Nat}

/-! ### What is retained -/

/-- What a side noted as acknowledged is processed, once nothing is on the way. -/
theorem Prompt.settled (h : f.Prompt) (hi : f.Settled i)
    (hl : (f.links i).LatestFor .client (f.session .client)) (side : Role) :
    (f.session side).outbox.highestAck = (f.session side.other).inbox.acked := by
  have hclient := hi.clear .client
  have hserver := hi.clear .server
  cases side with
  | client =>
    have hack := (h i).server (hi.joined .server) (.inl (hi.joined .client)) hclient.1
    rw [hclient.2] at hack
    exact hack.resolve_right nofun
  | server =>
    have hack := (h i).client (hi.joined .client) (hi.joined .server) hclient.1 hserver.1 hl
    rw [hclient.2, hserver.2] at hack
    exact (hack.resolve_right nofun).resolve_right nofun

/-- A side retains what the peer received and holds back. -/
theorem settled_unacknowledged (h : f.Reachable) (hi : f.Settled i)
    (hl : (f.links i).LatestFor .client (f.session .client)) (side : Role) :
    ((f.session side).outbox.retained.size : Int) =
      (f.session side.other).inbox.received - (f.session side.other).inbox.acked := by
  obtain ⟨ho, hp, id, hw⟩ := h.prompt
  have hsize := (hw.agree.sound side).coherent.outbox.size
  have hack := hp.settled hi hl side
  have hreceived := ho.settled_received hw hi side.other
  rw [Role.other_other] at hreceived
  simp only [session] at hsize hack hreceived ⊢
  omega

/-! ### Acknowledging all of it -/

/-- The event makes a side acknowledge what it holds back, or something arrives on the
connection. -/
inductive Event.Drains (i : Nat) : Event → Prop where
  | flush (side : Role) (m : Moment) (own : Session.Input.flush.Own) :
    Drains i (.act side m .flush own)
  | deliver (side : Role) (m : Moment) : Drains i (.deliver side m i)

/-- Since `f` nothing was received, and only acknowledgements are on the way. -/
structure Calm (f g : Linked) (i : Nat) : Prop where
  conn : (g.links i).conn = (f.links i).conn
  active : ∀ r, (g.session r).active = (f.session r).active
  nextConnection : ∀ r, (g.session r).nextConnection = (f.session r).nextConnection
  received : ∀ r, (g.session r).inbox.received = (f.session r).inbox.received
  acks : ∀ r, ∀ x ∈ ((g.links i).lane r).queue, x.kind = .ack

end Linked

/-- What a session that has a connection does to acknowledge what it holds back. -/
theorem Session.Coherent.flush_cases {s : Session} (hs : s.Coherent) {c : ConnectionId}
    (hc : s.active = some c) (m : Moment) :
    (s.inbox.acked = s.inbox.received ∧ s.flush m = (s, [])) ∨
      s.flush m = ({ s with inbox := s.inbox.flush }, s.sendAck m s.inbox.received) := by
  have hp : s.lifecycle.phase = .connected := hs.phase.mpr (by rw [hc]; rfl)
  have hle := hs.inbox.acked_le
  rw [Session.flush, if_pos hp]
  split
  · next n hn =>
    obtain ⟨-, rfl⟩ := Inbox.heldBack_eq_some.mp hn
    exact .inr rfl
  · next hn =>
    refine .inl ⟨?_, rfl⟩
    unfold Inbox.heldBack at hn
    split at hn
    · cases hn
    · omega

/-- An acknowledgement on the active connection changes the outbox only. -/
theorem Session.Hears.of_ack {m : Moment} {s s' : Session} {c : ConnectionId} {x : Message}
    {t : List Transmission} {d : List Bytes} (h : s.Hears m c x s' t d) (hc : s.active = some c)
    (hk : x.kind = .ack) : t = [] ∧ s'.inbox = s.inbox ∧ s'.active = s.active ∧
      s'.nextConnection = s.nextConnection := by
  cases h with
  | ignored _ ho => exact (ho hc (.inr (.inl hk))).elim
  | completed lifecycle waiting _ hk' =>
    rw [hk] at hk'
    cases hr : s.role <;> rw [hr] at hk' <;> cases hk'
  | held waiting _ hk' | answered waiting _ hk' | repeated waiting _ hk' | left waiting _ _ hk' =>
    rw [hk] at hk'
    cases hk'
  | acked => exact ⟨rfl, rfl, rfl, rfl⟩

namespace Linked

variable {f g : Linked} {id : SessionId} {i : Nat}

theorem Calm.refl (hi : f.Settled i) : f.Calm f i where
  conn := rfl
  active := fun _ => rfl
  nextConnection := fun _ => rfl
  received := fun _ => rfl
  acks := fun r x hx => by rw [(hi.clear r).2] at hx; cases hx

/-- A side that hands on only acknowledgements, and takes in no payload, keeps calm. -/
theorem Calm.settle (h : f.Calm g i) {links : Nat → Link} {side : Role} {p : Peer}
    {t : List Transmission} (ha : p.session.active = (g.session side).active)
    (hn : p.session.nextConnection = (g.session side).nextConnection)
    (hr : p.session.inbox.received = (g.session side).inbox.received)
    (hc : (links i).conn = (g.links i).conn)
    (hl : ∀ r, ∀ x ∈ ((links i).lane r).queue, x.kind = .ack)
    (ht : ∀ τ ∈ t, τ.message.kind = .ack) :
    f.Calm (({ g with links } : Linked).settle side p t) i where
  conn := hc.trans h.conn
  active := fun r => by
    rcases Role.eq_or_eq_other side r with rfl | rfl
    · rw [settle_session, ha, h.active]
    · rw [settle_session_other]
      exact h.active _
  nextConnection := fun r => by
    rcases Role.eq_or_eq_other side r with rfl | rfl
    · rw [settle_session, hn, h.nextConnection]
    · rw [settle_session_other]
      exact h.nextConnection _
  received := fun r => by
    rcases Role.eq_or_eq_other side r with rfl | rfl
    · rw [settle_session, hr, h.received]
    · rw [settle_session_other]
      exact h.received _
  acks := fun r x hx => by
    rcases Link.mem_carry hx with hx | ⟨-, τ, hτ, rfl⟩
    · exact hl r x hx
    · exact ht τ hτ

theorem Calm.joined (h : f.Calm g i) (hj : f.Joined i) (r : Role) :
    ∃ c, (g.links i).conn r = some c ∧ (g.session r).active = some c := by
  rw [h.conn, h.active]
  exact hj r

/-- Acknowledging what is held back keeps calm, and then nothing is held back. -/
theorem Calm.flush (h : f.Calm g i) (hw : g.Wired id) (hj : f.Joined i) (side : Role) (m : Moment)
    (own : Session.Input.flush.Own) : f.Calm (g.step (.act side m .flush own)) i ∧
      ((g.step (.act side m .flush own)).session side).inbox.acked =
        (g.session side).inbox.received := by
  obtain ⟨c, hc, ha⟩ := h.joined hj side
  have hs := (hw.agree.sound side).coherent
  have hacked : ((g.step (.act side m .flush own)).session side).inbox =
      ((g.session side).flush m).1.inbox := congrArg Session.inbox (settle_session _)
  rw [hacked]
  rcases hs.flush_cases ha m with ⟨heq, hflush⟩ | hflush
  · have hsession : ((g.peers side).act m .flush).session = g.session side := congrArg Prod.fst hflush
    have hnone : Effect.transmitted ((g.session side).step m .flush).2 = [] :=
      congrArg (Effect.transmitted ·.2) hflush
    refine ⟨h.settle ?_ ?_ ?_ rfl h.acks ?_, ?_⟩
    · rw [hsession]
    · rw [hsession]
    · rw [hsession]
    · rw [hnone]
      exact List.forall_mem_nil _
    · rw [show (g.session side).flush m = _ from hflush]
      exact heq
  · have hsession : ((g.peers side).act m .flush).session =
        { g.session side with inbox := (g.session side).inbox.flush } := congrArg Prod.fst hflush
    have hsaid : Effect.transmitted ((g.session side).step m .flush).2 =
        [Session.handing m c (.ack (g.session side).id (g.session side).inbox.received)] :=
      (congrArg (Effect.transmitted ·.2) hflush).trans (Session.transmitted_sendAck ha m _)
    refine ⟨h.settle ?_ ?_ ?_ rfl h.acks ?_, ?_⟩
    · rw [hsession]
    · rw [hsession]
    · rw [hsession]
      rfl
    · rw [hsaid]
      exact List.forall_mem_singleton.mpr rfl
    · rw [show (g.session side).flush m = _ from hflush]
      rfl

/-- An acknowledgement that arrives keeps calm. -/
theorem Calm.deliver (h : f.Calm g i) (hw : g.Wired id) (hj : f.Joined i) (side : Role)
    (m : Moment) : f.Calm (g.step (.deliver side m i)) i := by
  obtain ⟨c, hc, ha⟩ := h.joined hj side
  rcases hw.deliver_cases side m i with heq | ⟨c', x, rest, s', t, d, hc', hq, hears, heq⟩ <;> rw [heq]
  · exact h
  cases hc.symm.trans hc'
  obtain ⟨rfl, hinbox, hactive, hnext⟩ :=
    hears.of_ack ha (h.acks side x (by rw [hq]; exact List.mem_cons_self))
  refine h.settle hactive hnext (congrArg Inbox.received hinbox) ?_ (fun r y hy => ?_)
    (List.forall_mem_nil _)
  · rw [Function.update_self]
    rfl
  · rw [Function.update_self] at hy
    exact h.acks r y ((g.links i).pop_subset side r hy)

theorem Calm.step (h : f.Calm g i) (hw : g.Wired id) (hj : f.Joined i) {e : Event}
    (he : e.Drains i) : f.Calm (g.step e) i := by
  cases he with
  | flush side m own => exact (h.flush hw hj side m own).1
  | deliver side m => exact h.deliver hw hj side m

/-- A run of such events keeps calm, and a side that acknowledged what it held back holds
nothing back afterwards. -/
theorem Calm.run (h : f.Calm g i) (hw : g.Wired id) (hj : f.Joined i) {events : List Event}
    (he : ∀ e ∈ events, e.Drains i) : f.Calm (g.run events) i ∧ (g.run events).Wired id ∧
      ∀ r, ((g.session r).inbox.acked = (f.session r).inbox.received ∨
        ∃ m own, .act r m .flush own ∈ events) →
          ((g.run events).session r).inbox.acked = (f.session r).inbox.received := by
  induction events generalizing g with
  | nil => exact ⟨h, hw, fun r hr => hr.resolve_right fun ⟨_, _, hmem⟩ => by cases hmem⟩
  | cons e events ih =>
    obtain ⟨hhead, htail⟩ := List.forall_mem_cons.mp he
    have hstep := h.step hw hj hhead
    obtain ⟨hcalm, hwired, hdone⟩ := ih hstep (hw.step e) htail
    refine ⟨hcalm, hwired, fun r hr => hdone r ?_⟩
    rcases hr with hr | ⟨m, own, hmem⟩
    · have hle := ((hw.step e).agree.sound r).coherent.inbox.acked_le
      have hmono := hw.acked_step e r
      have hreceived := hstep.received r
      simp only [session] at hr hle hmono hreceived ⊢
      exact .inl (by omega)
    · rcases List.mem_cons.mp hmem with rfl | hmem
      · exact .inl ((h.flush hw hj r m own).2.trans (h.received r))
      · exact .inr ⟨m, own, hmem⟩

/-- Once both sides acknowledged what they held back and the acknowledgements arrived,
nothing is retained. -/
theorem retained_of_drained (h : f.Reachable) (hi : f.Settled i)
    (hl : (f.links i).LatestFor .client (f.session .client)) {events : List Event}
    (he : ∀ e ∈ events, e.Drains i) (hflush : ∀ side, ∃ m own, .act side m .flush own ∈ events)
    (hclear : ∀ side, (((f.run events).links i).lane side).Clear) (side : Role) :
    ((f.run events).session side).outbox.retained = #[] := by
  obtain ⟨-, id, hw⟩ := h.orderly
  obtain ⟨hcalm, -, hdone⟩ := (Calm.refl hi).run hw hi.joined he
  have hi' : (f.run events).Settled i := ⟨hcalm.joined hi.joined, hclear⟩
  have hl' : ((f.run events).links i).LatestFor .client ((f.run events).session .client) := by
    obtain ⟨c, hc, hn⟩ := hl
    exact ⟨c, hcalm.conn ▸ hc, (hcalm.nextConnection .client).trans hn⟩
  have hsize := settled_unacknowledged (h.run events) hi' hl' side
  have hacked := hdone side.other (.inr (hflush side.other))
  have hreceived := hcalm.received side.other
  rw [hacked, hreceived, sub_self] at hsize
  exact Array.size_eq_zero_iff.mp (by omega)

/-- **Delayed acknowledgements never stall a sender.** Where both sides have the same
connection active, the client opened no other one, nothing was lost on it and nothing is
on the way, a side retains just what the peer received and holds back. That is less than
the peer's limit, and does not fill a window that is greater than the limit. Once both
sides acknowledge what they hold back, and these acknowledgements arrive, nothing is
retained. -/
theorem delayed_acks_never_stall (h : f.Reachable) (hi : f.Settled i)
    (hl : (f.links i).LatestFor .client (f.session .client)) :
    (∀ side, ((f.session side).outbox.retained.size : Int) =
        (f.session side.other).inbox.received - (f.session side.other).inbox.acked ∧
      (f.session side).outbox.retained.size ≤ (f.session side.other).config.maxDelayedAcks - 1 ∧
      ((f.session side).config.sendWindow ≤ 0 ∨
          (f.session side.other).config.maxDelayedAcks < (f.session side).config.sendWindow →
        ∀ m payload, ((f.session side).trySend m payload).answer ≠ .error .windowFull)) ∧
      ∀ events : List Event, (∀ e ∈ events, e.Drains i) →
        (∀ side, ∃ m own, .act side m .flush own ∈ events) →
          (∀ side, (((f.run events).links i).lane side).Clear) →
            ∀ side, ((f.run events).session side).outbox.retained = #[] := by
  obtain ⟨-, id, hw⟩ := h.orderly
  refine ⟨fun side => ?_, fun events he hflush hclear => retained_of_drained h hi hl he hflush hclear⟩
  have hsize := settled_unacknowledged h hi hl side
  have hheld : (f.session side.other).inbox.received - (f.session side.other).inbox.acked <
      (f.session side.other).config.maxDelayedAcks :=
    (hw.agree.sound side.other).coherent.inbox.held
  have hless : ((f.session side).outbox.retained.size : Int) <
      (f.session side.other).config.maxDelayedAcks := by omega
  refine ⟨hsize, by omega, fun hwindow m payload hrefused => ?_⟩
  refine (hw.agree.sound side).coherent.not_windowFull ?_ (Session.windowFull_of_trySend hrefused)
  exact hwindow.imp_right hless.trans

/-- A payload arrives, and its acknowledgement is held back. -/
def delay (m : Moment) : List Event :=
  [.connect .client m 0, .connect .server m 0, .deliver .server m 0, .deliver .client m 0,
    .act .client m (.trySend [7]) trivial, .deliver .server m 0]

/-- Both sides acknowledge what they hold back, and the acknowledgements arrive. -/
def drain (m : Moment) : List Event :=
  [.act .server m .flush trivial, .act .client m .flush trivial, .deliver .client m 0,
    .deliver .server m 0]

/-- The client retains the payload until the acknowledgement arrives, and may send on. -/
theorem delayed_acks_never_stall_delay :
    let id := SessionId.ofNat 1
    let m : Moment := ⟨0, fun _ _ => true⟩
    let f := (begin (.start .client id {} 0) (.start .server id {} 0)).run (delay m)
    f.Reachable ∧ f.Settled 0 ∧ (f.links 0).LatestFor .client (f.session .client) ∧
      ((f.session .client).outbox.retained.size : Int) =
        (f.session .server).inbox.received - (f.session .server).inbox.acked ∧
      (f.session .client).outbox.retained.size = 1 ∧
      ((f.session .client).trySend m [8]).answer ≠ .error .windowFull ∧
      ((f.run (drain m)).session .client).outbox.retained = #[] := by
  intro id m f
  have hf : f.Reachable := ⟨id, {}, {}, 0, 0, _, _, _, rfl, rfl, rfl⟩
  have hi : f.Settled 0 := {
    joined := fun side => ⟨0, by cases side <;> decide +kernel⟩
    clear := fun side => by cases side <;> exact ⟨by decide +kernel, by decide +kernel⟩ }
  have hl : (f.links 0).LatestFor .client (f.session .client) :=
    ⟨0, by decide +kernel, by decide +kernel⟩
  have hlarge : (f.session .server).config.maxDelayedAcks < (f.session .client).config.sendWindow := by
    decide +kernel
  have hone : (f.session .client).outbox.retained.size = 1 := by decide +kernel
  have hclear : ∀ side, (((f.run (drain m)).links 0).lane side).Clear := fun side => by
    cases side <;> exact ⟨by decide +kernel, by decide +kernel⟩
  clear_value f
  obtain ⟨hsides, hdrain⟩ := delayed_acks_never_stall hf hi hl
  obtain ⟨hsize, -, hroom⟩ := hsides .client
  refine ⟨hf, hi, hl, hsize, hone, hroom (.inr hlarge) m [8],
    hdrain (drain m) (fun e he => ?_) (fun side => ?_) hclear .client⟩
  · simp only [drain, List.mem_cons, List.not_mem_nil, or_false] at he
    rcases he with rfl | rfl | rfl | rfl
    · exact .flush .server m trivial
    · exact .flush .client m trivial
    · exact .deliver .client m
    · exact .deliver .server m
  · cases side <;> exact ⟨m, trivial, by simp [drain]⟩

end Linked

end Tether
