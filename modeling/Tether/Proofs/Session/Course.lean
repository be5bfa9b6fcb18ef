import Tether.Proofs.Session.Hears

/-!
# The course of a session

What a session is told and tells leaves most of the time its standing as it is: its
lifecycle, its connections and the deadlines that are set. Whatever happens to a session
changes its standing in one of a few ways (`Change`, `Coherent.step_change`), and what the
layer above is told besides messages goes with that.
-/

namespace Tether

/-! ### What the layer above is told -/

/-- What the layer above a session is told. -/
inductive News where
  /-- A payload is delivered. -/
  | message (payload : Bytes)
  /-- The session was restored, or is over. -/
  | notice (notice : Notice)
  deriving DecidableEq

namespace Effect

/-- What the layer above is told by an effect, if it is told something. -/
def news? : Effect → Option News
  | deliver payload => some (.message payload)
  | notify n => some (.notice n)
  | transmit .. | close .. | sent .. => none

/-- What the layer above is told, in order. -/
def news (effects : List Effect) : List News := effects.filterMap news?

variable (e f : List Effect)

@[simp] theorem news_nil : news [] = [] := rfl
@[simp] theorem news_append : news (e ++ f) = news e ++ news f := List.filterMap_append
@[simp] theorem news_transmit (c : ConnectionId) (x : Message) (b : Bool) :
    news (.transmit c x b :: e) = news e := rfl
@[simp] theorem news_close (c : ConnectionId) (b : Bool) : news (.close c b :: e) = news e := rfl
@[simp] theorem news_deliver (p : Bytes) : news (.deliver p :: e) = .message p :: news e := rfl
@[simp] theorem news_notify (n : Notice) : news (.notify n :: e) = .notice n :: news e := rfl
@[simp] theorem news_sent (t : Nat) (r : Except Refusal Int) : news (.sent t r :: e) = news e := rfl

/-- Closing connections is no news. -/
@[simp] theorem news_close_map {α : Type} (o : List α) (conn : α → ConnectionId) (b : Bool) :
    news (o.map fun a => Effect.close (conn a) b) = [] := by
  induction o with
  | nil => rfl
  | cons a o ih => simpa using ih

end Effect

namespace Session

@[simp] theorem news_transmit (m : Moment) (c : ConnectionId) (x : Message) (e : List Effect) :
    Effect.news (transmit m c x :: e) = Effect.news e := rfl

@[simp] theorem news_sendAck (s : Session) (m : Moment) (n : Int) :
    Effect.news (s.sendAck m n) = [] := by
  unfold sendAck
  cases s.active <;> simp

@[simp] theorem news_transmitAll (m : Moment) (c : ConnectionId) (l : List Message) :
    Effect.news (transmitAll m c l) = [] := by
  induction l with
  | nil => rfl
  | cons x l ih =>
    unfold transmitAll
    split <;> simp [ih]

@[simp] theorem news_shutDown (s : Session) : Effect.news s.shutDown.2 = [] := by simp [shutDown]

end Session

/-! ### Standings -/

/-- **Where a session stands**: its life, its connections, and the deadlines that are set. -/
structure Standing where
  config : Config
  lifecycle : Lifecycle
  active : Option ConnectionId
  /-- Whether the outbox knows of a connection. -/
  connected : Bool
  pending : Option Pending
  windowEnd : Option WindowEnd
  nextConnection : ConnectionId
  handshakes : Nat
  terminated : Bool

/-- Where the session stands. -/
def Session.standing (s : Session) : Standing where
  config := s.config
  lifecycle := s.lifecycle
  active := s.active
  connected := s.outbox.connected
  pending := s.pending
  windowEnd := s.windowEnd
  nextConnection := s.nextConnection
  handshakes := s.handshakes
  terminated := s.terminated

namespace Standing

open Session (Input)

/-- The session is over. -/
def finish (s : Standing) (phase : Phase) : Standing :=
  { s with
    lifecycle := s.lifecycle.finish phase, active := none, connected := false, pending := none,
    windowEnd := none, terminated := true }

/-- What ends a session: the layer above, without a reason, or a loss. -/
inductive Ending (s : Standing) : Input → Option Loss → Prop where
  /-- The layer above ends it. -/
  | closed : Ending s .close none
  /-- The peer says goodbye. -/
  | goodbye (c : ConnectionId) (bytes : Bytes) (hc : s.active = some c) :
    Ending s (.frame c bytes) (some .goodbye)
  /-- A connection is ended on purpose. -/
  | forced (c : ConnectionId) (hc : (∃ p ∈ s.pending, p.conn = c) ∨ s.active = some c) :
    Ending s (.disconnected c true) (some .forcedDisconnect)
  /-- The connection is lost, and not to be replaced. -/
  | disabled (c : ConnectionId) (hc : s.active = some c) (hr : s.lifecycle.reconnects = false) :
    Ending s (.disconnected c false) (some .reconnectDisabled)
  /-- No connection replaced the lost one in time. -/
  | late (hp : s.lifecycle.phase = .restoring) :
    Ending s (.ring (.window s.lifecycle.epoch)) (some .restoreTimeout)

/-- The last phase of a session that ends. -/
def lastPhase : Option Loss → Phase
  | none | some .goodbye => .closed
  | some _ => .lost

/-- **How an input changes where a session stands**, and what the layer above is told. -/
inductive Change (now : Nat) (s : Standing) (input : Input) : Standing → List News → Prop where
  /-- Nothing changes. -/
  | stay (payloads : List Bytes) (hi : input = .close → s.lifecycle.Over) :
    Change now s input s (payloads.map .message)
  /-- There is a new connection. -/
  | connect (hi : input = .connect) (ho : ¬ s.lifecycle.Over) :
    Change now s input
      { s with
        pending := some ⟨s.nextConnection, Deadline.after now s.config.handshakeTimeout⟩,
        nextConnection := s.nextConnection + 1 } []
  /-- The pending connection is given up. -/
  | giveUp (p : Pending) (hp : s.pending = some p)
    (hi : input = .disconnected p.conn false ∨ input = .ring (.handshake p.conn)) :
    Change now s input { s with pending := none } []
  /-- The pending connection completes its handshake. -/
  | complete (p : Pending) (hp : s.pending = some p) (bytes : Bytes) (hi : input = .frame p.conn bytes)
    (ho : ¬ s.lifecycle.Over) :
    Change now s input
      { s with
        lifecycle := s.lifecycle.connect.2, active := some p.conn, connected := true, pending := none,
        windowEnd := none, handshakes := s.handshakes + 1 }
      (if s.lifecycle.phase = .restoring then [.notice .restored] else [])
  /-- The active connection is lost, and may be replaced for some time. -/
  | lose (c : ConnectionId) (hc : s.active = some c) (hi : input = .disconnected c false)
    (hr : s.lifecycle.reconnects = true) :
    Change now s input
      { s with
        lifecycle := { s.lifecycle with phase := .restoring, epoch := s.lifecycle.epoch + 1 },
        active := none, connected := false,
        windowEnd := some
          ⟨s.lifecycle.epoch + 1, Deadline.after now s.config.restoreTimeout⟩ } []
  /-- The session ends. -/
  | finish (reason : Option Loss) (ho : ¬ s.lifecycle.Over) (he : Ending s input reason) :
    Change now s input (s.finish (lastPhase reason))
      (reason.toList.map fun r => .notice (.lost r))

/-- Nothing changes, and nothing is told. -/
theorem Change.quiet {now : Nat} {s : Standing} {input : Input}
    (hi : input = .close → s.lifecycle.Over) : Change now s input s [] := .stay [] hi

end Standing

namespace Session

open Standing (Change)

variable {s : Session}

/-! ### Sending -/

theorem trySend_standing (m : Moment) (s : Session) (payload : Bytes) :
    (s.trySend m payload).session.standing = s.standing ∧
      Effect.news (s.trySend m payload).effects = [] := by
  unfold trySend
  by_cases ho : s.lifecycle.Over
  · simp [ho]
  rw [if_neg ho]
  cases ha : s.outbox.accept payload with
  | error r => simp
  | ok r =>
    obtain ⟨way, outbox⟩ := r
    obtain ⟨-, ⟨-, rfl, rfl⟩ | ⟨-, rfl, rfl⟩⟩ := Outbox.accept_eq_ok ha
    · cases hc : s.active <;> simp [standing, Outbox.retain, hc]
    · simp [standing, Outbox.retain]

theorem attempt_standing (m : Moment) (s : Session) (w : Waiting) :
    (s.attempt m w).1.standing = s.standing ∧ Effect.news (s.attempt m w).2 = [] := by
  obtain ⟨hstanding, hnews⟩ := trySend_standing m s w.payload
  unfold attempt
  split
  · exact ⟨rfl, rfl⟩
  dsimp only
  split
  · simp [hstanding, hnews]
  · split
    · exact ⟨hstanding, hnews⟩
    · simp [hstanding, hnews]

theorem resume_standing (m : Moment) (s : Session) :
    (s.resume m).1.standing = s.standing ∧ Effect.news (s.resume m).2 = [] := by
  unfold resume
  refine List.foldlRecOn (motive := fun acc : Session × List Effect =>
    acc.1.standing = s.standing ∧ Effect.news acc.2 = []) s.waiting _ ⟨rfl, rfl⟩ ?_
  intro acc hacc w _
  obtain ⟨hstanding, hnews⟩ := attempt_standing m acc.1 w
  simp [hstanding, hnews, hacc]

theorem flush_standing (m : Moment) (s : Session) :
    (s.flush m).1.standing = s.standing ∧ Effect.news (s.flush m).2 = [] := by
  unfold flush
  split
  · split
    · exact ⟨rfl, news_sendAck s m _⟩
    · exact ⟨rfl, rfl⟩
  · exact ⟨rfl, rfl⟩

/-- The layer above ends the session. -/
theorem close_change (m : Moment) (s : Session) :
    Change m.now s.standing .close (s.close m).1.standing (Effect.news (s.close m).2) := by
  unfold close Lifecycle.goodbye
  by_cases ho : s.lifecycle.Over
  · simp only [ho, if_true]
    exact .quiet fun _ => ho
  · have hfarewell : Effect.news (s.active.toList.map fun c => transmit m c (.goodbye s.id)) = [] := by
      cases s.active <;> simp
    simp only [ho, if_false, Effect.news_append, hfarewell, news_shutDown]
    exact .finish none ho .closed

/-! ### Connections and messages -/

theorem connect_change (m : Moment) (s : Session) :
    Change m.now s.standing .connect (s.connect m).session.standing
      (Effect.news (s.connect m).effects) := by
  unfold connect
  by_cases ho : s.lifecycle.Over
  · simp only [ho, if_true]
    exact .quiet nofun
  rw [if_neg ho]
  cases hr : s.role with
  | client =>
    simp only [Effect.news_append, Effect.news_close_map, news_transmit, Effect.news_nil]
    exact .connect rfl ho
  | server =>
    simp only [Effect.news_close_map]
    exact .connect rfl ho

/-- Acknowledging changes nothing but what is retained, and who waits. -/
theorem acknowledge_standing (s : Session) (n : Int) : (s.acknowledge n).standing = s.standing := by
  obtain ⟨waiting, hw⟩ := exists_acknowledge_eq s n
  simp [hw, standing]

theorem Coherent.receiveActive_change (hs : s.Coherent) (m : Moment) {c : ConnectionId}
    (hc : s.active = some c) (bytes : Bytes) (x : Message) :
    Change m.now s.standing (.frame c bytes) (s.receiveActive m c x).session.standing
      (Effect.news (s.receiveActive m c x).effects) := by
  have hsame := acknowledge_standing s x.acked
  unfold Session.receiveActive
  cases x.kind with
  | send =>
    have hsame' (inbox : Inbox) : ({ s.acknowledge x.acked with inbox } : Session).standing =
        s.standing := hsame
    dsimp only
    split
    · next ack _ =>
      have hack :
          Effect.news (ack.toList.flatMap fun n => (s.acknowledge x.acked).sendAck m n) = [] := by
        cases ack <;> simp
      simp only [hsame', Effect.news_append, hack]
      exact .stay [x.payload] nofun
    · simp only [hsame', news_sendAck]
      exact .quiet nofun
    · simp only [hsame', news_sendAck]
      exact .quiet nofun
  | ack =>
    simp only [hsame]
    exact .quiet nofun
  | goodbye =>
    have ho := hs.not_over hc
    simp only [Lifecycle.goodbye, ho, if_false, Effect.news_append, news_shutDown]
    exact .finish (some .goodbye) ho (.goodbye c bytes hc)
  | handshake | handshakeOk | handshakeFail => exact .quiet nofun

theorem Coherent.completeHandshake_change (hs : s.Coherent) (m : Moment) {p : Pending}
    (hp : s.pending = some p) (bytes : Bytes) (acked : Int) :
    Change m.now s.standing (.frame p.conn bytes) (s.completeHandshake m acked).session.standing
      (Effect.news (s.completeHandshake m acked).effects) := by
  obtain ⟨waiting, h⟩ := hs.completeHandshake_eq m hp acked
  have hgreeting : Effect.news
      (if s.role = .server then [transmit m p.conn (.handshakeOk s.id s.inbox.received)] else []) =
        [] := by
    split <;> simp
  have hnotice : Effect.news (if s.lifecycle.phase = .restoring then [.notify .restored] else []) =
      if s.lifecycle.phase = .restoring then [.notice .restored] else [] := by
    split <;> rfl
  simp only [h, Effect.news_append, Effect.news_close_map, hgreeting, news_transmitAll, hnotice,
    List.nil_append]
  exact .complete p hp bytes rfl (hs.not_over_of_pending hp)

/-- A frame on any connection. -/
theorem Coherent.receive_change (hs : s.Coherent) (m : Moment) (c : ConnectionId) (bytes : Bytes) :
    Change m.now s.standing (.frame c bytes) (s.receive m c bytes).session.standing
      (Effect.news (s.receive m c bytes).effects) := by
  unfold Session.receive
  cases Message.decode bytes with
  | error e => exact .quiet nofun
  | ok x =>
    dsimp only
    unfold Session.receiveMessage
    by_cases hid : x.session ≠ s.id
    · have hrefused (q : Prop) [Decidable q] :
          Effect.news (if q then [transmit m c (.handshakeFail x.session)] else []) = [] := by
        split <;> simp
      simp only [if_pos hid, hrefused]
      exact .quiet nofun
    rw [if_neg hid]
    by_cases hp : s.Awaits c
    · rw [if_pos (awaits_iff.mpr hp)]
      obtain ⟨p, hp, rfl⟩ := hp
      unfold Session.receivePending
      split
      · exact hs.completeHandshake_change m hp bytes x.acked
      · exact hs.completeHandshake_change m hp bytes x.acked
      · exact .quiet nofun
      · exact .quiet nofun
    rw [if_neg fun h => hp (awaits_iff.mp h)]
    split
    · next hc => exact hs.receiveActive_change m hc bytes x
    · exact .quiet nofun

/-! ### Losses and alarms -/

/-- A connection is ended on purpose. -/
theorem disconnect_forced {l : Lifecycle} (h : ¬ l.Over) :
    l.disconnect true = (.lost .forcedDisconnect, l.finish .lost) := by
  unfold Lifecycle.disconnect
  cases hp : l.phase with
  | initial | connected | restoring => rfl
  | lost => exact (h (.inl hp)).elim
  | closed => exact (h (.inr hp)).elim

/-- The active connection is lost, and may be replaced. -/
theorem disconnect_of_reconnects {l : Lifecycle} (hp : l.phase = .connected)
    (hr : l.reconnects = true) : l.disconnect false =
      (.windowOpened (l.epoch + 1), { l with phase := .restoring, epoch := l.epoch + 1 }) := by
  simp [Lifecycle.disconnect, hp, hr]

/-- The active connection is lost, and not to be replaced. -/
theorem disconnect_of_not_reconnects {l : Lifecycle} (hp : l.phase = .connected)
    (hr : l.reconnects = false) : l.disconnect false = (.lost .reconnectDisabled, l.finish .lost) := by
  simp [Lifecycle.disconnect, hp, hr]

theorem Coherent.disconnected_change (hs : s.Coherent) (m : Moment) (c : ConnectionId)
    (forced : Bool) :
    Change m.now s.standing (.disconnected c forced) (s.disconnected m c forced).1.standing
      (Effect.news (s.disconnected m c forced).2) := by
  unfold Session.disconnected
  by_cases hp : s.Awaits c
  · rw [if_pos (awaits_iff.mpr hp)]
    obtain ⟨p, hp, rfl⟩ := hp
    have ho := hs.not_over_of_pending hp
    cases forced with
    | true =>
      simp only [if_true, disconnect_forced ho, afterLoss, Effect.news_append, news_shutDown]
      exact .finish (some .forcedDisconnect) ho (.forced p.conn (.inl ⟨p, hp, rfl⟩))
    | false => exact .giveUp p hp (.inl rfl)
  rw [if_neg fun h => hp (awaits_iff.mp h)]
  split
  · next hc =>
    have ho := hs.not_over hc
    have hc : s.active = some c := hc
    have hphase : s.lifecycle.phase = .connected := hs.phase.mpr (by rw [hc]; rfl)
    cases forced with
    | true =>
      simp only [disconnect_forced ho, afterLoss, Effect.news_append, news_shutDown]
      exact .finish (some .forcedDisconnect) ho (.forced c (.inr hc))
    | false =>
      cases hr : s.lifecycle.reconnects with
      | true =>
        simp only [disconnect_of_reconnects hphase hr, afterLoss]
        exact .lose c hc rfl hr
      | false =>
        simp only [disconnect_of_not_reconnects hphase hr, afterLoss, Effect.news_append,
          news_shutDown]
        exact .finish (some .reconnectDisabled) ho (.disabled c hc hr)
  · exact .quiet (by simp)

theorem ring_change (m : Moment) (s : Session) (alarm : Alarm) :
    Change m.now s.standing (.ring alarm) (s.ring m alarm).1.standing
      (Effect.news (s.ring m alarm).2) := by
  cases alarm with
  | window epoch =>
    simp only [ring, expireWindow, Lifecycle.expire]
    by_cases he : s.lifecycle.phase = .restoring ∧ epoch = s.lifecycle.epoch
    · obtain ⟨hp, rfl⟩ := he
      have ho : ¬ s.lifecycle.Over := by simp [Lifecycle.Over, Phase.Final, hp]
      simp only [hp, and_self, if_true, Effect.news_append, news_shutDown]
      exact .finish (some .restoreTimeout) ho (.late hp)
    · simp only [he, if_false]
      exact .quiet (by simp)
  | handshake conn =>
    simp only [ring, expireHandshake]
    by_cases hp : s.Awaits conn
    · rw [if_pos (awaits_iff.mpr hp)]
      obtain ⟨p, hp, rfl⟩ := hp
      exact .giveUp p hp (.inr rfl)
    · rw [if_neg fun h => hp (awaits_iff.mp h)]
      exact .quiet (by simp)
  | idle =>
    obtain ⟨hstanding, hnews⟩ := flush_standing m s
    simp only [ring, hstanding, hnews]
    exact .quiet (by simp)

/-! ### Steps -/

/-- **Whatever happens to a session changes its standing in one of a few ways.** -/
theorem Coherent.step_change (hs : s.Coherent) (m : Moment) (input : Input) :
    Change m.now s.standing input (s.step m input).1.standing (Effect.news (s.step m input).2) := by
  cases input with
  | trySend payload =>
    obtain ⟨hstanding, hnews⟩ := trySend_standing m s payload
    simp only [step, hstanding, hnews]
    exact .quiet (by simp)
  | send payload =>
    obtain ⟨hstanding, hnews⟩ := attempt_standing m { s with nextTicket := s.nextTicket + 1 }
      ⟨s.nextTicket, payload, true⟩
    simp only [step, send, hstanding, hnews]
    exact .quiet (by simp)
  | resume =>
    obtain ⟨hstanding, hnews⟩ := resume_standing m s
    simp only [step, hstanding, hnews]
    exact .quiet (by simp)
  | close => exact close_change m s
  | disconnect forced =>
    simp only [step, disconnect, Effect.news_append, Effect.news_close_map]
    exact .quiet (by simp)
  | flush =>
    obtain ⟨hstanding, hnews⟩ := flush_standing m s
    simp only [step, hstanding, hnews]
    exact .quiet (by simp)
  | connect => exact connect_change m s
  | frame conn bytes => exact hs.receive_change m conn bytes
  | disconnected conn forced => exact hs.disconnected_change m conn forced
  | ring alarm => exact ring_change m s alarm

end Session

end Tether
