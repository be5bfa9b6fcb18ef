import Tether.Proofs.Log
import Tether.Proofs.Session.Moves

/-!
# Room for payloads

A payload that a session refuses for now needs room: in the window, or in the queue while there is
no connection. Room comes with an acknowledgement, with a handshake, and with nothing else. What
an operation other than a send does to the outbox and to those who wait is one of five things
(`Stirs`, `step_stirs`), and whatever makes room wakes all who wait, and so does the end of the
session (`Stirs.tightens`).
-/

namespace Tether

/-! ### Room in an outbox -/

namespace Outbox

/-- The payload fits in a frame, but the window or the queue leaves no room. -/
def Full (o : Outbox) (payload : Bytes) : Prop :=
  payload.length ≤ o.maxPayload ∧ (o.WindowFull ∨ o.QueueFull)

/-- There is no more room in the second outbox than in the first. -/
structure Tightens (o o' : Outbox) : Prop where
  window : o'.window = o.window
  queueCap : o'.queueCap = o.queueCap
  maxPayload : o'.maxPayload = o.maxPayload
  size : o.retained.size ≤ o'.retained.size
  unsent : o.unsent ≤ o'.unsent
  connected : o'.connected = true → o.connected = true

variable {o o' : Outbox} {c : Config} {l : Log} {payload : Bytes}

/-- A payload is refused for now if there is no room for it. -/
theorem full_iff : o.Full payload ↔ ∃ r, o.refusal? payload = some r ∧ r.Temporary := by
  unfold Full refusal?
  by_cases hp : o.maxPayload < payload.length
  · simp [hp, Refusal.Temporary]
  rw [if_neg hp]
  by_cases hw : o.WindowFull
  · simp [hw, Nat.not_lt.mp hp, Refusal.Temporary]
  rw [if_neg hw]
  by_cases hq : o.QueueFull
  · simp [hq, Nat.not_lt.mp hp, Refusal.Temporary]
  · simp [hw, hq]

theorem Tightens.refl (o : Outbox) : o.Tightens o := ⟨rfl, rfl, rfl, le_rfl, le_rfl, id⟩

theorem Tightens.trans {o'' : Outbox} (h : o.Tightens o') (h' : o'.Tightens o'') :
    o.Tightens o'' where
  window := h'.window.trans h.window
  queueCap := h'.queueCap.trans h.queueCap
  maxPayload := h'.maxPayload.trans h.maxPayload
  size := h.size.trans h'.size
  unsent := h.unsent.trans h'.unsent
  connected := fun hc => h.connected (h'.connected hc)

theorem Tightens.full (h : o.Tightens o') (hf : o.Full payload) : o'.Full payload := by
  obtain ⟨hp, hf⟩ := hf
  refine ⟨h.maxPayload ▸ hp, hf.imp ?_ ?_⟩
  · rintro ⟨w, hw, hle⟩
    exact ⟨w, h.window ▸ hw, hle.trans h.size⟩
  · rintro ⟨hc, hle⟩
    refine ⟨Bool.eq_false_iff.mpr fun hc' => ?_, ?_⟩
    · simp [h.connected hc'] at hc
    · rw [h.queueCap]
      exact hle.trans h.unsent

theorem tightens_retain (o : Outbox) (payload : Bytes) {unsent : Nat} (h : o.unsent ≤ unsent) :
    o.Tightens (o.retain payload unsent) :=
  ⟨rfl, rfl, rfl, by simp [retain], h, id⟩

theorem tightens_disconnect (o : Outbox) : o.Tightens o.disconnect :=
  ⟨rfl, rfl, rfl, le_rfl, le_rfl, nofun⟩

/-- An acknowledgement that retires nothing makes no room. -/
theorem Keeps.tightens_acknowledge (h : o.Keeps c l) {acked : Int}
    (hn : (o.acknowledge acked).1 = 0) : o.Tightens (o.acknowledge acked).2 := by
  have hunsent := h.unsent_le
  unfold Outbox.acknowledge at hn ⊢
  split at hn
  · next ha =>
    rw [if_pos ha]
    exact .refl o
  · next ha =>
    rw [if_neg ha]
    have hsize : o.retained.size ≤ (o.retained.toList.dropWhile
        (fun r => decide (r.seq ≤ o.credible acked))).toArray.size := Nat.sub_eq_zero_iff_le.mp hn
    exact ⟨rfl, rfl, rfl, hsize, le_min le_rfl (hunsent.trans hsize), id⟩

end Outbox

/-- The send shall try again. -/
def Waiting.rouse (w : Waiting) : Waiting := { w with woken := true }

namespace Session

variable {m : Moment} {s s' : Session} {payload : Bytes}

/-- **The payload is refused for now**: it would not be if there were room. -/
def Refused (m : Moment) (s : Session) (payload : Bytes) : Prop :=
  ∃ r, (s.trySend m payload).answer = .error r ∧ r.Temporary

/-- The session is not over, and its outbox leaves no room for the payload. -/
def Full (s : Session) (payload : Bytes) : Prop := ¬ s.lifecycle.Over ∧ s.outbox.Full payload

theorem refused_iff : s.Refused m payload ↔ s.Full payload := by
  rw [Refused, Full, Outbox.full_iff, trySend]
  by_cases ho : s.lifecycle.Over
  · simp [ho, Refusal.Temporary]
  · rw [if_neg ho]
    unfold Outbox.accept
    cases hr : s.outbox.refusal? payload with
    | some r => simp [ho]
    | none =>
      by_cases hc : s.outbox.connected = true
      · cases s.active <;> simp [hc]
      · simp [hc]

/-- There is no more room in the second session than in the first, and it is over only if the
first is. -/
structure Tightens (s s' : Session) : Prop where
  outbox : s.outbox.Tightens s'.outbox
  over_of : s'.lifecycle.Over → s.lifecycle.Over

theorem Tightens.refl (s : Session) : s.Tightens s := ⟨.refl _, fun h => h⟩

theorem Tightens.trans {s'' : Session} (h : s.Tightens s') (h' : s'.Tightens s'') :
    s.Tightens s'' := ⟨h.outbox.trans h'.outbox, fun ho => h.over_of (h'.over_of ho)⟩

/-- Nothing else about a session matters. -/
theorem Tightens.of_eq {s₁ : Session} (h : s₁.Tightens s') (ho : s₁.outbox = s.outbox)
    (hl : s₁.lifecycle = s.lifecycle) : s.Tightens s' := ⟨ho ▸ h.outbox, hl ▸ h.over_of⟩

theorem Tightens.full (h : s.Tightens s') (hf : s.Full payload) : s'.Full payload :=
  ⟨mt h.over_of hf.1, h.outbox.full hf.2⟩

/-! ### Operations -/

/-- What an operation that sends nothing does to the outbox and to the life of a session, and
whether it wakes those who wait. -/
inductive Stirs (s : Session) : Outbox → Lifecycle → Bool → Prop where
  /-- Nothing that matters to those who wait. -/
  | none : Stirs s s.outbox s.lifecycle false
  /-- Messages are acknowledged. -/
  | acknowledge (acked : Int) :
    Stirs s (s.outbox.acknowledge acked).2 s.lifecycle (0 < (s.outbox.acknowledge acked).1)
  /-- A handshake is completed. -/
  | complete (acked : Int) (lifecycle : Lifecycle) :
    Stirs s (s.outbox.acknowledge acked).2.reconnect lifecycle true
  /-- The connection is lost, and may be replaced. -/
  | lose (lifecycle : Lifecycle) (ho : lifecycle.Over → s.lifecycle.Over) :
    Stirs s s.outbox.disconnect lifecycle false
  /-- The session ends. -/
  | finish (lifecycle : Lifecycle) : Stirs s s.outbox.disconnect lifecycle true

/-- An operation leaves this outbox and this lifecycle, and wakes those who wait or does not. -/
structure Left (s s' : Session) (outbox : Outbox) (lifecycle : Lifecycle) (wakes : Bool) :
    Prop where
  outbox : s'.outbox = outbox
  lifecycle : s'.lifecycle = lifecycle
  config : s'.config = s.config
  nextTicket : s'.nextTicket = s.nextTicket
  waiting : s'.waiting = if wakes then s.waiting.map Waiting.rouse else s.waiting

/-- An operation stirs a session in the same way, whoever waits. -/
def Stirred (op : Session → Session) (s : Session) : Prop :=
  ∃ outbox lifecycle wakes, s.Stirs outbox lifecycle wakes ∧
    ∀ waiting, Left { s with waiting } (op { s with waiting }) outbox lifecycle wakes

theorem rouse_rouse (waiting : List Waiting) :
    (waiting.map Waiting.rouse).map Waiting.rouse = waiting.map Waiting.rouse := by
  rw [List.map_map]
  rfl

theorem left_acknowledge (s : Session) (n : Int) :
    Left s (s.acknowledge n) (s.outbox.acknowledge n).2 s.lifecycle
      (0 < (s.outbox.acknowledge n).1) := by
  simp only [acknowledge]
  split
  · next h => exact ⟨rfl, rfl, rfl, rfl, (if_pos (by simpa using h)).symm⟩
  · next h => exact ⟨rfl, rfl, rfl, rfl, (if_neg (by simpa using h)).symm⟩

theorem left_completeHandshake {p : Pending} (hp : s.pending = some p)
    (hr : s.lifecycle.connect.1 ≠ .rejected) (m : Moment) (acked : Int) :
    Left s (s.completeHandshake m acked).session (s.outbox.acknowledge acked).2.reconnect
      s.lifecycle.connect.2 true := by
  rcases hl : s.lifecycle.connect with ⟨outcome, lifecycle⟩
  rw [hl] at hr
  have h := left_acknowledge { s with pending := none, lifecycle, windowEnd := none } acked
  have hwaiting : ((acknowledge { s with pending := none, lifecycle, windowEnd := none }
      acked).waiting.map Waiting.rouse) = s.waiting.map Waiting.rouse := by
    rw [h.waiting]
    split
    · exact rouse_rouse s.waiting
    · rfl
  cases outcome with
  | rejected => exact (hr rfl).elim
  | established | restored | replaced =>
    simp only [completeHandshake, hp, hl]
    exact ⟨congrArg Outbox.reconnect h.outbox, h.lifecycle, h.config, h.nextTicket, hwaiting⟩

/-- Nothing that matters to those who wait. -/
theorem stirred_of_same {op : Session → Session}
    (h : ∀ waiting, Left { s with waiting } (op { s with waiting }) s.outbox s.lifecycle false) :
    Stirred op s := ⟨_, _, _, .none, h⟩

theorem Stirred.congr {op op' : Session → Session} (h : Stirred op s)
    (he : ∀ waiting, op' { s with waiting } = op { s with waiting }) : Stirred op' s := by
  obtain ⟨outbox, lifecycle, wakes, hstirs, hleft⟩ := h
  exact ⟨outbox, lifecycle, wakes, hstirs, fun waiting => he waiting ▸ hleft waiting⟩

/-- What leaves a session as it is stirs nothing. -/
theorem stirred_of_eq {op : Session → Session}
    (h : ∀ waiting, op { s with waiting } = { s with waiting }) : Stirred op s :=
  stirred_of_same fun waiting => by rw [h]; exact ⟨rfl, rfl, rfl, rfl, rfl⟩

theorem stirred_completeHandshake (s : Session) (m : Moment) (acked : Int) :
    Stirred (fun s => (s.completeHandshake m acked).session) s := by
  cases hp : s.pending with
  | none => exact stirred_of_eq fun waiting => by simp only [completeHandshake, hp]
  | some p =>
    by_cases hr : s.lifecycle.connect.1 = .rejected
    · refine stirred_of_same fun waiting => ?_
      rcases hl : s.lifecycle.connect with ⟨outcome, lifecycle⟩
      obtain rfl : outcome = .rejected := by simpa [hl] using hr
      simp only [completeHandshake, hp, hl]
      exact ⟨rfl, rfl, rfl, rfl, rfl⟩
    · exact ⟨_, _, _, .complete acked s.lifecycle.connect.2, fun waiting =>
        left_completeHandshake (s := { s with waiting }) hp hr m acked⟩

theorem stirred_receiveActive (s : Session) (m : Moment) (c : ConnectionId) (x : Message) :
    Stirred (fun s => (s.receiveActive m c x).session) s := by
  cases hk : x.kind with
  | send =>
    refine ⟨_, _, _, .acknowledge x.acked, fun waiting => ?_⟩
    have h := left_acknowledge { s with waiting } x.acked
    simp only [receiveActive, hk]
    split
    · exact ⟨h.outbox, h.lifecycle, h.config, h.nextTicket, h.waiting⟩
    · exact ⟨h.outbox, h.lifecycle, h.config, h.nextTicket, h.waiting⟩
    · exact ⟨h.outbox, h.lifecycle, h.config, h.nextTicket, h.waiting⟩
  | ack =>
    simp only [receiveActive, hk]
    exact ⟨_, _, _, .acknowledge x.acked, fun waiting => left_acknowledge { s with waiting } _⟩
  | goodbye =>
    by_cases ho : s.lifecycle.Over
    · refine stirred_of_eq fun waiting => ?_
      simp only [receiveActive, hk, Lifecycle.goodbye, if_pos ho]
    · refine ⟨_, _, _, .finish (s.lifecycle.finish .closed), fun waiting => ?_⟩
      simp only [receiveActive, hk, Lifecycle.goodbye, if_neg ho]
      exact ⟨rfl, rfl, rfl, rfl, rfl⟩
  | handshake | handshakeOk | handshakeFail =>
    exact stirred_of_eq fun waiting => by simp only [receiveActive, hk]

theorem stirred_receivePending (s : Session) (m : Moment) (c : ConnectionId) (x : Message) :
    Stirred (fun s => (s.receivePending m c x).session) s := by
  have hcomplete := stirred_completeHandshake s m x.acked
  cases hr : s.role with
  | server =>
    cases hk : x.kind with
    | handshake => exact hcomplete.congr fun waiting => by simp only [receivePending, hr, hk]
    | send | ack | handshakeOk | handshakeFail | goodbye =>
      exact stirred_of_eq fun waiting => by simp only [receivePending, hr, hk]
  | client =>
    cases hk : x.kind with
    | handshakeOk => exact hcomplete.congr fun waiting => by simp only [receivePending, hr, hk]
    | send | ack | handshake | handshakeFail | goodbye =>
      exact stirred_of_eq fun waiting => by simp only [receivePending, hr, hk]

theorem stirred_receive (s : Session) (m : Moment) (c : ConnectionId) (bytes : Bytes) :
    Stirred (fun s => (s.receive m c bytes).session) s := by
  cases hd : Message.decode bytes with
  | error e => exact stirred_of_eq fun waiting => by simp only [receive, hd]
  | ok x =>
    simp only [receive, hd]
    by_cases hid : x.session ≠ s.id
    · exact stirred_of_eq fun waiting => by simp only [receiveMessage, if_pos hid]
    by_cases hp : s.pending.any (·.conn = c) = true
    · exact (stirred_receivePending s m c x).congr fun waiting => by
        simp only [receiveMessage, if_neg hid, if_pos hp]
    by_cases ha : s.Active c
    · have ha (waiting) : ({ s with waiting } : Session).Active c := ha
      exact (stirred_receiveActive s m c x).congr fun waiting => by
        simp only [receiveMessage, if_neg hid, if_neg hp, if_pos (ha waiting)]
    · have ha (waiting) : ¬ ({ s with waiting } : Session).Active c := ha
      exact stirred_of_eq fun waiting => by
        simp only [receiveMessage, if_neg hid, if_neg hp, if_neg (ha waiting)]

theorem stirred_disconnected (s : Session) (m : Moment) (c : ConnectionId) (forced : Bool) :
    Stirred (fun s => (s.disconnected m c forced).1) s := by
  by_cases hp : s.pending.any (·.conn = c) = true
  · cases forced with
    | false =>
      refine stirred_of_same fun waiting => ?_
      simp only [disconnected, if_pos hp]
      exact ⟨rfl, rfl, rfl, rfl, rfl⟩
    | true =>
      rcases disconnect_cases s.lifecycle true with ⟨h, -⟩ | ⟨reason, h, -⟩ | ⟨-, h⟩
      · cases h
      · refine ⟨_, _, _, .finish (s.lifecycle.disconnect true).2, fun waiting => ?_⟩
        simp only [disconnected, if_pos hp, h, afterLoss]
        exact ⟨rfl, rfl, rfl, rfl, rfl⟩
      · refine stirred_of_same fun waiting => ?_
        simp only [disconnected, if_pos hp, h, afterLoss]
        exact ⟨rfl, rfl, rfl, rfl, rfl⟩
  by_cases ha : s.Active c
  · have ha (waiting) : ({ s with waiting } : Session).Active c := ha
    rcases disconnect_cases s.lifecycle forced with ⟨-, epoch, h, hp'⟩ | ⟨reason, h, -⟩ | ⟨-, h⟩
    · have ho : (s.lifecycle.disconnect forced).2.Over → s.lifecycle.Over := fun ho => by
        simp [Lifecycle.Over, Phase.Final, hp'] at ho
      refine ⟨_, _, _, .lose _ ho, fun waiting => ?_⟩
      simp only [disconnected, if_neg hp, if_pos (ha waiting), h, afterLoss]
      exact ⟨rfl, rfl, rfl, rfl, rfl⟩
    · refine ⟨_, _, _, .finish (s.lifecycle.disconnect forced).2, fun waiting => ?_⟩
      simp only [disconnected, if_neg hp, if_pos (ha waiting), h, afterLoss]
      exact ⟨rfl, rfl, rfl, rfl, rfl⟩
    · refine ⟨_, _, _, .lose s.lifecycle (fun h => h), fun waiting => ?_⟩
      simp only [disconnected, if_neg hp, if_pos (ha waiting), h, afterLoss]
      exact ⟨rfl, rfl, rfl, rfl, rfl⟩
  · have ha (waiting) : ¬ ({ s with waiting } : Session).Active c := ha
    exact stirred_of_eq fun waiting => by
      simp only [disconnected, if_neg hp, if_neg (ha waiting)]

theorem stirred_flush (s : Session) (m : Moment) : Stirred (fun s => (s.flush m).1) s := by
  refine stirred_of_same fun waiting => ?_
  simp only [flush]
  split
  · split
    · exact ⟨rfl, rfl, rfl, rfl, rfl⟩
    · exact ⟨rfl, rfl, rfl, rfl, rfl⟩
  · exact ⟨rfl, rfl, rfl, rfl, rfl⟩

theorem stirred_ring (s : Session) (m : Moment) (alarm : Alarm) :
    Stirred (fun s => (s.ring m alarm).1) s := by
  cases alarm with
  | window epoch =>
    by_cases he : s.lifecycle.phase = .restoring ∧ epoch = s.lifecycle.epoch
    · refine ⟨_, _, _, .finish (s.lifecycle.finish .lost), fun waiting => ?_⟩
      simp only [ring, expireWindow, Lifecycle.expire, if_pos he]
      exact ⟨rfl, rfl, rfl, rfl, rfl⟩
    · exact stirred_of_eq fun waiting => by
        simp only [ring, expireWindow, Lifecycle.expire, if_neg he]
  | handshake c =>
    refine stirred_of_same fun waiting => ?_
    simp only [ring, expireHandshake]
    split
    · exact ⟨rfl, rfl, rfl, rfl, rfl⟩
    · exact ⟨rfl, rfl, rfl, rfl, rfl⟩
  | idle => exact stirred_flush s m

theorem stirred_close (s : Session) (m : Moment) : Stirred (fun s => (s.close m).1) s := by
  by_cases ho : s.lifecycle.Over
  · exact stirred_of_eq fun waiting => by simp only [close, Lifecycle.goodbye, if_pos ho]
  · refine ⟨_, _, _, .finish (s.lifecycle.finish .closed), fun waiting => ?_⟩
    simp only [close, Lifecycle.goodbye, if_neg ho]
    exact ⟨rfl, rfl, rfl, rfl, rfl⟩

theorem stirred_connect (s : Session) (m : Moment) :
    Stirred (fun s => (s.connect m).session) s := by
  by_cases ho : s.lifecycle.Over
  · exact stirred_of_eq fun waiting => by simp only [connect, if_pos ho]
  · refine stirred_of_same fun waiting => ?_
    simp only [connect, if_neg ho]
    cases s.role with
    | client => exact ⟨rfl, rfl, rfl, rfl, rfl⟩
    | server => exact ⟨rfl, rfl, rfl, rfl, rfl⟩

/-- The layer above sends something, or what waits is sent. -/
def Input.Sends : Input → Prop
  | .trySend _ | .send _ | .resume => True
  | _ => False

/-- **What an operation that sends nothing does** to the outbox and to those who wait. -/
theorem step_stirred (s : Session) (m : Moment) {input : Input} (hi : ¬ input.Sends) :
    Stirred (fun s => (s.step m input).1) s := by
  cases input with
  | trySend | send | resume => exact (hi trivial).elim
  | close => exact stirred_close s m
  | disconnect forced => exact stirred_of_eq fun _ => rfl
  | flush => exact stirred_flush s m
  | connect => exact stirred_connect s m
  | frame c bytes => exact stirred_receive s m c bytes
  | disconnected c forced => exact stirred_disconnected s m c forced
  | ring alarm => exact stirred_ring s m alarm

/-- No operation that sends nothing adds anything to the log, or takes anything out of it. -/
theorem Stirs.keeps {outbox : Outbox} {lifecycle : Lifecycle} {wakes : Bool} {c : Config} {l : Log}
    (h : s.Stirs outbox lifecycle wakes) (hk : s.outbox.Keeps c l) :
    ∃ l', outbox.Keeps c l' ∧ l'.entries = l.entries := by
  cases h with
  | none => exact ⟨l, hk, rfl⟩
  | acknowledge acked => exact ⟨_, (hk.acknowledge acked).2, rfl⟩
  | complete acked => exact ⟨_, (hk.acknowledge acked).2.reconnect, rfl⟩
  | lose | finish => exact ⟨_, hk.disconnect, rfl⟩

/-- Where nobody is woken there is no more room than before. -/
theorem Stirs.tightens {outbox : Outbox} {lifecycle : Lifecycle} {wakes : Bool} {c : Config}
    {l : Log} (h : s.Stirs outbox lifecycle wakes) (hk : s.outbox.Keeps c l)
    (hw : wakes = false) : s.outbox.Tightens outbox ∧ (lifecycle.Over → s.lifecycle.Over) := by
  cases h with
  | none => exact ⟨.refl _, fun h => h⟩
  | acknowledge acked =>
    have hn : (s.outbox.acknowledge acked).1 = 0 := by simpa using hw
    exact ⟨hk.tightens_acknowledge hn, fun h => h⟩
  | lose lifecycle ho => exact ⟨s.outbox.tightens_disconnect, ho⟩
  | complete | finish => cases hw

/-- All those who wait are woken, whoever waits. -/
def Signals (op : Session → Session) (s : Session) : Prop :=
  ∀ waiting, ∀ w ∈ (op { s with waiting }).waiting, w.woken = true

/-- **An operation that sends nothing wakes all who wait, or makes no room** and does not end the
session. -/
theorem Stirred.signals_or_tightens {op : Session → Session} (h : Stirred op s) {c : Config}
    {l : Log} (hk : s.outbox.Keeps c l) :
    Signals op s ∧ (op s).waiting = s.waiting.map Waiting.rouse ∨
      s.Tightens (op s) ∧ (op s).waiting = s.waiting := by
  obtain ⟨outbox, lifecycle, wakes, hstirs, hleft⟩ := h
  have hs : Left s (op s) outbox lifecycle wakes := hleft s.waiting
  cases wakes with
  | true =>
    refine .inl ⟨fun waiting w hw => ?_, hs.waiting⟩
    rw [(hleft waiting).waiting] at hw
    obtain ⟨w', -, rfl⟩ := List.mem_map.mp hw
    rfl
  | false =>
    obtain ⟨houtbox, hover⟩ := hstirs.tightens hk rfl
    exact .inr ⟨⟨hs.outbox ▸ houtbox, hs.lifecycle ▸ hover⟩, hs.waiting⟩

end Session

end Tether
