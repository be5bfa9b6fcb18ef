import Tether.Proofs.Session.Keeps
import Tether.Proofs.Session.Lifetime

/-!
# What becomes of a connection

For one connection of a session, whatever happens to the session means one of a few things: it
comes up, it is refused, it completes its handshake, something is said on it, or it is let go of
(`Fares`). A run is a sequence of such things (`Coherent.run_fared`), so that what each of them
preserves is preserved by every run. Once the session let go of a connection, it says nothing on
it any more (`Dropped.fared`).
-/

namespace Tether

/-! ### What is handed to one connection -/

/-- The messages that are handed to a connection. -/
def Transmission.handedTo (c : ConnectionId) (t : List Transmission) : List Transmission :=
  t.filter (·.conn = c)

namespace Transmission

variable {c : ConnectionId} {t t' : List Transmission}

@[simp] theorem handedTo_nil : handedTo c [] = [] := rfl

@[simp] theorem handedTo_append : handedTo c (t ++ t') = handedTo c t ++ handedTo c t' :=
  List.filter_append ..

theorem handedTo_of_eq (h : ∀ τ ∈ t, τ.conn = c) : handedTo c t = t :=
  List.filter_eq_self.mpr fun τ hτ => decide_eq_true (h τ hτ)

theorem handedTo_of_ne (h : ∀ τ ∈ t, τ.conn ≠ c) : handedTo c t = [] :=
  List.filter_eq_nil_iff.mpr fun τ hτ => by simpa using h τ hτ

end Transmission

open Transmission (handedTo handedTo_of_eq handedTo_of_ne)

/-- What a side says on a connection before all else. -/
def Role.opening : Role → List Kind
  | .client => [.handshake]
  | .server => []

/-- What a side says on a connection when it completes its handshake. -/
def Role.agreement : Role → List Kind
  | .client => []
  | .server => [.handshakeOk]

namespace Session

/-- The session let go of the connection. -/
structure Dropped (s : Session) (c : ConnectionId) : Prop where
  numbered : c < s.nextConnection
  pending : ¬ s.Awaits c
  active : s.active ≠ some c

/-- What something that happens to a session means for one of its connections, and what is handed
to the connection. -/
inductive Fares (m : Moment) (s s' : Session) (c : ConnectionId) : List Transmission → Prop where
  /-- Nothing. -/
  | stays (hn : c < s'.nextConnection ↔ c < s.nextConnection) (hp : s'.Awaits c ↔ s.Awaits c)
    (ha : s'.active = some c ↔ s.active = some c)
    (hnext : s.active = some c → s'.outbox.next = s.outbox.next) : Fares m s s' c []
  /-- It comes up. -/
  | opens {t : List Transmission} (hn : s.nextConnection ≤ c) (hp : s'.Awaits c)
    (hk : t.map (·.message.kind) = s.role.opening) : Fares m s s' c t
  /-- It asks for another session. -/
  | refuses {τ : Transmission} (hp : s.Awaits c) (hp' : s'.Awaits c)
    (hk : τ.message.kind = .handshakeFail) : Fares m s s' c [τ]
  /-- It completes its handshake. -/
  | completes (acked : Int) (hp : s.Awaits c) (ha : s'.active = some c)
    (ho : s'.outbox = (s.outbox.acknowledge acked).2.reconnect) :
    Fares m s s' c (s.welcome m c acked)
  /-- An acknowledgement is said on it. -/
  | acks {τ : Transmission} (ha : s.active = some c) (ha' : s'.active = some c)
    (hk : τ.message.kind = .ack) (hnext : s'.outbox.next = s.outbox.next) : Fares m s s' c [τ]
  /-- A payload is said on it. -/
  | sends {τ : Transmission} (ha : s.active = some c) (ha' : s'.active = some c)
    (hk : τ.message.kind = .send) (hseq : τ.message.seq = s.outbox.next)
    (hnext : s'.outbox.next = s.outbox.next + 1) : Fares m s s' c [τ]
  /-- The session lets go of it. -/
  | drops (hc : s.Awaits c ∨ s.active = some c) (hd : s'.Dropped c) : Fares m s s' c []
  /-- The session says goodbye on it, and lets go of it. -/
  | leaves {τ : Transmission} (ha : s.active = some c) (hd : s'.Dropped c)
    (hk : τ.message.kind = .goodbye) : Fares m s s' c [τ]

variable {m : Moment} {s s' s'' : Session} {t t' : List Transmission} {a d : List Bytes}
  {c : ConnectionId}

theorem Coherent.numbered_of_awaits (hs : s.Coherent) (hc : s.Awaits c) : c < s.nextConnection := by
  obtain ⟨p, hp, rfl⟩ := hc
  exact hs.latest p hp ▸ Nat.lt_succ_self p.conn

theorem not_awaits_of_none (h : s.pending = none) : ¬ s.Awaits c := by
  rintro ⟨p, hp, -⟩
  rw [h] at hp
  cases hp

/-- A connection stays what it is, or the session lets go of it. -/
theorem Fares.of_wanes (hs : s.Coherent) (hn : c < s'.nextConnection ↔ c < s.nextConnection)
    (hp : s'.Awaits c → s.Awaits c) (ha : s'.active = some c → s.active = some c)
    (hnext : s'.active = some c → s'.outbox.next = s.outbox.next) : Fares m s s' c [] := by
  by_cases hnew : s'.Awaits c ∨ s'.active = some c
  · refine .stays hn ⟨hp, fun h => ?_⟩ ⟨ha, fun h => ?_⟩ fun h => hnext ?_
    · exact hnew.resolve_right fun hc => hs.not_awaits (ha hc) h
    · exact hnew.resolve_left fun hc => hs.not_awaits h (hp hc)
    · exact hnew.resolve_left fun hc => hs.not_awaits h (hp hc)
  obtain ⟨hpending, hactive⟩ := not_or.mp hnew
  by_cases hold : s.Awaits c ∨ s.active = some c
  · have hlt : c < s.nextConnection := hold.elim hs.numbered_of_awaits (hs.numbered c)
    exact .drops hold ⟨hn.mpr hlt, hpending, hactive⟩
  · obtain ⟨hpending', hactive'⟩ := not_or.mp hold
    exact .stays hn (iff_of_false hpending hpending') (iff_of_false hactive hactive')
      fun h => (hactive' h).elim

/-- The session goes on, and its connections stay what they are. -/
theorem Fares.of_same (hn : s'.nextConnection = s.nextConnection) (hp : s'.pending = s.pending)
    (ha : s'.active = s.active) (hnext : s.active = some c → s'.outbox.next = s.outbox.next) :
    Fares m s s' c [] :=
  .stays (by rw [hn]) (by rw [Awaits, hp, Awaits]) (by rw [ha]) hnext

/-- A message is handed to a connection, and nothing to the others. -/
theorem Fares.of_handing {c₀ : ConnectionId} {x : Message}
    (hself : c₀ = c → Fares m s s' c [handing m c₀ x]) (hother : c₀ ≠ c → Fares m s s' c []) :
    Fares m s s' c (handedTo c [handing m c₀ x]) := by
  by_cases hcc : c₀ = c
  · rw [handedTo_of_eq (by simpa [handing] using hcc)]
    exact hself hcc
  · rw [handedTo_of_ne (by simpa [handing] using hcc)]
    exact hother hcc

/-! ### Moves -/

theorem Move.fares (h : Move m s s' t a) (hs : s.Coherent) (c : ConnectionId) :
    Fares m s s' c (handedTo c t) := by
  have hnone {s' : Session} (h : s'.pending = none) : s'.Awaits c → s.Awaits c :=
    fun hp => (not_awaits_of_none h hp).elim
  cases h with
  | wait => exact .of_same rfl rfl rfl fun _ => rfl
  | defer payload unsent hc hp =>
    refine .of_same rfl rfl rfl fun ha => ?_
    cases hc.symm.trans ha
  | send c₀ payload unsent hc hp =>
    refine .of_handing (fun hcc => ?_) fun hcc => .of_same rfl rfl rfl fun ha => ?_
    · subst hcc
      exact .sends hc hc rfl rfl rfl
    · exact (hcc (Option.some.inj (hc.symm.trans ha))).elim
  | flush c₀ hc =>
    refine .of_handing (fun hcc => ?_) fun _ => .of_same rfl rfl rfl fun _ => rfl
    subst hcc
    exact .acks hc hc rfl rfl
  | giveUp => exact .of_wanes hs Iff.rfl (hnone rfl) (fun ha => ha) fun _ => rfl
  | lose lifecycle hp => exact .of_wanes hs Iff.rfl (fun hp => hp) nofun nofun
  | finish lifecycle terminated ho => exact .of_wanes hs Iff.rfl (hnone rfl) nofun nofun
  | farewell c₀ lifecycle terminated hc ho =>
    refine .of_handing (fun hcc => ?_) fun _ => .of_wanes hs Iff.rfl (hnone rfl) nofun nofun
    subst hcc
    exact .leaves hc ⟨hs.numbered c₀ hc, not_awaits_of_none rfl, nofun⟩ rfl

/-! ### New connections and messages -/

/-- A new connection is the pending one, and what was pending is let go of. -/
theorem Fares.of_pending (hs : s.Coherent) {deadline : Nat} (hcc : s.nextConnection ≠ c)
    (hn : s'.nextConnection = s.nextConnection + 1)
    (hp : s'.pending = some ⟨s.nextConnection, deadline⟩) (ha : s'.active = s.active)
    (ho : s'.outbox = s.outbox) : Fares m s s' c [] := by
  have hlt : c < s'.nextConnection ↔ c < s.nextConnection := by
    rw [hn]
    exact ⟨fun h => lt_of_le_of_ne (Nat.le_of_lt_succ h) hcc.symm, Nat.lt_succ_of_lt⟩
  refine .of_wanes hs hlt ?_ (fun h => ha ▸ h) fun _ => by rw [ho]
  rintro ⟨p, hp', rfl⟩
  cases hp.symm.trans hp'
  exact (hcc rfl).elim

theorem Opens.fares (h : Opens m s s' t) (hs : s.Coherent) (c : ConnectionId) :
    Fares m s s' c (handedTo c t) := by
  cases h with
  | refused => exact .of_same rfl rfl rfl fun _ => rfl
  | asks deadline ho hr =>
    refine .of_handing (fun hcc => ?_) fun hcc => ?_
    · subst hcc
      exact .opens le_rfl ⟨_, rfl, rfl⟩ (by rw [hr]; rfl)
    · exact .of_pending hs hcc rfl rfl rfl rfl
  | waits deadline ho hr =>
    by_cases hcc : s.nextConnection = c
    · subst hcc
      exact .opens le_rfl ⟨_, rfl, rfl⟩ (by rw [hr]; rfl)
    · exact .of_pending hs hcc rfl rfl rfl rfl

theorem Hears.fares {c₀ : ConnectionId} {x : Message} (h : Hears m s c₀ x s' t d) (hs : s.Coherent)
    (c : ConnectionId) : Fares m s s' c (handedTo c t) := by
  have hnone {s' : Session} (h : s'.pending = none) : s'.Awaits c → s.Awaits c :=
    fun hp => (not_awaits_of_none h hp).elim
  cases h with
  | ignored => exact .of_same rfl rfl rfl fun _ => rfl
  | completed lifecycle waiting hc hk hp =>
    by_cases hcc : c₀ = c
    · subst hcc
      rw [handedTo_of_eq fun τ hτ => welcome_conn hτ]
      exact .completes x.acked hc rfl rfl
    · rw [handedTo_of_ne fun τ hτ => (welcome_conn hτ).trans_ne hcc]
      have hactive : ¬ (some c₀ : Option ConnectionId) = some c := fun h => hcc (Option.some.inj h)
      exact .of_wanes hs Iff.rfl (hnone rfl) (fun h => (hactive h).elim) fun h => (hactive h).elim
  | held waiting hc hk hn hd | acked waiting hc hk =>
    exact .of_same rfl rfl rfl fun _ => Outbox.acknowledge_next ..
  | answered waiting hc hk hn | repeated waiting hc hk hn =>
    have hnext := Outbox.acknowledge_next s.outbox x.acked
    refine .of_handing (fun hcc => ?_) fun _ => .of_same rfl rfl rfl fun _ => hnext
    subst hcc
    exact .acks hc hc rfl hnext
  | left waiting lifecycle hc hk ho => exact .of_wanes hs Iff.rfl (hnone rfl) nofun nofun

/-! ### Runs -/

/-- What a step of a session is. -/
inductive Goes (m : Moment) (s : Session) : Session → List Transmission → List Bytes → Prop where
  /-- The session acts of its own accord, or does nothing. -/
  | acts {s' : Session} {t : List Transmission} {a : List Bytes} (h : Moves m s s' t a) :
    Goes m s s' t a
  /-- There is a new connection. -/
  | opens {s' : Session} {t : List Transmission} (h : Opens m s s' t) : Goes m s s' t []
  /-- A message of the session comes. -/
  | hears {c : ConnectionId} {x : Message} {s' : Session} {t : List Transmission} {d : List Bytes}
    (h : Hears m s c x s' t d) : Goes m s s' t []
  /-- A handshake for another session comes on the pending connection. -/
  | refuses {c : ConnectionId} (hc : s.Awaits c) (id : SessionId) :
    Goes m s s [handing m c (.handshakeFail id)] []

/-- A frame is heard as a message of the session, or it is a fault and changes nothing. -/
theorem Coherent.frame_cases (hs : s.Coherent) (m : Moment) (c : ConnectionId) (bytes : Bytes) :
    let o := s.receive m c bytes
    (∃ x d, Hears m s c x o.session (Effect.transmitted o.effects) d) ∨
      (o.session = s ∧ (Effect.transmitted o.effects = [] ∨
        s.Awaits c ∧ ∃ id, Effect.transmitted o.effects = [handing m c (.handshakeFail id)])) := by
  intro o
  have hfault {e : Fault} (he : s.Faulty c bytes e) : o.session = s ∧
      (Effect.transmitted o.effects = [] ∨
        s.Awaits c ∧ ∃ id, Effect.transmitted o.effects = [handing m c (.handshakeFail id)]) := by
    obtain ⟨effects, heq, rfl | ⟨x, hx, rfl⟩⟩ := hs.receive_of_faulty m he
    · exact ⟨by rw [show o = _ from heq], .inl (by rw [show o = _ from heq]; rfl)⟩
    · refine ⟨by rw [show o = _ from heq], .inr ⟨hx.2.2.2, x.session, ?_⟩⟩
      rw [show o = _ from heq]
      rfl
  cases hd : Message.decode bytes with
  | error e => exact .inr (hfault (.undecodable hd))
  | ok x =>
    by_cases hx : x.session = s.id
    · have hreceive : o = s.receiveMessage m c x := by
        simp only [o, Session.receive, hd]
      rw [hreceive]
      exact .inl ⟨x, _, hs.receiveMessage m c hx⟩
    · exact .inr (hfault (.foreign hd hx))

/-- **Every step is one of these**, whatever comes over the connections. -/
theorem Coherent.step_goes (hs : s.Coherent) (m : Moment) (input : Input) :
    Goes m s (s.step m input).1 (Effect.transmitted (s.step m input).2) (s.accepted m input) := by
  by_cases hi : input.Own
  · exact .acts (hs.step_moves m hi).1
  cases input with
  | connect => exact .opens (opens_connect m s).1
  | frame c bytes =>
    simp only [Session.step, accepted]
    rcases hs.frame_cases m c bytes with ⟨x, d, h⟩ | ⟨hsame, hnone | ⟨hc, id, hanswer⟩⟩
    · exact .hears h
    · rw [hsame, hnone]
      exact .acts (.nil s)
    · rw [hsame, hanswer]
      exact .refuses hc id
  | _ => exact (hi trivial).elim

/-- What happens to a connection, one thing after the other, and what is handed to it. -/
inductive Fared (c : ConnectionId) : Session → Session → List Transmission → Prop where
  | nil {s : Session} (hs : s.Coherent) : Fared c s s []
  | cons {m : Moment} {s s' s'' : Session} {t t' : List Transmission} (hs : s.Coherent)
    (hr : s'.role = s.role) (h : Fares m s s' c t) (h' : Fared c s' s'' t') :
    Fared c s s'' (t ++ t')

theorem Fared.coherent (h : Fared c s s' t) : s.Coherent := by
  cases h with
  | nil hs => exact hs
  | cons hs => exact hs

theorem Fared.single (hs : s.Coherent) (hs' : s'.Coherent) (hr : s'.role = s.role)
    (h : Fares m s s' c t) : Fared c s s' t := by
  simpa using Fared.cons hs hr h (.nil hs')

theorem Fared.trans (h : Fared c s s' t) (h' : Fared c s' s'' t') : Fared c s s'' (t ++ t') := by
  induction h with
  | nil => exact h'
  | cons hs hr hf _ ih =>
    rw [List.append_assoc]
    exact .cons hs hr hf (ih h')

theorem Moves.fared (h : Moves m s s' t a) (hs : s.Coherent) (c : ConnectionId) :
    Fared c s s' (handedTo c t) := by
  induction h with
  | nil => exact .nil hs
  | cons hm _ ih =>
    rw [Transmission.handedTo_append]
    exact .cons hs (hm.progress hs).role (hm.fares hs c) (ih (hm.coherent hs))

theorem Goes.fared (h : Goes m s s' t a) (hs : s.Coherent) (c : ConnectionId) :
    Fared c s s' (handedTo c t) := by
  cases h with
  | acts h => exact h.fared hs c
  | opens h => exact .single hs (h.coherent hs) (h.progress hs).role (h.fares hs c)
  | hears h => exact .single hs (h.coherent hs) (h.progress hs).role (h.fares hs c)
  | @refuses c₀ hc id =>
    refine .single (m := m) hs hs rfl (.of_handing (fun hcc => ?_) fun _ => ?_)
    · subst hcc
      exact .refuses hc hc rfl
    · exact .of_same rfl rfl rfl fun _ => rfl

/-- **A run is a sequence of such things** for every connection. -/
theorem Coherent.run_fared (hs : s.Coherent) (inputs : List (Moment × Input)) (c : ConnectionId) :
    Fared c s (s.run inputs).1 (handedTo c (Effect.transmitted (s.run inputs).2)) := by
  induction inputs generalizing s with
  | nil => exact .nil hs
  | cons i inputs ih =>
    have hstep := (hs.step_goes i.1 i.2).fared hs c
    simp only [Session.run, Effect.transmitted_append, Transmission.handedTo_append]
    exact hstep.trans (ih (hs.step i.1 i.2))

/-! ### Connections that are let go of -/

/-- Nothing is said any more on a connection that was let go of. -/
theorem Dropped.fares (hc : s.Dropped c) (h : Fares m s s' c t) : t = [] ∧ s'.Dropped c := by
  cases h with
  | stays hn hp ha => exact ⟨rfl, hn.mpr hc.numbered, mt hp.mp hc.pending, mt ha.mp hc.active⟩
  | opens hn => exact absurd hc.numbered (Nat.not_lt.mpr hn)
  | refuses hp | completes _ hp => exact absurd hp hc.pending
  | acks ha | sends ha | leaves ha => exact absurd ha hc.active
  | drops hold hd => exact ⟨rfl, hd⟩

theorem Dropped.fared (hc : s.Dropped c) (h : Fared c s s' t) : t = [] ∧ s'.Dropped c := by
  induction h with
  | nil => exact ⟨rfl, hc⟩
  | cons hs hr hf _ ih =>
    obtain ⟨rfl, hc'⟩ := hc.fares hf
    exact ih hc'

theorem Dropped.run (hs : s.Coherent) (hc : s.Dropped c) (inputs : List (Moment × Input)) :
    handedTo c (Effect.transmitted (s.run inputs).2) = [] :=
  (hc.fared (hs.run_fared inputs c)).1

/-- A session that is over says nothing. -/
theorem Rests.transmitted {e : List Effect} (h : Rests s s' e) : Effect.transmitted e = [] := by
  refine List.filterMap_eq_nil_iff.mpr fun x hx => ?_
  obtain ⟨ticket, rfl⟩ := h.refused x hx
  rfl

/-- The session lets go of a connection when something happens. -/
inductive LetsGo (m : Moment) (s : Session) (c : ConnectionId) (input : Input) : Prop where
  /-- There is a new connection while this one is pending. -/
  | superseded (hp : s.Awaits c) (hi : input = .connect)
  /-- Another connection becomes the active one. -/
  | replaced (c' : ConnectionId) (ha : s.active = some c) (hcc : c' ≠ c)
    (ha' : (s.step m input).1.active = some c')
  /-- The time for its handshake is over. -/
  | late (hp : s.Awaits c) (hi : input = .ring (.handshake c))
  /-- Its loss is reported. -/
  | lost (forced : Bool) (hn : c < s.nextConnection) (hi : input = .disconnected c forced)
  /-- The session is over. -/
  | ended (ho : (s.step m input).1.lifecycle.Over)

/-- The loss of a connection says nothing. -/
theorem transmitted_disconnected (m : Moment) (s : Session) (conn : ConnectionId) (forced : Bool) :
    Effect.transmitted (s.disconnected m conn forced).2 = [] := by
  have hloss (s : Session) (r : Disconnection) : Effect.transmitted (s.afterLoss m r).2 = [] := by
    cases r <;> simp [afterLoss]
  unfold disconnected
  split
  · dsimp only
    split
    · exact hloss _ _
    · rfl
  · split
    · exact hloss _ _
    · rfl

/-- What a loss means for the session brings no connection back. -/
theorem Dropped.afterLoss (hc : s.Dropped c) (m : Moment) (r : Disconnection) :
    (s.afterLoss m r).1.Dropped c := by
  cases r with
  | windowOpened | ignored => exact ⟨hc.numbered, hc.pending, hc.active⟩
  | lost => exact ⟨hc.numbered, not_awaits_of_none rfl, nofun⟩

/-- When its loss is reported, a connection is let go of. -/
theorem Coherent.dropped_disconnected (hs : s.Coherent) (m : Moment) (hn : c < s.nextConnection)
    (forced : Bool) : (s.disconnected m c forced).1.Dropped c := by
  unfold Session.disconnected
  by_cases hp : s.Awaits c
  · rw [if_pos (awaits_iff.mpr hp)]
    have hdropped {l : Lifecycle} :
        ({ s with pending := none, lifecycle := l } : Session).Dropped c :=
      ⟨hn, not_awaits_of_none rfl, fun ha => hs.not_awaits ha hp⟩
    dsimp only
    split
    · exact hdropped.afterLoss m _
    · exact hdropped
  rw [if_neg (mt awaits_iff.mp hp)]
  split
  · have hdropped {l : Lifecycle} : ({ s with
        active := none, outbox := s.outbox.disconnect, lifecycle := l } : Session).Dropped c :=
      ⟨hn, hp, nofun⟩
    exact hdropped.afterLoss m _
  · next ha => exact ⟨hn, hp, ha⟩

/-- A new connection takes the place of the pending one. -/
theorem Opens.dropped (h : Opens m s s' t) (hs : s.Coherent) (hc : s.Awaits c) :
    handedTo c t = [] ∧ s'.Dropped c := by
  have hlt := hs.numbered_of_awaits hc
  have hne : s.nextConnection ≠ c := hlt.ne'
  have hactive : s.active ≠ some c := fun ha => hs.not_awaits ha hc
  have hpending {s' : Session} {deadline : Nat}
      (hp : s'.pending = some ⟨s.nextConnection, deadline⟩) : ¬ s'.Awaits c := by
    rintro ⟨p, hp', rfl⟩
    cases hp.symm.trans hp'
    exact hne rfl
  cases h with
  | refused ho =>
    obtain ⟨p, hp, -⟩ := hc
    exact (hs.not_over_of_pending hp ho).elim
  | asks deadline ho hr =>
    exact ⟨handedTo_of_ne (by simpa [handing] using hne), Nat.lt_succ_of_lt hlt, hpending rfl,
      hactive⟩
  | waits deadline ho hr => exact ⟨rfl, Nat.lt_succ_of_lt hlt, hpending rfl, hactive⟩

/-- Another connection becomes the active one only by its handshake, and only on that one
something is said. -/
theorem Goes.replaced {c' : ConnectionId} (h : Goes m s s' t a) (hs : s.Coherent)
    (ha : s.active = some c) (hcc : c' ≠ c) (ha' : s'.active = some c') :
    handedTo c t = [] ∧ s'.Dropped c := by
  have hne {s' : Session} (ha' : s'.active = some c') : s'.active ≠ s.active := fun h =>
    hcc (Option.some.inj (ha'.symm.trans (h.trans ha)))
  cases h with
  | acts h =>
    have hactive := (h.keeps hs).active c' ha'
    exact (hcc (Option.some.inj (hactive.symm.trans ha))).elim
  | opens h => cases h <;> exact (hne ha' rfl).elim
  | refuses => exact (hne ha' rfl).elim
  | hears h =>
    rcases h.connections with ⟨-, -, -, hactive, hnone⟩ | ⟨-, hactive, -⟩
    · cases ha'.symm.trans hactive
      refine ⟨handedTo_of_ne fun τ hτ => (h.conn τ hτ).1.trans_ne hcc, ?_, not_awaits_of_none hnone,
        (hactive.trans_ne fun h => hcc (Option.some.inj h))⟩
      rw [h.nextConnection]
      exact hs.numbered c ha
    · exact (hcc (Option.some.inj ((hactive c' ha').symm.trans ha))).elim

/-- Of all that a session hears only a goodbye ends it, and that is not answered. -/
theorem Hears.silent_of_over {c : ConnectionId} {x : Message} (h : Hears m s c x s' t d)
    (ho : ¬ s.lifecycle.Over) (ho' : s'.lifecycle.Over) : t = [] := by
  cases h with
  | completed lifecycle waiting hc hk hp => exact (ho'.phase_ne.1 hp).elim
  | left => rfl
  | ignored | held | answered | repeated | acked => exact (ho ho').elim

/-- What ends a session says nothing, unless the layer above ends it. -/
theorem Coherent.transmitted_ending (hs : s.Coherent) (m : Moment) {input : Input}
    (ho : ¬ s.lifecycle.Over) (ho' : (s.step m input).1.lifecycle.Over) (hi : input ≠ .close) :
    Effect.transmitted (s.step m input).2 = [] := by
  rcases (hs.step_change m input).loss_cases ho with ⟨hgoes, -⟩ | ⟨reason, he, -⟩
  · exact (hgoes ho').elim
  cases he with
  | closed => exact (hi rfl).elim
  | goodbye c bytes hc =>
    rcases hs.frame_cases m c bytes with ⟨x, d, h⟩ | ⟨hsame, -⟩
    · exact h.silent_of_over ho ho'
    · exact (ho (hsame ▸ ho')).elim
  | forced c | disabled c => exact transmitted_disconnected m s c _
  | late hp =>
    simp only [Session.step, Session.ring, expireWindow]
    split
    · rfl
    · simp

/-- **A connection that the session lets go of is silent.** -/
theorem Sound.letsGo (hs : s.Sound) {input : Input} (h : LetsGo m s c input) :
    (input ≠ .close → handedTo c (Effect.transmitted (s.step m input).2) = []) ∧
      ∀ later, handedTo c (Effect.transmitted ((s.step m input).1.run later).2) = [] := by
  have hs' := hs.step m input
  have hdropped (h : (s.step m input).1.Dropped c) := Dropped.run hs'.1 h
  cases h with
  | superseded hp hi =>
    subst hi
    obtain ⟨hnone, hd⟩ := (opens_connect m s).1.dropped hs.1 hp
    exact ⟨fun _ => hnone, hdropped hd⟩
  | replaced c' ha hcc ha' =>
    obtain ⟨hnone, hd⟩ := (hs.1.step_goes m input).replaced hs.1 ha hcc ha'
    exact ⟨fun _ => hnone, hdropped hd⟩
  | late hp hi =>
    subst hi
    have hring : s.step m (.ring (.handshake c)) =
        ({ s with pending := none }, [.close c false]) := if_pos (awaits_iff.mpr hp)
    rw [hring] at hdropped ⊢
    exact ⟨fun _ => rfl, hdropped ⟨hs.1.numbered_of_awaits hp, not_awaits_of_none rfl,
      fun ha => hs.1.not_awaits ha hp⟩⟩
  | lost forced hn hi =>
    subst hi
    refine ⟨fun _ => ?_, hdropped (hs.1.dropped_disconnected m hn forced)⟩
    exact congrArg (handedTo c) (transmitted_disconnected m s c forced)
  | ended ho =>
    refine ⟨fun hi => ?_, fun later => ?_⟩
    · by_cases hover : s.lifecycle.Over
      · rw [((hs.gone hover).step m input).transmitted]
        rfl
      · rw [hs.1.transmitted_ending m hover ho hi]
        rfl
    · rw [((hs'.gone ho).run later).transmitted]
      rfl

end Session

end Tether
