import Mathlib.Logic.Relation
import Tether.Proofs.Linked.Basic

/-!
# What an event means for each connection

An event is a sequence of small shifts (`shifts_step`), in each of which one side moves
on. For a connection a shift is one of a few turns (`Turn`): a message is handed to it
or comes off it, a side gets a number for it, messages on it are lost, or the shift has
to do with something else. So what each turn preserves holds of every connection at all
times.
-/

namespace Tether

/-! ### Lanes -/

namespace Lane

variable (l : Lane)

@[simp] theorem pushAll_append (t t' : List Transmission) :
    l.pushAll (t ++ t') = (l.pushAll t).pushAll t' := by
  induction t generalizing l with
  | nil => rfl
  | cons τ t ih => exact ih _

/-- A message is lost, or on the way if nothing was lost before. -/
theorem push_cases (x : Message) (taken : Bool) :
    ((l.push x taken).queue = l.queue ∧ (l.push x taken).broken = true) ∨
      (l.broken = false ∧ l.push x taken = { l with queue := l.queue ++ [x] }) := by
  unfold push
  by_cases hb : l.broken = true
  · rw [if_pos hb]
    exact .inl ⟨rfl, hb⟩
  rw [if_neg hb]
  split
  · exact .inr ⟨by simpa using hb, rfl⟩
  · exact .inl ⟨rfl, rfl⟩

theorem pushAll_of_broken (h : l.broken = true) (t : List Transmission) : l.pushAll t = l := by
  induction t with
  | nil => rfl
  | cons τ t ih =>
    rw [pushAll, push, if_pos h]
    exact ih

/-- **What arrives is a prefix of what is handed over**, and all of it unless something
is lost. -/
theorem exists_pushAll (t : List Transmission) : ∃ p, p <+: t.map (·.message) ∧
    (l.pushAll t).queue = l.queue ++ p ∧
      ((l.pushAll t).broken = false →
        l.broken = false ∧ p = t.map (·.message) ∧ ∀ τ ∈ t, τ.taken = true) := by
  induction t generalizing l with
  | nil => exact ⟨[], List.nil_prefix, by simp [pushAll], fun h => ⟨h, rfl, List.forall_mem_nil _⟩⟩
  | cons τ t ih =>
    by_cases hb : l.broken = true
    · rw [pushAll_of_broken l hb]
      exact ⟨[], List.nil_prefix, by simp, fun h => absurd hb (by simp [h])⟩
    by_cases ht : τ.taken = true
    · obtain ⟨p, hp, hqueue, hall⟩ := ih { l with queue := l.queue ++ [τ.message] }
      have hpush : l.push τ.message τ.taken = { l with queue := l.queue ++ [τ.message] } := by
        rw [push, if_neg hb, if_pos ht]
      refine ⟨τ.message :: p, List.cons_prefix_cons.mpr ⟨rfl, hp⟩, ?_, fun h => ?_⟩
      · rw [pushAll, hpush, hqueue]
        simp
      · rw [pushAll, hpush] at h
        obtain ⟨hl, rfl, htaken⟩ := hall h
        exact ⟨hl, rfl, List.forall_mem_cons.mpr ⟨ht, htaken⟩⟩
    · have hpush : l.push τ.message τ.taken = { l with broken := true } := by
        rw [push, if_neg hb, if_neg ht]
      rw [pushAll, hpush, pushAll_of_broken _ rfl]
      exact ⟨[], List.nil_prefix, by simp, fun h => absurd h (by simp)⟩

theorem mem_pushAll {t : List Transmission} {x : Message} (h : x ∈ (l.pushAll t).queue) :
    x ∈ l.queue ∨ ∃ τ ∈ t, τ.message = x := by
  obtain ⟨p, hp, hqueue, -⟩ := l.exists_pushAll t
  rw [hqueue] at h
  exact (List.mem_append.mp h).imp_right fun h => List.mem_map.mp (hp.subset h)

theorem lose_prefix (keep : Nat) : (l.lose keep).queue <+: l.queue := by
  unfold lose
  split
  · exact List.take_prefix _ _
  · exact List.prefix_rfl

/-- If nothing is broken, nothing was lost. -/
theorem lose_of_not_broken {keep : Nat} (h : (l.lose keep).broken = false) : l.lose keep = l := by
  unfold lose at h ⊢
  split at h
  · cases h
  · next hk => rw [if_neg hk]

end Lane

/-! ### Connections -/

namespace Link

variable {l : Link} {r : Role} {t t' : List Transmission}

@[simp] theorem carry_lane : (l.carry r t).lane r = l.lane r :=
  Function.update_of_ne (Role.other_ne r).symm _ _

@[simp] theorem carry_lane_other :
    (l.carry r t).lane r.other = (l.lane r.other).pushAll (l.share r t) :=
  Function.update_self _ _ _

@[simp] theorem pop_lane : (l.pop r).lane r = (l.lane r).pop := Function.update_self _ _ _

@[simp] theorem pop_lane_other : (l.pop r).lane r.other = l.lane r.other :=
  Function.update_of_ne (Role.other_ne r) _ _

theorem pop_lane_of_cons {x : Message} {rest : List Message} (hq : (l.lane r).queue = x :: rest) :
    (l.pop r).lane r = ⟨rest, (l.lane r).broken⟩ := by
  rw [pop_lane, Lane.pop, hq]
  rfl

theorem carry_pop_lane_of_cons {x : Message} {rest : List Message}
    (hq : (l.lane r).queue = x :: rest) :
    ((l.pop r).carry r t).lane r = ⟨rest, (l.lane r).broken⟩ :=
  carry_lane.trans (pop_lane_of_cons hq)

theorem carry_lane_self : (l.carry r.other t).lane r = (l.lane r).pushAll (l.share r.other t) := by
  simpa using carry_lane_other (l := l) (r := r.other) (t := t)

theorem pop_lane_self : (l.pop r.other).lane r = l.lane r := by
  simpa using pop_lane_other (l := l) (r := r.other)

@[simp] theorem lose_lane {keep : Nat} : (l.lose r keep).lane r = (l.lane r).lose keep :=
  Function.update_self _ _ _

@[simp] theorem lose_lane_other {keep : Nat} : (l.lose r keep).lane r.other = l.lane r.other :=
  Function.update_of_ne (Role.other_ne r) _ _

@[simp] theorem attach_conn {c : ConnectionId} : (l.attach r c).conn r = some c :=
  Function.update_self _ _ _

@[simp] theorem attach_conn_other {c : ConnectionId} :
    (l.attach r c).conn r.other = l.conn r.other :=
  Function.update_of_ne (Role.other_ne r) _ _

@[simp] theorem carry_nil : l.carry r [] = l := by
  simp [carry, share, Lane.pushAll]

theorem carry_append : l.carry r (t ++ t') = (l.carry r t).carry r t' := by
  simp only [carry, share, List.filter_append, Lane.pushAll_append, Function.update_self,
    Function.update_idem]
  rfl

/-- Messages that are handed to other connections do not matter. -/
theorem carry_of_ne (h : ∀ τ ∈ t, l.conn r ≠ some τ.conn) : l.carry r t = l := by
  have hshare : l.share r t = [] := List.filter_eq_nil_iff.mpr fun τ hτ => by simpa using h τ hτ
  simp [carry, hshare, Lane.pushAll]

/-- Messages that are all handed to the connection are on the way. -/
theorem carry_of_eq (h : ∀ τ ∈ t, l.conn r = some τ.conn) : l.carry r t =
    { l with lane := Function.update l.lane r.other ((l.lane r.other).pushAll t) } := by
  have hshare : l.share r t = t := List.filter_eq_self.mpr fun τ hτ => by simpa using h τ hτ
  rw [carry, hshare]

theorem pop_subset (l : Link) (r r' : Role) :
    ((l.pop r).lane r').queue ⊆ (l.lane r').queue := by
  rcases Role.eq_or_eq_other r r' with rfl | rfl
  · rw [pop_lane]
    exact fun _ => List.mem_of_mem_tail
  · rw [pop_lane_other]
    exact List.Subset.refl _

/-- What is left of what was on the way. -/
theorem lose_prefix (l : Link) (r : Role) (keep : Nat) (r' : Role) :
    ((l.lose r keep).lane r').queue <+: (l.lane r').queue ∧
      (((l.lose r keep).lane r').broken = false → (l.lose r keep).lane r' = l.lane r') := by
  rcases Role.eq_or_eq_other r r' with rfl | rfl
  · rw [lose_lane]
    exact ⟨Lane.lose_prefix _ _, Lane.lose_of_not_broken _⟩
  · rw [lose_lane_other]
    exact ⟨List.prefix_rfl, fun _ => rfl⟩

theorem lose_subset (l : Link) (r : Role) (keep : Nat) (r' : Role) :
    ((l.lose r keep).lane r').queue ⊆ (l.lane r').queue :=
  (l.lose_prefix r keep r').1.subset

theorem mem_carry {r' : Role} {x : Message} (h : x ∈ ((l.carry r t).lane r').queue) :
    x ∈ (l.lane r').queue ∨ r' = r.other ∧ ∃ τ ∈ t, τ.message = x := by
  rcases Role.eq_or_eq_other r r' with rfl | rfl
  · rw [carry_lane] at h
    exact .inl h
  · rw [carry_lane_other] at h
    rcases Lane.mem_pushAll _ h with h | ⟨τ, hτ, hx⟩
    · exact .inl h
    · exact .inr ⟨rfl, τ, (List.mem_filter.mp hτ).1, hx⟩

/-- The side has the connection active. -/
def ActiveFor (l : Link) (r : Role) (s : Session) : Prop :=
  ∃ c, l.conn r = some c ∧ s.active = some c

/-- The side waits for the handshake on the connection. -/
def PendingFor (l : Link) (r : Role) (s : Session) : Prop := ∃ c, l.conn r = some c ∧ s.Awaits c

/-- The side has no later connection. -/
def LatestFor (l : Link) (r : Role) (s : Session) : Prop :=
  ∃ c, l.conn r = some c ∧ s.nextConnection = c + 1

/-- A side without an active connection does not have this one active. -/
theorem not_activeFor {s : Session} (h : s.active = none) : ¬ l.ActiveFor r s := by
  rintro ⟨c, -, ha⟩
  cases h.symm.trans ha

/-- A side without a pending connection does not wait on this one. -/
theorem not_pendingFor {s : Session} (h : s.pending = none) : ¬ l.PendingFor r s := by
  rintro ⟨c, -, p, hp, -⟩
  rw [h] at hp
  cases hp

theorem not_active_of_pending {s : Session} (hs : s.Coherent) (h : l.PendingFor r s) :
    ¬ l.ActiveFor r s := by
  rintro ⟨c, hc, ha⟩
  obtain ⟨c', hc', hp⟩ := h
  cases hc.symm.trans hc'
  exact hs.not_awaits ha hp

/-! ### Turns -/

/-- The side goes on, and hands nothing to the connection. -/
structure Apart (l : Link) (r : Role) (a a' : Session) : Prop where
  active : l.ActiveFor r a' → l.ActiveFor r a
  pending : l.PendingFor r a' → l.PendingFor r a
  latest : l.LatestFor r a' → l.LatestFor r a
  received : l.ActiveFor r a' → a'.inbox.received = a.inbox.received
  outbox : l.ActiveFor r a' → a'.outbox = a.outbox
  /-- A client notes what it received when it opens another connection. -/
  acked : l.ActiveFor r a' → a'.inbox.acked = a.inbox.acked ∨ (r = .client ∧ ¬ l.LatestFor r a')

/-- The side hands a message to the connection, which it has active. -/
structure Hands (l : Link) (r : Role) (a a' : Session) (x : Message) : Prop where
  before : l.ActiveFor r a
  ordinary : x.kind.Ordinary
  /-- A payload has the next number. -/
  number : (x.kind = .send ∧ x.seq = a.outbox.next ∧ a'.outbox.next = a.outbox.next + 1) ∨
    (x.kind ≠ .send ∧ a'.outbox.next = a.outbox.next)
  pending : l.PendingFor r a' → l.PendingFor r a
  latest : l.LatestFor r a' → l.LatestFor r a
  received : a'.inbox.received = a.inbox.received
  highestAck : a'.outbox.highestAck = a.outbox.highestAck
  acked : l.ActiveFor r a' → x.acked = a'.inbox.acked

/-- What a shift, in which a side goes on from `a` to `a'`, means for a connection. -/
inductive Turn (r : Role) (a a' : Session) (l : Link) : Link → Prop where
  /-- The shift has to do with something else. -/
  | aside (h : l.Apart r a a') : Turn r a a' l l
  /-- The side hands a message to it. -/
  | hands (c : ConnectionId) (x : Message) (taken : Bool) (hc : l.conn r = some c)
    (h : l.Hands r a a' x) : Turn r a a' l (l.carry r [⟨c, x, taken⟩])
  /-- The side gets a number for it. -/
  | opens (m : Moment) (t : List Transmission) (hc : l.conn r = none) (ho : ¬ a.lifecycle.Over)
    (h : a.Opens m a' t) : Turn r a a' l ((l.attach r a.nextConnection).carry r t)
  /-- A message comes on it. -/
  | hears (m : Moment) (c : ConnectionId) (x : Message) (rest : List Message)
    (t : List Transmission) (d : List Bytes) (hc : l.conn r = some c)
    (hq : (l.lane r).queue = x :: rest) (h : a.Hears m c x a' t d) :
    Turn r a a' l ((l.pop r).carry r t)
  /-- Messages on it are lost. -/
  | loses (keep : Nat) (h : a' = a) : Turn r a a' l (l.lose r keep)

theorem Apart.refl (l : Link) (r : Role) (a : Session) : l.Apart r a a where
  active := id
  pending := id
  latest := id
  received := fun _ => rfl
  outbox := fun _ => rfl
  acked := fun _ => .inl rfl

variable {m : Moment} {a a' : Session} {acc d : List Bytes}

/-- A connection that is not active afterwards has only to lose. -/
theorem Apart.of_inactive (hactive : ¬ l.ActiveFor r a')
    (hpending : l.PendingFor r a' → l.PendingFor r a)
    (hlatest : l.LatestFor r a' → l.LatestFor r a) : l.Apart r a a' where
  active := fun h => (hactive h).elim
  pending := hpending
  latest := hlatest
  received := fun h => (hactive h).elim
  outbox := fun h => (hactive h).elim
  acked := fun h => (hactive h).elim

/-- A message on the active connection is a turn of every connection. -/
theorem turn_say {c : ConnectionId} {x : Message} (hc : a.active = some c) (hx : x.kind.Ordinary)
    (hn : (x.kind = .send ∧ x.seq = a.outbox.next ∧ a'.outbox.next = a.outbox.next + 1) ∨
      (x.kind ≠ .send ∧ a'.outbox.next = a.outbox.next))
    (hactive : ∀ c', a'.active = some c' → c' = c ∧ x.acked = a'.inbox.acked)
    (hpending : ∀ p ∈ a'.pending, p ∈ a.pending) (hnext : a'.nextConnection = a.nextConnection)
    (hreceived : a'.inbox.received = a.inbox.received)
    (hack : a'.outbox.highestAck = a.outbox.highestAck) :
    Turn r a a' l (l.carry r [Session.handing m c x]) := by
  have hpending' : l.PendingFor r a' → l.PendingFor r a :=
    fun ⟨c, hl, p, hp, hpc⟩ => ⟨c, hl, p, hpending p hp, hpc⟩
  have hlatest : l.LatestFor r a' → l.LatestFor r a := fun ⟨c, hl, h⟩ => ⟨c, hl, hnext ▸ h⟩
  by_cases hl : l.conn r = some c
  · exact .hands c x _ hl {
      before := ⟨c, hl, hc⟩
      ordinary := hx
      number := hn
      pending := hpending'
      latest := hlatest
      received := hreceived
      highestAck := hack
      acked := fun ⟨c', _, ha⟩ => (hactive c' ha).2 }
  · rw [carry_of_ne fun τ hτ => by rw [List.mem_singleton.mp hτ]; exact hl]
    refine .aside (.of_inactive ?_ hpending' hlatest)
    rintro ⟨c', hl', ha⟩
    exact hl ((hactive c' ha).1 ▸ hl')

/-- A move is a turn of every connection. -/
theorem turn_move (h : a.Move m a' t acc) : Turn r a a' l (l.carry r t) := by
  have hsame := Apart.refl l r a
  cases h with
  | wait =>
    rw [carry_nil]
    exact .aside { hsame with }
  | giveUp =>
    rw [carry_nil]
    exact .aside { hsame with pending := fun hp => (not_pendingFor rfl hp).elim }
  | defer payload unsent hc =>
    rw [carry_nil]
    exact .aside (.of_inactive (not_activeFor hc) id id)
  | lose lifecycle hp =>
    rw [carry_nil]
    exact .aside (.of_inactive (not_activeFor rfl) id id)
  | finish lifecycle terminated ho =>
    rw [carry_nil]
    exact .aside (.of_inactive (not_activeFor rfl) (fun hp => (not_pendingFor rfl hp).elim) id)
  | send c payload unsent hc =>
    exact turn_say hc (.inl rfl) (.inl ⟨rfl, rfl, rfl⟩)
      (fun c' ha => ⟨Option.some.inj (ha.symm.trans hc), rfl⟩) (fun _ hp => hp) rfl rfl rfl
  | flush c hc =>
    exact turn_say hc (.inr (.inl rfl)) (.inr ⟨nofun, rfl⟩)
      (fun c' ha => ⟨Option.some.inj (ha.symm.trans hc), rfl⟩) (fun _ hp => hp) rfl rfl rfl
  | farewell c lifecycle terminated hc ho =>
    exact turn_say hc (.inr (.inr rfl)) (.inr ⟨nofun, rfl⟩) (fun _ ha => by cases ha)
      (fun _ hp => by cases hp) rfl rfl rfl

/-- A new connection means nothing for the others. -/
theorem apart_opens (h : a.Opens m a' t) (hrole : a.role = r)
    (hold : ∀ c, l.conn r = some c → c < a.nextConnection) : l.Apart r a a' := by
  have hsame := Apart.refl l r a
  cases h with
  | refused => exact hsame
  | asks deadline ho hr =>
    have hlatest : ¬ l.LatestFor r { a with
        nextConnection := a.nextConnection + 1, pending := some ⟨a.nextConnection, deadline⟩,
        inbox := a.inbox.flush } := by
      rintro ⟨c, hc, hn⟩
      exact (hold c hc).ne (Nat.succ_injective hn).symm
    exact { hsame with
      pending := fun ⟨c, hc, p, hp, hpc⟩ => by
        cases hp
        exact ((hold c hc).ne hpc.symm).elim
      latest := fun h => (hlatest h).elim
      acked := fun _ => .inr ⟨hrole.symm.trans hr, hlatest⟩ }
  | waits deadline ho hr =>
    exact { hsame with
      pending := fun ⟨c, hc, p, hp, hpc⟩ => by
        cases hp
        exact ((hold c hc).ne hpc.symm).elim
      latest := fun ⟨c, hc, hn⟩ => ((hold c hc).ne (Nat.succ_injective hn).symm).elim
      acked := fun _ => .inl rfl }

/-- A message on another connection means nothing for this one, but that it may no longer
be active. -/
theorem apart_hears {c : ConnectionId} {x : Message} (h : a.Hears m c x a' t d)
    (hl : l.conn r ≠ some c) : l.Apart r a a' := by
  have hsame := Apart.refl l r a
  have hother : ∀ {s : Session}, s.active = some c → ¬ l.ActiveFor r s := fun hs ⟨c', hc', ha⟩ =>
    hl (hs.symm.trans ha ▸ hc')
  cases h with
  | ignored => exact hsame
  | completed lifecycle waiting hc hk hp =>
    exact .of_inactive (hother rfl) (fun hp => (not_pendingFor rfl hp).elim) id
  | held waiting hc | answered waiting hc | repeated waiting hc | acked waiting hc =>
    exact .of_inactive (hother hc) id id
  | left waiting lifecycle hc hk ho =>
    exact .of_inactive (not_activeFor rfl) (fun hp => (not_pendingFor rfl hp).elim) id

end Link

/-! ### Shifts -/

namespace Linked

/-- **The connections belong to the two sides**: each has its own number on each side,
and carries only what the other side handed over. -/
structure Wired (f : Linked) (id : SessionId) : Prop where
  agree : f.peers.Agree id
  numbered : ∀ i r c, (f.links i).conn r = some c → c < (f.session r).nextConnection
  distinct : ∀ i j r c, (f.links i).conn r = some c → (f.links j).conn r = some c → i = j
  handed : ∀ i r, ∀ x ∈ ((f.links i).lane r).queue, x ∈ (f.peers r.other).handed

/-- One side goes on, and the connections with it. -/
structure Shift (id : SessionId) (f f' : Linked) : Prop where
  before : f.Wired id
  after : f'.Wired id
  turn : ∃ r a, f'.session r.other = f.session r.other ∧ (f.session r).Progress (f'.session r) a ∧
    ∀ i, Link.Turn r (f.session r) (f'.session r) (f.links i) (f'.links i)

variable {f : Linked} {id : SessionId} {side : Role} {m : Moment} {s' : Session}
  {t t' : List Transmission} {a d : List Bytes} {links : Nat → Link}

/-- What comes next was handed over by the other side. -/
theorem Wired.handed_of_cons (h : f.Wired id) {i : Nat} {x : Message} {rest : List Message}
    (hq : ((f.links i).lane side).queue = x :: rest) : x ∈ (f.peers side.other).handed := by
  refine h.handed i side x ?_
  rw [hq]
  exact List.mem_cons_self

@[simp] theorem settle_session (p : Peer) : (f.settle side p t).session side = p.session :=
  congrArg Peer.session (Function.update_self _ _ _)

@[simp] theorem settle_session_other (p : Peer) :
    (f.settle side p t).session side.other = f.session side.other :=
  congrArg Peer.session (Function.update_of_ne side.other_ne _ _)

theorem settle_session_self (p : Peer) :
    (f.settle side.other p t).session side = f.session side := by
  simpa using @settle_session_other f side.other t p

theorem settle_peers (p : Peer) : (f.settle side p t).peers side = p := Function.update_self _ _ _

theorem settle_peers_other (p : Peer) :
    (f.settle side p t).peers side.other = f.peers side.other :=
  Function.update_of_ne side.other_ne _ _

theorem settle_links (p : Peer) (i : Nat) :
    (f.settle side p t).links i = (f.links i).carry side t := rfl

theorem relink_links_self (f : Linked) (i : Nat) (l : Link) : (f.relink i l).links i = l :=
  Function.update_self _ _ _

theorem relink_links_of_ne {i j : Nat} {l : Link} (hj : j ≠ i) :
    (f.relink i l).links j = f.links j := Function.update_of_ne hj _ _

theorem settle_settle (p p' : Peer) :
    (f.settle side p t).settle side p' t' = f.settle side p' (t ++ t') := by
  simp only [settle, Function.update_idem, Link.carry_append]

/-- The connections still belong to the two sides after one of them went on. -/
theorem Wired.settle (h : f.Wired id)
    (hagree : Peers.Agree (Function.update f.peers side ((f.peers side).after s' t a d)) id)
    (hnumbered : ∀ i c, (links i).conn side = some c → c < s'.nextConnection)
    (hother : ∀ i, (links i).conn side.other = (f.links i).conn side.other)
    (hdistinct : ∀ i j c, (links i).conn side = some c → (links j).conn side = some c → i = j)
    (hlane : ∀ i r, ∀ x ∈ ((links i).lane r).queue, x ∈ ((f.links i).lane r).queue) :
    (({ f with links } : Linked).settle side ((f.peers side).after s' t a d) t).Wired id where
  agree := hagree
  numbered := fun i r c hc => by
    rcases Role.eq_or_eq_other side r with rfl | rfl
    · rw [settle_session]
      exact hnumbered i c hc
    · rw [settle_session_other]
      exact h.numbered i _ c ((hother i).symm.trans hc)
  distinct := fun i j r c hi hj => by
    rcases Role.eq_or_eq_other side r with rfl | rfl
    · exact hdistinct i j c hi hj
    · exact h.distinct i j _ c ((hother i).symm.trans hi) ((hother j).symm.trans hj)
  handed := fun i r x hx => by
    rcases Link.mem_carry hx with hx | ⟨rfl, τ, hτ, rfl⟩
    · have hold := h.handed i r x (hlane i r x hx)
      rcases Role.eq_or_eq_other side r with rfl | rfl
      · simp only [Linked.settle, Function.update_of_ne (Role.other_ne _)]
        exact hold
      · rw [Role.other_other] at hold ⊢
        simp only [Linked.settle, Function.update_self]
        exact List.mem_append_left _ hold
    · simp only [Role.other_other, Linked.settle, Function.update_self]
      exact List.mem_append_right _ (List.mem_map_of_mem hτ)

/-- A move is a shift. -/
theorem Wired.move (h : f.Wired id) (hm : (f.session side).Move m s' t a) :
    Shift id f (f.settle side ((f.peers side).after s' t a []) t) where
  before := h
  after := by
    have hnext : (f.session side).nextConnection = s'.nextConnection := by
      cases hm <;> rfl
    exact h.settle (h.agree.move hm) (fun i c hc => hnext ▸ h.numbered i side c hc) (fun _ => rfl)
      (fun i j c => h.distinct i j side c) (fun _ _ _ hx => hx)
  turn := by
    refine ⟨side, a, settle_session_other _, ?_, fun i => ?_⟩
    · rw [settle_session]
      exact hm.progress (h.agree.sound side).coherent
    · rw [settle_session]
      exact Link.turn_move hm

/-- Moves are shifts. -/
theorem Wired.moves (h : f.Wired id) {s : Session} (hs : f.session side = s)
    (hm : s.Moves m s' t a) :
    Relation.ReflTransGen (Shift id) f (f.settle side ((f.peers side).after s' t a []) t) := by
  induction hm generalizing f with
  | nil s =>
    subst hs
    have hsame : f.settle side ((f.peers side).after (f.session side) [] [] []) [] = f := by
      simp [Linked.settle, Linked.session]
    rw [hsame]
  | cons hone _ ih =>
    subst hs
    have hfirst := h.move hone
    have hrest := ih hfirst.after (settle_session _)
    rw [settle_settle] at hrest
    simp only [Linked.settle, Function.update_self, Peer.after_after, List.append_nil] at hrest
    exact .head hfirst hrest

/-! One connection changes. -/

section
variable {i : Nat} {l : Link}

theorem conn_update (hl : l.conn = (f.links i).conn) (j : Nat) :
    (Function.update f.links i l j).conn = (f.links j).conn := by
  by_cases hj : j = i
  · subst hj
    rw [Function.update_self, hl]
  · rw [Function.update_of_ne hj]

theorem lane_update_subset (hl : ∀ r, (l.lane r).queue ⊆ ((f.links i).lane r).queue) (j : Nat)
    (r : Role) : ((Function.update f.links i l j).lane r).queue ⊆ ((f.links j).lane r).queue := by
  by_cases hj : j = i
  · subst hj
    rw [Function.update_self]
    exact hl r
  · rw [Function.update_of_ne hj]
    exact List.Subset.refl _

end

/-- A new connection is a shift. -/
theorem Wired.opens (h : f.Wired id) {i : Nat} (hi : (f.links i).conn side = none)
    (ho : ¬ (f.session side).lifecycle.Over) (hm : (f.session side).Opens m s' t) :
    Shift id f ((f.relink i ((f.links i).attach side (f.session side).nextConnection)).settle side
      ((f.peers side).after s' t [] []) t) := by
  have hnext : s'.nextConnection = (f.session side).nextConnection + 1 := by
    cases hm with
    | refused ho' => exact (ho ho').elim
    | asks | waits => rfl
  have hconn : ∀ τ ∈ t, τ.conn = (f.session side).nextConnection := by
    intro τ hτ
    cases hm with
    | refused | waits => cases hτ
    | asks => rw [List.mem_singleton.mp hτ]; rfl
  have hcases : ∀ {j c}, (Function.update f.links i
      ((f.links i).attach side (f.session side).nextConnection) j).conn side = some c →
        (j = i ∧ c = (f.session side).nextConnection) ∨ (f.links j).conn side = some c := by
    intro j c hc
    by_cases hj : j = i
    · subst hj
      rw [Function.update_self, Link.attach_conn] at hc
      exact .inl ⟨rfl, (Option.some.inj hc).symm⟩
    · rw [Function.update_of_ne hj] at hc
      exact .inr hc
  have hold : ∀ {j c}, (f.links j).conn side = some c → c < (f.session side).nextConnection :=
    fun hc => h.numbered _ side _ hc
  have hlane := lane_update_subset (f := f) (i := i)
    (l := (f.links i).attach side (f.session side).nextConnection) fun _ => List.Subset.refl _
  refine ⟨h, h.settle (h.agree.opens hm) (fun j c hc => ?_) (fun j => ?_)
    (fun j k c hj hk => ?_) (fun j r _ hx => hlane j r hx), side, [], settle_session_other _, ?_,
    fun j => ?_⟩
  · rcases hcases hc with ⟨-, rfl⟩ | hc
    · exact hnext ▸ Nat.lt_succ_self _
    · exact hnext ▸ Nat.lt_succ_of_lt (hold hc)
  · by_cases hj : j = i
    · subst hj
      rw [Function.update_self, Link.attach_conn_other]
    · rw [Function.update_of_ne hj]
  · rcases hcases hj with ⟨rfl, rfl⟩ | hj' <;> rcases hcases hk with ⟨rfl, hc⟩ | hk'
    · rfl
    · exact absurd (hold hk') (lt_irrefl _)
    · exact absurd (hold hj') (hc ▸ lt_irrefl _)
    · exact h.distinct j k side c hj' hk'
  · rw [settle_session]
    exact hm.progress (h.agree.sound side).coherent
  · rw [settle_session, settle_links]
    by_cases hj : j = i
    · subst hj
      rw [relink_links_self]
      exact .opens m t hi ho hm
    · rw [relink_links_of_ne hj, Link.carry_of_ne fun τ hτ hc => ?_]
      · exact .aside (Link.apart_opens hm (h.agree.sound side).role fun c hc => hold hc)
      · exact absurd (hold hc) (hconn τ hτ ▸ lt_irrefl _)

/-- A message that arrives is a shift. -/
theorem Wired.hears (h : f.Wired id) {i : Nat} {c : ConnectionId} {x : Message}
    {rest : List Message} (hc : (f.links i).conn side = some c)
    (hq : ((f.links i).lane side).queue = x :: rest) (hm : (f.session side).Hears m c x s' t d) :
    Shift id f ((f.relink i ((f.links i).pop side)).settle side ((f.peers side).after s' t [] d) t) := by
  have hsays := (h.agree.sound side.other).truthful x (h.handed_of_cons hq)
  have hnext : s'.nextConnection = (f.session side).nextConnection := by
    cases hm <;> rfl
  have hconn := conn_update (f := f) (i := i) (l := (f.links i).pop side) rfl
  have hlane := lane_update_subset (f := f) (i := i) ((f.links i).pop_subset side)
  have hto : ∀ τ ∈ t, τ.conn = c := by
    intro τ hτ
    cases hm with
    | ignored | held | acked | left => cases hτ
    | answered | repeated => rw [List.mem_singleton.mp hτ]; rfl
    | completed => exact Session.welcome_conn hτ
  refine ⟨h, h.settle (h.agree.hears hsays hm) (fun j c' hc' => ?_) (fun j => congrFun (hconn j) _)
    (fun j k c' hj hk => ?_) (fun j r _ hx => hlane j r hx), side, [], settle_session_other _, ?_,
    fun j => ?_⟩
  · rw [hconn] at hc'
    exact hnext ▸ h.numbered j side c' hc'
  · rw [hconn] at hj hk
    exact h.distinct j k side c' hj hk
  · rw [settle_session]
    exact hm.progress (h.agree.sound side).coherent
  · rw [settle_session, settle_links]
    by_cases hj : j = i
    · subst hj
      rw [relink_links_self]
      exact .hears m c x rest t d hc hq hm
    · have hne : (f.links j).conn side ≠ some c := fun hc' => hj (h.distinct j i side c hc' hc)
      rw [relink_links_of_ne hj, Link.carry_of_ne fun τ hτ => hto τ hτ ▸ hne]
      exact .aside (Link.apart_hears hm hne)

/-- A loss is a shift. -/
theorem Wired.loses (h : f.Wired id) (side : Role) (i keep : Nat) :
    Shift id f (f.relink i ((f.links i).lose side keep)) := by
  have hconn := conn_update (f := f) (i := i) (l := (f.links i).lose side keep) rfl
  have hlane := lane_update_subset (f := f) (i := i) ((f.links i).lose_subset side keep)
  refine ⟨h, ⟨h.agree, fun j r c hc => ?_, fun j k r c hj hk => ?_, fun j r x hx => ?_⟩, side, [], rfl,
    .refl _, fun j => ?_⟩
  · exact h.numbered j r c (hconn j ▸ hc)
  · exact h.distinct j k r c (hconn j ▸ hj) (hconn k ▸ hk)
  · exact h.handed j r x (hlane j r hx)
  · by_cases hj : j = i
    · subst hj
      rw [relink_links_self]
      exact .loses keep rfl
    · rw [relink_links_of_ne hj]
      exact .aside (.refl _ _ _)

/-- A side gets a number for a connection, or nothing happens. -/
theorem connect_cases (f : Linked) (side : Role) (m : Moment) (i : Nat) :
    f.step (.connect side m i) = f ∨ ∃ s' t, (f.links i).conn side = none ∧
      ¬ (f.session side).lifecycle.Over ∧ (f.session side).Opens m s' t ∧
        f.step (.connect side m i) =
          (f.relink i ((f.links i).attach side (f.session side).nextConnection)).settle side
            ((f.peers side).after s' t [] []) t := by
  simp only [step]
  split
  · next hi =>
    by_cases ho : (f.session side).lifecycle.Over
    · simp only [Session.connect, if_pos ho]
      exact .inl trivial
    · obtain ⟨hopens, hnone⟩ := Session.opens_connect m (f.session side)
      have hanswer := Session.connect_of_not_over m ho
      have hact : (f.peers side).act m .connect = (f.peers side).after
          ((f.session side).connect m).session
          (Effect.transmitted ((f.session side).connect m).effects) [] [] :=
        congrArg (Peer.after _ _ _ _) hnone
      split
      · exact .inl rfl
      · next heq =>
        rw [hact]
        rw [heq] at hanswer hopens ⊢
        cases hanswer
        exact .inr ⟨_, _, hi, ho, hopens, rfl⟩
  · exact .inl rfl

/-- A message arrives and is heard, or nothing happens. -/
theorem Wired.deliver_cases (h : f.Wired id) (side : Role) (m : Moment) (i : Nat) :
    f.step (.deliver side m i) = f ∨ ∃ c x rest s' t d, (f.links i).conn side = some c ∧
      ((f.links i).lane side).queue = x :: rest ∧ (f.session side).Hears m c x s' t d ∧
        f.step (.deliver side m i) =
          (f.relink i ((f.links i).pop side)).settle side ((f.peers side).after s' t [] d) t := by
  simp only [step]
  split
  · next c x rest hc hq =>
    split
    · next hr =>
      have hears := h.agree.receive m c (h.handed_of_cons hq) hr
      exact .inr ⟨c, x, rest, _, _, _, hc, hq, hears, rfl⟩
    · exact .inl rfl
  · exact .inl rfl

/-- **An event is a sequence of shifts.** -/
theorem Wired.shifts_step (h : f.Wired id) (e : Event) :
    Relation.ReflTransGen (Shift id) f (f.step e) := by
  cases e with
  | act side m input own =>
    obtain ⟨hmoves, hnone⟩ := (h.agree.sound side).coherent.step_moves m own
    have hact := h.moves rfl hmoves
    rw [← hnone] at hact
    exact hact
  | connect side m i =>
    rcases connect_cases f side m i with heq | ⟨s', t, hi, ho, hm, heq⟩ <;> rw [heq]
    exact .single (h.opens hi ho hm)
  | deliver side m i =>
    rcases h.deliver_cases side m i with heq | ⟨c, x, rest, s', t, d, hc, hq, hears, heq⟩ <;> rw [heq]
    exact .single (h.hears hc hq hears)
  | lose side i keep => exact .single (h.loses side i keep)

/-- What a side noted as acknowledged stays so. -/
theorem Wired.acked_step (h : f.Wired id) (e : Event) (r : Role) :
    (f.session r).inbox.acked ≤ ((f.step e).session r).inbox.acked := by
  have hall : ∀ {f' : Linked}, Relation.ReflTransGen (Shift id) f f' →
      (f.session r).inbox.acked ≤ (f'.session r).inbox.acked := by
    intro f' h
    induction h with
    | refl => exact le_rfl
    | tail _ hone ih =>
      obtain ⟨r', a, hother, hp, -⟩ := hone.turn
      rcases Role.eq_or_eq_other r' r with rfl | rfl
      · exact ih.trans hp.acked
      · exact hother ▸ ih
  exact hall (h.shifts_step e)

theorem Wired.step (h : f.Wired id) (e : Event) : (f.step e).Wired id := by
  rcases Relation.ReflTransGen.cases_tail (h.shifts_step e) with heq | ⟨g, -, hone⟩
  · rwa [heq]
  · exact hone.after

theorem Reachable.run (h : f.Reachable) (events : List Event) : (f.run events).Reachable := by
  obtain ⟨id, _, _, _, _, client, server, events', hc, hs, rfl⟩ := h
  exact ⟨id, _, _, _, _, client, server, events' ++ events, hc, hs, List.foldl_append.symm⟩

/-- What shifts preserve holds of every reachable state. -/
theorem Reachable.induction {P : Linked → Prop} (h : f.Reachable)
    (hbegin : ∀ client server, P (begin client server))
    (hshift : ∀ id f f', Shift id f f' → P f → P f') : P f ∧ ∃ id, f.Wired id := by
  obtain ⟨id, _, _, _, _, client, server, events, hc, hs, rfl⟩ := h
  have hshifts : ∀ {f f' : Linked}, Relation.ReflTransGen (Shift id) f f' →
      P f ∧ f.Wired id → P f' ∧ f'.Wired id := by
    intro f f' h hf
    induction h with
    | refl => exact hf
    | tail _ hone ih => exact ⟨hshift id _ _ hone ih.1, hone.after⟩
  have hrun : ∀ {f : Linked}, P f ∧ f.Wired id → P (f.run events) ∧ (f.run events).Wired id := by
    induction events with
    | nil => exact fun hf => hf
    | cons e events ih => exact fun hf => ih (hshifts (hf.2.shifts_step e) hf)
  have hwired : (begin client server).Wired id := {
    agree := .begin hc hs
    numbered := nofun
    distinct := nofun
    handed := nofun }
  obtain ⟨hP, hwired⟩ := hrun ⟨hbegin client server, hwired⟩
  exact ⟨hP, id, hwired⟩

end Linked

end Tether
