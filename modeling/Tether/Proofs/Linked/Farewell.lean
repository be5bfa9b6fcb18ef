import Tether.Proofs.Linked.Flow
import Tether.Proofs.Session.Connections

/-!
# A goodbye comes last

A session that is closed sends nothing again, whether the peer received it or not. Still the
peer misses nothing by it: a goodbye is on the way behind every payload that the peer did not
receive yet, and from then on no payload is accepted (`Link.Parting`). So when a goodbye comes
on the active connection, all that was ever accepted is delivered, and the goodbye is the last
that is told (`goodbye_comes_last`).
-/

namespace Tether

/-! ### Who says goodbye -/

namespace Session

variable {m : Moment} {s s' : Session} {t : List Transmission} {a d : List Bytes}
  {c : ConnectionId} {x : Message} {τ : Transmission}

/-- A session that says goodbye has no connection afterwards. -/
theorem Moves.inactive_of_goodbye (h : Moves m s s' t a) (hs : s.Coherent) (hτ : τ ∈ t)
    (hk : τ.message.kind = .goodbye) : s'.active = none := by
  induction h with
  | nil => cases hτ
  | cons hm hrest ih =>
    have hs' := hm.coherent hs
    rcases List.mem_append.mp hτ with hτ | hτ
    · cases hm with
      | farewell =>
        refine Option.eq_none_iff_forall_not_mem.mpr fun c hc => ?_
        cases (hrest.keeps hs').active c hc
      | wait | defer | giveUp | lose | finish => cases hτ
      | send | flush =>
        rw [List.mem_singleton.mp hτ] at hk
        cases hk
    · exact ih hs' hτ

/-- Of its own accord a session says goodbye only when it is closed. -/
theorem Coherent.close_of_goodbye (hs : s.Coherent) (m : Moment) {input : Input} (hi : input.Own)
    (hτ : τ ∈ Effect.transmitted (s.step m input).2) (hk : τ.message.kind = .goodbye) :
    input = .close := by
  obtain ⟨hmoves, -⟩ := hs.step_moves m hi
  have hactive : s.active = some τ.conn := ((hmoves.keeps hs).said τ hτ).2
  have hnone := hmoves.inactive_of_goodbye hs hτ hk
  have hsome : s.active ≠ none := fun h => by cases hactive.symm.trans h
  by_contra hclose
  rcases (hs.step_change m input).loss_of_inactive hsome hnone with ⟨c, rfl⟩ | hover
  · rw [Session.step, transmitted_disconnected] at hτ
    cases hτ
  · rw [hs.transmitted_ending m (hs.not_over hactive) hover hclose] at hτ
    cases hτ

/-- A session that has a connection says goodbye on it when it is closed. -/
theorem Coherent.close_of_active (hs : s.Coherent) (m : Moment) (hc : s.active = some c) :
    Effect.transmitted (s.close m).2 = [handing m c (.goodbye s.id)] ∧ (s.close m).1.Gone ∧
      (s.close m).1.outbox.next = s.outbox.next := by
  simp only [Session.close, Lifecycle.goodbye, if_neg (hs.not_over hc), hc, Option.toList_some,
    List.map_cons, List.map_nil, List.cons_append, List.nil_append, transmitted_transmit,
    transmitted_shutDown, true_and]
  exact ⟨⟨.inr rfl, rfl, rfl⟩, rfl⟩

/-- A new connection is no occasion for a goodbye. -/
theorem Opens.no_goodbye (h : Opens m s s' t) : ∀ τ ∈ t, τ.message.kind ≠ .goodbye := by
  intro τ hτ
  cases h with
  | refused | waits => cases hτ
  | asks =>
    rw [List.mem_singleton.mp hτ]
    nofun

/-- Nor is a message. -/
theorem Hears.no_goodbye (h : Hears m s c x s' t d) :
    ∀ τ ∈ t, τ.message.kind ≠ .goodbye := by
  intro τ hτ
  cases h with
  | ignored | held | acked | left => cases hτ
  | answered | repeated =>
    rw [List.mem_singleton.mp hτ]
    nofun
  | completed =>
    rcases List.mem_append.mp hτ with hτ | hτ
    · split at hτ
      · rw [List.mem_singleton.mp hτ]
        nofun
      · cases hτ
    · obtain ⟨r, -, hx⟩ := List.mem_map.mp (mem_handAll hτ).2
      rw [← hx]
      nofun

/-- A goodbye on the active connection ends the session, and is told. -/
theorem Coherent.receiveActive_goodbye (hs : s.Coherent) (m : Moment) (hc : s.active = some c)
    (hk : x.kind = .goodbye) : (s.receiveActive m c x).answer = .ok () ∧
      Effect.news (s.receiveActive m c x).effects = [.notice (.lost .goodbye)] ∧
        (s.receiveActive m c x).session.Gone := by
  simp only [Session.receiveActive, hk, Lifecycle.goodbye, if_neg (hs.not_over hc),
    Effect.news_append, news_shutDown, Effect.news_notify, Effect.news_nil, List.nil_append,
    true_and]
  exact ⟨.inr rfl, rfl, rfl⟩

/-- A session that is over hears nothing. -/
theorem Gone.hears (hs : s.Gone) (h : Hears m s c x s' t d) : s' = s ∧ t = [] := by
  have hactive : s.active ≠ some c := fun ha => by cases hs.active.symm.trans ha
  cases h with
  | ignored => exact ⟨rfl, rfl⟩
  | completed lifecycle waiting hc => exact (not_awaits_of_none hs.pending hc).elim
  | held waiting hc | answered waiting hc | repeated waiting hc | acked waiting hc
    | left waiting lifecycle hc => exact (hactive hc).elim

end Session

/-- A goodbye has a frame. -/
theorem Message.representable_goodbye (id : SessionId) : (Message.goodbye id).Representable where
  seq := (by decide : InRange noSequence)
  acked := (by decide : InRange noSequence)

/-! ### Goodbyes on the way -/

namespace Link

variable {l l' : Link} {r : Role} {s s' : Role → Session} {a' : Session} {m : Moment}
  {t : List Transmission} {d : List Bytes} {c : ConnectionId} {x : Message} {rest : List Message}

/-- A goodbye is on the way to a side. -/
def Farewell (l : Link) (r : Role) : Prop := ∃ x ∈ (l.lane r).queue, x.kind = .goodbye

/-- **The goodbye comes last**: the peer said it and is over, nothing is behind it, and all
payloads that the side did not receive yet are in front of it. -/
structure Parting (l : Link) (s : Role → Session) (r : Role) : Prop where
  gone : (s r.other).Gone
  /-- What is on the way ends with it. -/
  last : ∃ front, (l.lane r).queue = front ++ [.goodbye (s r.other).id] ∧
    ∀ y ∈ front, y.kind ≠ .goodbye
  /-- What the peer accepted is received, or on the way, unless the side is done with the
  connection. -/
  owed : l.ActiveFor r (s r) ∨ l.PendingFor r (s r) → ∀ n, (s r).inbox.received < n →
    n < (s r.other).outbox.next → n ∈ Message.numbers (l.lane r).queue

/-- What the two sides do, where it leaves what is on the way, what the peer is and what the
side still has to receive. -/
theorem Parting.mono (h : l.Parting s r) (hqueue : (l'.lane r).queue = (l.lane r).queue)
    (hgone : (s' r.other).Gone) (hid : (s' r.other).id = (s r.other).id)
    (hnext : (s' r.other).outbox.next = (s r.other).outbox.next)
    (hreceived : (s r).inbox.received ≤ (s' r).inbox.received)
    (hopen : l'.ActiveFor r (s' r) ∨ l'.PendingFor r (s' r) →
      l.ActiveFor r (s r) ∨ l.PendingFor r (s r)) : l'.Parting s' r where
  gone := hgone
  last := by
    rw [hqueue, hid]
    exact h.last
  owed := fun hr n hlow hhigh => by
    rw [hqueue]
    exact h.owed (hopen hr) n (hreceived.trans_lt hlow) (hnext ▸ hhigh)

/-- A goodbye that is on the way keeps what is in front of it. -/
theorem Parting.queue_eq (h : l.Parting s r) (hp : (l'.lane r).queue <+: (l.lane r).queue)
    (hg : l'.Farewell r) : (l'.lane r).queue = (l.lane r).queue := by
  obtain ⟨front, hqueue, hfront⟩ := h.last
  obtain ⟨x, hx, hk⟩ := hg
  rw [hqueue] at hp ⊢
  exact (List.prefix_concat_iff.mp hp).resolve_right fun hp => hfront x (hp.subset hx) hk

/-- The peer says goodbye on a connection that it has active: if nothing was lost before, all
that it accepted is on the way, or was received. -/
theorem Orderly.parting (h : l.Orderly s) (hc : l.conn r.other = some c)
    (hactive : (s r.other).active = some c) (hnone : ¬ l.Farewell r) {taken : Bool}
    (hg : (l.carry r.other [⟨c, .goodbye (s r.other).id, taken⟩]).Farewell r)
    (hgone : (s' r.other).Gone) (hid : (s' r.other).id = (s r.other).id)
    (hnext : (s' r.other).outbox.next = (s r.other).outbox.next) (hsame : s' r = s r) :
    (l.carry r.other [⟨c, .goodbye (s r.other).id, taken⟩]).Parting s' r := by
  have hshare : l.share r.other [⟨c, .goodbye (s r.other).id, taken⟩] =
      [⟨c, .goodbye (s r.other).id, taken⟩] :=
    List.filter_eq_self.mpr fun τ hτ => by
      rw [List.mem_singleton.mp hτ]
      exact decide_eq_true hc
  have hlane : (l.carry r.other [⟨c, .goodbye (s r.other).id, taken⟩]).lane r =
      (l.lane r).push (.goodbye (s r.other).id) taken := by
    rw [carry_lane_self, hshare]
    rfl
  rcases (l.lane r).push_cases (.goodbye (s r.other).id) taken with ⟨hq, -⟩ | ⟨hb, hq⟩
  · rw [Farewell, hlane, hq] at hg
    exact (hnone hg).elim
  refine ⟨hgone, ⟨(l.lane r).queue, ?_, fun y hy hk => hnone ⟨y, hy, hk⟩⟩, ?_⟩
  · rw [hlane, hq, hid]
  · intro hr n hlow hhigh
    rw [hsame] at hr hlow
    rw [hnext] at hhigh
    obtain ⟨low, high, hf⟩ := h.flow r hr
    have hstart := hf.next
    have hall := hf.all ⟨c, hc, hactive⟩ hb
    rw [hlane, hq]
    simp only [Message.numbers_append, hf.numbers]
    exact List.mem_append_left _ (Int.mem_range_iff.mpr ⟨by omega, by omega⟩)

/-- A session that has no other connections than before has not opened this one. -/
theorem open_mono {a : Session} (hactive : ∀ c ∈ a'.active, c ∈ a.active)
    (hpending : ∀ p ∈ a'.pending, p ∈ a.pending) (h : l.ActiveFor r a' ∨ l.PendingFor r a') :
    l.ActiveFor r a ∨ l.PendingFor r a := by
  rcases h with ⟨c, hc, ha⟩ | ⟨c, hc, p, hp, hpc⟩
  · exact .inl ⟨c, hc, hactive c ha⟩
  · exact .inr ⟨c, hc, p, hpending p hp, hpc⟩

/-- A message opens no connection. -/
theorem open_of_hears (hc : l.conn r = some c) {a : Session} (hm : a.Hears m c x a' t d)
    (h : l.ActiveFor r a' ∨ l.PendingFor r a') : l.ActiveFor r a ∨ l.PendingFor r a := by
  rcases hm.connections with ⟨-, hw, -⟩ | ⟨-, hactive, hpending⟩
  · exact .inr ⟨c, hc, hw⟩
  · exact open_mono hactive hpending h

/-- A payload that comes is received, or was before. -/
theorem Orderly.receives (h : l.Orderly s) (hrole : (s r).role = r) (hc : l.conn r = some c)
    (hq : (l.lane r).queue = x :: rest) (hk : x.kind = .send) (hm : (s r).Hears m c x a' t d)
    (hopen : l.ActiveFor r (s r) ∨ l.PendingFor r (s r)) : x.seq ≤ a'.inbox.received := by
  cases hm with
  | ignored hw ho =>
    obtain ⟨hactive, hpending⟩ := h.done_of_ignored hrole hc hq hw ho
    exact (hopen.elim hactive hpending).elim
  | completed lifecycle waiting hw hk' =>
    rw [hk] at hk'
    cases hr : (s r).role <;> rw [hr] at hk' <;> cases hk'
  | held | answered => exact le_rfl
  | repeated waiting ha _ hn =>
    have hle := h.not_gap ⟨c, hc, ha⟩ hq hk
    exact Int.lt_add_one_iff.mp (lt_of_le_of_ne hle hn)
  | acked _ _ hk' | left _ _ _ hk' =>
    rw [hk] at hk'
    cases hk'

/-- What comes was in front of the goodbye. -/
theorem Parting.hears (h : l.Parting s r) (ho : l.Orderly s) (hs : (s r).Coherent)
    (hrole : (s r).role = r) (hc : l.conn r = some c) (hq : (l.lane r).queue = x :: rest)
    (hm : (s r).Hears m c x a' t d) (hg : ((l.pop r).carry r t).Farewell r) (hself : s' r = a')
    (hother : s' r.other = s r.other) : ((l.pop r).carry r t).Parting s' r := by
  have hqueue : (((l.pop r).carry r t).lane r).queue = rest := by rw [carry_pop_lane_of_cons hq]
  obtain ⟨front, hlast, hfront⟩ := h.last
  rw [hq] at hlast
  rw [Farewell, hqueue] at hg
  cases front with
  | nil =>
    obtain ⟨y, hy, -⟩ := hg
    rw [(List.cons.inj hlast).2] at hy
    cases hy
  | cons y front =>
    have hrest : rest = front ++ [.goodbye (s r.other).id] := (List.cons.inj hlast).2
    have hfront := (List.forall_mem_cons.mp hfront).2
    refine ⟨hother ▸ h.gone, ⟨front, ?_, hfront⟩, fun hr n hlow hhigh => ?_⟩
    · rw [hqueue, hother, hrest]
    rw [hself] at hr hlow
    rw [hother] at hhigh
    have hopen := open_of_hears hc hm hr
    have hmem := h.owed hopen n ((hm.progress hs).received.trans_lt hlow) hhigh
    rw [hq, Message.mem_numbers] at hmem
    obtain ⟨z, hz, hk, rfl⟩ := hmem
    rw [hqueue]
    refine Message.mem_numbers.mpr ⟨z, (List.mem_cons.mp hz).resolve_left ?_, hk, rfl⟩
    rintro rfl
    exact hlow.not_ge (ho.receives hrole hc hq hk hm hopen)

/-- Nothing but a handshake comes on a connection that the side does not have yet. -/
theorem Orderly.no_farewell (h : l.Orderly s) (hc : l.conn r = none) : ¬ l.Farewell r := by
  rintro ⟨x, hx, hk⟩
  cases r with
  | client =>
    rw [(h.unasked hc).1 .client] at hx
    cases hx
  | server =>
    rcases (h.early (.inl hc)).2.2 with hnil | ⟨y, hq, hy⟩
    · rw [hnil] at hx
      cases hx
    · rw [hq] at hx
      rw [List.mem_singleton.mp hx, hy] at hk
      cases hk

end Link

namespace Linked

open Link (carry_lane carry_of_ne pop_lane_self)

variable {f : Linked} {id : SessionId} {r side : Role} {m : Moment} {i : Nat} {p : Peer}
  {t : List Transmission}

/-- **Every goodbye that is on the way comes last.** -/
def Parting (f : Linked) : Prop :=
  ∀ i r, (f.links i).Farewell r → (f.links i).Parting f.session r

/-- A side goes on, and nothing comes to it on the connection. -/
theorem Parting.receiver (links : Nat → Link) (h : (f.links i).Parting f.session r)
    (hqueue : ((links i).lane r).queue = ((f.links i).lane r).queue)
    (hreceived : (f.session r).inbox.received ≤ p.session.inbox.received)
    (hopen : (links i).ActiveFor r p.session ∨ (links i).PendingFor r p.session →
      (f.links i).ActiveFor r (f.session r) ∨ (f.links i).PendingFor r (f.session r)) :
    ((links i).carry r t).Parting (({ f with links } : Linked).settle r p t).session r := by
  have hself : (({ f with links } : Linked).settle r p t).session r = p.session :=
    settle_session p
  have hother : (({ f with links } : Linked).settle r p t).session r.other = f.session r.other :=
    settle_session_other p
  refine h.mono ?_ ?_ ?_ ?_ ?_ ?_
  · rw [carry_lane, hqueue]
  · rw [hother]
    exact h.gone
  · rw [hother]
  · rw [hother]
  · rw [hself]
    exact hreceived
  · rw [hself]
    exact hopen

/-- The side that said goodbye does nothing more. -/
theorem Parting.sender (links : Nat → Link) (h : (f.links i).Parting f.session r)
    (hqueue : ((links i).lane r).queue = ((f.links i).lane r).queue)
    (hconn : (links i).conn = (f.links i).conn) {e : List Effect}
    (hrests : (f.session r.other).Rests p.session e) (ht : t = []) :
    ((links i).carry r.other t).Parting
      (({ f with links } : Linked).settle r.other p t).session r := by
  subst ht
  have hself : (({ f with links } : Linked).settle r.other p []).session r.other = p.session :=
    settle_session p
  have hother : (({ f with links } : Linked).settle r.other p []).session r = f.session r :=
    settle_session_self _
  obtain ⟨waiting, nextTicket, heq⟩ := hrests.same
  rw [Link.carry_nil]
  refine h.mono hqueue ?_ ?_ ?_ ?_ ?_
  · rw [hself]
    exact hrests.gone h.gone
  · rw [hself, heq]
  · rw [hself, heq]
  · rw [hother]
  · rw [hother, Link.ActiveFor, Link.PendingFor, hconn]
    exact fun hr => hr

/-- A side acts of its own accord. -/
theorem Parting.act (h : f.Parting) (ho : f.Orderly) (hw : f.Wired id) {input : Session.Input}
    (own : input.Own) : (f.step (.act side m input own)).Parting := by
  have hs := (hw.agree.sound side).coherent
  have hkeeps := hs.step_keeps m input own
  intro i r hg
  rcases Role.eq_or_eq_other r side with rfl | rfl
  · refine Parting.receiver f.links (h i side ?_) rfl hkeeps.received.ge ?_
    · obtain ⟨x, hx, hk⟩ := hg
      exact ⟨x, carry_lane (l := f.links i) ▸ hx, hk⟩
    · exact Link.open_mono hkeeps.active hkeeps.pending
  by_cases hold : (f.links i).Farewell r
  · -- it said goodbye before, and does nothing any more
    have hrests := (h i r hold).gone.step m input
    exact Parting.sender f.links (h i r hold) rfl rfl hrests hrests.transmitted
  · -- it is closed
    obtain ⟨x, hx, hk⟩ := hg
    obtain ⟨-, τ, hτ, rfl⟩ := (Link.mem_carry hx).resolve_left fun hx => hold ⟨x, hx, hk⟩
    obtain rfl := hs.close_of_goodbye m own hτ hk
    have hactive : (f.session r.other).active = some τ.conn := (hkeeps.said τ hτ).2
    obtain ⟨hsaid, hgone, hnext⟩ := hs.close_of_active m hactive
    have hlink : (f.step (.act r.other m .close own)).links i = (f.links i).carry r.other
        [Session.handing m τ.conn (.goodbye (f.session r.other).id)] :=
      congrArg ((f.links i).carry r.other) hsaid
    have hself : (f.step (.act r.other m .close own)).session r.other =
        ((f.session r.other).close m).1 := settle_session _
    have hother : (f.step (.act r.other m .close own)).session r = f.session r :=
      settle_session_self _
    have hg : ((f.step (.act r.other m .close own)).links i).Farewell r := ⟨_, hx, hk⟩
    rw [hlink] at hg ⊢
    by_cases hc : (f.links i).conn r.other = some τ.conn
    · refine (ho i).parting hc hactive hold hg ?_ ?_ ?_ hother
      · rw [hself]
        exact hgone
      · rw [hself]
        exact hkeeps.grows.id
      · rw [hself]
        exact hnext
    · rw [carry_of_ne fun τ' hτ' => by rw [List.mem_singleton.mp hτ']; exact hc] at hg
      exact (hold hg).elim

/-- A side gets a number for a connection. -/
theorem Parting.connect (h : f.Parting) (ho : f.Orderly) (hw : f.Wired id) :
    (f.step (.connect side m i)).Parting := by
  rcases connect_cases f side m i with heq | ⟨s', t, hi, hnot, hm, heq⟩ <;> rw [heq]
  · exact h
  intro j r hg
  have hlane : ((f.relink i ((f.links i).attach side
      (f.session side).nextConnection)).links j).lane = (f.links j).lane := by
    by_cases hj : j = i
    · subst hj
      rw [relink_links_self]
      rfl
    · rw [relink_links_of_ne hj]
  have hold : (f.links j).Farewell r := by
    obtain ⟨x, hx, hk⟩ := hg
    rcases Link.mem_carry hx with hx | ⟨-, τ, hτ, rfl⟩
    · exact ⟨x, congrFun hlane r ▸ hx, hk⟩
    · exact (hm.no_goodbye τ hτ hk).elim
  rcases Role.eq_or_eq_other r side with rfl | rfl
  · have hj : j ≠ i := by
      rintro rfl
      exact (ho j).no_farewell hi hold
    have hapart : (f.links j).Apart side (f.session side) s' :=
      Link.apart_opens hm (hw.agree.sound side).role (hw.numbered j side)
    refine Parting.receiver _ (h j side hold) (congrArg Lane.queue (congrFun hlane side))
      hm.received.ge ?_
    rw [relink_links_of_ne hj]
    exact Or.imp hapart.active hapart.pending
  · exact (hnot (h j r hold).gone.ended).elim

/-- A message comes. -/
theorem Parting.deliver (h : f.Parting) (ho : f.Orderly) (hw : f.Wired id) :
    (f.step (.deliver side m i)).Parting := by
  rcases hw.deliver_cases side m i with heq | ⟨c, x, rest, s', t, d, hc, hq, hm, heq⟩ <;> rw [heq]
  · exact h
  have hsound := hw.agree.sound side
  intro j r hg
  have hold : (f.links j).Farewell r := by
    obtain ⟨x, hx, hk⟩ := hg
    rcases Link.mem_carry hx with hx | ⟨-, τ, hτ, rfl⟩
    · exact ⟨x, lane_update_subset (f := f) ((f.links i).pop_subset side) j r hx, hk⟩
    · exact (hm.no_goodbye τ hτ hk).elim
  have hparting := h j r hold
  rcases Role.eq_or_eq_other r side with rfl | rfl
  · by_cases hj : j = i
    · subst hj
      simp only [settle_links, relink_links_self] at hg ⊢
      exact hparting.hears (ho j) hsound.coherent hsound.role hc hq hm hg (settle_session _)
        (settle_session_other _)
    · have hne : (f.links j).conn side ≠ some c := fun hc' => hj (hw.distinct j i side c hc' hc)
      have hapart := Link.apart_hears hm hne
      refine Parting.receiver _ hparting ?_ (hm.progress hsound.coherent).received ?_
      · rw [relink_links_of_ne hj]
      · rw [relink_links_of_ne hj]
        exact Or.imp hapart.active hapart.pending
  · obtain ⟨rfl, rfl⟩ := hparting.gone.hears hm
    have hconn := conn_update (f := f) (i := i) (l := (f.links i).pop r.other) rfl j
    refine Parting.sender _ hparting ?_ hconn (.refl _) rfl
    by_cases hj : j = i
    · subst hj
      rw [relink_links_self, pop_lane_self]
    · rw [relink_links_of_ne hj]

/-- Messages are lost. -/
theorem Parting.lose (h : f.Parting) (keep : Nat) : (f.step (.lose side i keep)).Parting := by
  intro j r hg
  by_cases hj : j = i
  · subst hj
    simp only [step, relink_links_self] at hg ⊢
    have hp := Link.lose_prefix (f.links j) side keep r
    obtain ⟨x, hx, hk⟩ := hg
    have hparting := h j r ⟨x, hp.1.subset hx, hk⟩
    have hqueue := hparting.queue_eq hp.1 ⟨x, hx, hk⟩
    exact hparting.mono hqueue hparting.gone rfl rfl le_rfl fun hr => hr
  · simp only [step, relink_links_of_ne hj] at hg ⊢
    exact h j r hg

/-! ### Every run -/

theorem Parting.step (h : f.Parting) (ho : f.Orderly) (hw : f.Wired id) (e : Event) :
    (f.step e).Parting := by
  cases e with
  | act side m input own => exact h.act ho hw own
  | connect side m i => exact h.connect ho hw
  | deliver side m i => exact h.deliver ho hw
  | lose side i keep => exact h.lose keep

theorem Parting.run (h : f.Parting) (hf : f.Reachable) (events : List Event) :
    (f.run events).Parting := by
  induction events generalizing f with
  | nil => exact h
  | cons e events ih =>
    obtain ⟨ho, id, hw⟩ := hf.orderly
    exact ih (h.step ho hw e) (hf.run [e])

theorem Reachable.parting (h : f.Reachable) : f.Parting := by
  obtain ⟨id, _, _, _, _, client, server, events, hc, hs, rfl⟩ := h
  have hnone : (begin client server).Parting := fun i r ⟨x, hx, _⟩ => by cases hx
  exact hnone.run ⟨id, _, _, _, _, client, server, [], hc, hs, rfl⟩ events

/-- A side that is over stays so, and accepts nothing. -/
theorem Wired.accepted_step (hw : f.Wired id) (hg : (f.peers r).session.Gone) (e : Event) :
    ((f.step e).peers r).session.Gone ∧ ((f.step e).peers r).accepted = (f.peers r).accepted := by
  cases e with
  | act side m input own =>
    rcases Role.eq_or_eq_other side r with rfl | rfl
    · have hrests := hg.step m input
      obtain ⟨waiting, nextTicket, heq⟩ := hrests.same
      have hbefore := (hw.agree.sound r).numbered
      have hafter := ((hw.step (.act r m input own)).agree.sound r).numbered
      rw [Linked.step, settle_peers] at hafter ⊢
      simp only [Peer.act, Peer.after, heq, List.length_append] at hafter
      have hnone : (f.peers r).session.accepted m input = [] :=
        List.length_eq_zero_iff.mp (by omega)
      refine ⟨hrests.gone hg, ?_⟩
      rw [Peer.act, Peer.after, hnone, List.append_nil]
    · rw [Linked.step, settle_peers_other]
      exact ⟨hg, rfl⟩
  | connect side m i =>
    rcases connect_cases f side m i with heq | ⟨s', t, hi, hnot, hm, heq⟩ <;> rw [heq]
    · exact ⟨hg, rfl⟩
    rcases Role.eq_or_eq_other side r with rfl | rfl
    · exact (hnot hg.ended).elim
    · rw [settle_peers_other]
      exact ⟨hg, rfl⟩
  | deliver side m i =>
    rcases hw.deliver_cases side m i with heq | ⟨c, x, rest, s', t, d, hc, hq, hm, heq⟩ <;> rw [heq]
    · exact ⟨hg, rfl⟩
    rcases Role.eq_or_eq_other side r with rfl | rfl
    · obtain ⟨rfl, -⟩ := hg.hears hm
      rw [settle_peers]
      exact ⟨hg, List.append_nil _⟩
    · rw [settle_peers_other]
      exact ⟨hg, rfl⟩
  | lose => exact ⟨hg, rfl⟩

theorem Reachable.accepted_run (h : f.Reachable) (hg : (f.peers r).session.Gone)
    (events : List Event) : ((f.run events).peers r).accepted = (f.peers r).accepted := by
  induction events generalizing f with
  | nil => rfl
  | cons e events ih =>
    obtain ⟨-, id, hw⟩ := h.orderly
    obtain ⟨hgone, hsame⟩ := hw.accepted_step hg e
    exact (ih (h.run [e]) hgone).trans hsame

/-- When a goodbye is the next to come on the active connection, all that the peer accepted is
delivered. -/
theorem Parting.delivered (h : f.Parting) (hw : f.Wired id) {c : ConnectionId} {x : Message}
    {rest : List Message} (hc : (f.links i).conn side = some c)
    (ha : (f.session side).active = some c) (hq : ((f.links i).lane side).queue = x :: rest)
    (hk : x.kind = .goodbye) : x = .goodbye (f.session side.other).id ∧
      (f.peers side.other).session.Gone ∧
        (f.peers side).delivered = (f.peers side.other).accepted := by
  have hparting := h i side ⟨x, by rw [hq]; exact List.mem_cons_self, hk⟩
  obtain ⟨front, hlast, hfront⟩ := hparting.last
  rw [hq] at hlast
  cases front with
  | cons y front =>
    rw [(List.cons.inj hlast).1] at hk
    exact (hfront y List.mem_cons_self hk).elim
  | nil =>
    obtain ⟨hx, hrest⟩ := List.cons.inj hlast
    have howed := hparting.owed (.inl ⟨c, hc, ha⟩) ((f.session side).inbox.received + 1)
    rw [hq, hrest, Message.numbers_cons_other [] (by rw [hk]; decide)] at howed
    have hall : (f.session side.other).outbox.next ≤ (f.session side).inbox.received + 1 :=
      not_lt.mp fun hlt => by cases howed (Int.lt_succ _) hlt
    have hnumbered := (hw.agree.sound side.other).numbered
    refine ⟨hx, hparting.gone, ?_⟩
    rw [(hw.agree.agreement side).delivered]
    refine List.take_of_length_le ?_
    simp only [session] at hall
    omega

/-- A message comes, and is received. -/
theorem step_deliver_session {c : ConnectionId} {x : Message} {rest : List Message}
    (hc : (f.links i).conn side = some c) (hq : ((f.links i).lane side).queue = x :: rest)
    (hr : x.Representable) : (f.step (.deliver side m i)).session side =
      ((f.session side).receive m c x.encode).session := by
  simp only [step, hc, hq, if_pos hr, settle_session, Peer.hear, Peer.after_session]
  rw [session]

/-- **A goodbye comes last.** Whatever happened before, when a side hears a goodbye on its
active connection, it has delivered all that the peer ever accepted and ever will, in order.
The goodbye is heard without a fault, it is told as the reason of the loss, and nothing more is
told after that. -/
theorem goodbye_comes_last (h : f.Reachable) {c : ConnectionId} {x : Message}
    {rest : List Message} (hc : (f.links i).conn side = some c)
    (ha : (f.session side).active = some c) (hq : ((f.links i).lane side).queue = x :: rest)
    (hk : x.kind = .goodbye) (m : Moment) :
    let o := (f.session side).receive m c x.encode
    (f.peers side).delivered = (f.peers side.other).accepted ∧
      (∀ events, ((f.run events).peers side.other).accepted = (f.peers side.other).accepted) ∧
      (f.step (.deliver side m i)).session side = o.session ∧ o.answer = .ok () ∧
      Effect.news o.effects = [.notice (.lost .goodbye)] ∧ o.session.AtRest := by
  obtain ⟨-, id, hw⟩ := h.orderly
  obtain ⟨hx, hgone, hdelivered⟩ := h.parting.delivered hw hc ha hq hk
  have hs := (hw.agree.sound side).coherent
  have hsays := (hw.agree.sound side.other).truthful x (hw.handed_of_cons hq)
  have hr : x.Representable := hx ▸ Message.representable_goodbye _
  have hid : x.session = (f.session side).id :=
    hsays.session.trans ((hw.agree.sound side.other).id.trans (hw.agree.sound side).id.symm)
  have hreceive : (f.session side).receive m c x.encode = (f.session side).receiveActive m c x :=
    hs.receive_of_active m (Message.decode_encode hsays.wellFormed hr) hid ha
  obtain ⟨hanswer, hnews, hover⟩ := hs.receiveActive_goodbye m ha hk
  rw [step_deliver_session hc hq hr, hreceive]
  exact ⟨hdelivered, h.accepted_run hgone, rfl, hanswer, hnews, hover.atRest⟩

/-- A side sends a payload that is lost with its connection, and one while there is none. It is
closed as soon as another connection completed its handshake. -/
def lastWords (m : Moment) (side : Role) : List Event :=
  [.connect .client m 0, .connect .server m 0, .deliver .server m 0, .deliver .client m 0,
    .act side m (.trySend [7]) trivial, .lose side.other 0 0,
    .act .client m (.disconnected 0 false) trivial, .act .server m (.disconnected 0 false) trivial,
    .act side m (.trySend [8]) trivial, .connect .client m 1, .connect .server m 1,
    .deliver .server m 1, .deliver .client m 1, .act side m .close trivial,
    .deliver side.other m 1, .deliver side.other m 1]

/-- Both payloads are delivered before the goodbye is heard, whichever side is closed. -/
theorem goodbye_comes_last_backlog :
    let id := SessionId.ofNat 1
    let m : Moment := ⟨0, fun _ _ => true⟩
    let f (side : Role) :=
      (begin (.start .client id {} 0) (.start .server id {} 0)).run (lastWords m side)
    let o (side : Role) := ((f side).session side.other).receive m 1 (Message.goodbye id).encode
    (((f .client).peers .server).delivered = [[7], [8]] ∧
        ((f .client).peers .client).accepted = [[7], [8]] ∧
        Effect.news (o .client).effects = [.notice (.lost .goodbye)] ∧ (o .client).session.AtRest) ∧
      ((f .server).peers .client).delivered = [[7], [8]] ∧
        ((f .server).peers .server).accepted = [[7], [8]] ∧
        Effect.news (o .server).effects = [.notice (.lost .goodbye)] ∧
        (o .server).session.AtRest := by
  intro id m f o
  have hreach (side : Role) : (f side).Reachable := ⟨id, {}, {}, 0, 0, _, _, _, rfl, rfl, rfl⟩
  have hrun (side : Role) : ((f side).links 1).conn side.other = some 1 ∧
      ((f side).session side.other).active = some 1 ∧
      (((f side).links 1).lane side.other).queue = [.goodbye id] ∧
      ((f side).peers side).accepted = [[7], [8]] := by
    cases side <;> decide +kernel
  clear_value f
  have hlast (side : Role) :=
    goodbye_comes_last (hreach side) (hrun side).1 (hrun side).2.1 (hrun side).2.2.1 rfl m
  obtain ⟨hclient, -, -, -, hnews, hrest⟩ := hlast .client
  obtain ⟨hserver, -, -, -, hnews', hrest'⟩ := hlast .server
  obtain ⟨-, -, -, haccepted⟩ := hrun .client
  obtain ⟨-, -, -, haccepted'⟩ := hrun .server
  have hclient := hclient.trans haccepted
  have hserver := hserver.trans haccepted'
  exact ⟨⟨hclient, haccepted, hnews, hrest⟩, hserver, haccepted', hnews', hrest'⟩

end Linked

end Tether
