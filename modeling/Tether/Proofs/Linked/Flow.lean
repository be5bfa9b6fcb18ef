import Tether.Proofs.Linked.Turns

/-!
# No gaps on a connection

On a connection that loses only what comes last, the payloads on the way to a side have
consecutive numbers, and the first of them is no higher than the next one that the side
is to receive (`Flow`). So no gap is ever found, and where nothing was lost and nothing
is on the way, everything was received (`settled_received`).

A new connection starts with a handshake. Until it is through, the lanes are empty but
for the handshake itself (`Orderly`), and what is replayed then starts right after what
the peer is known to have received.
-/

namespace Tether

namespace Link

variable {l : Link} {r : Role} {s : Role → Session}

/-- The payloads on the way to a side have the numbers from `low` up to `high`. The first
comes no later than the next one to be received. If the peer has the connection active
and nothing was lost, the last is the latest that it accepted. -/
structure Flow (l : Link) (s : Role → Session) (r : Role) (low high : Int) : Prop where
  le : low ≤ high
  numbers : Message.numbers (l.lane r).queue = Int.range low high
  next : low ≤ (s r).inbox.received + 1
  all : l.ActiveFor r.other (s r.other) → (l.lane r).broken = false → high = (s r.other).outbox.next

/-- The messages are such as belong on a connection after its handshake. -/
def Ordinary (q : List Message) : Prop := ∀ x ∈ q, x.kind.Ordinary

/-- Nothing has to come while the peer does not have the connection active. -/
theorem Flow.empty (hq : Message.numbers (l.lane r).queue = [])
    (ha : ¬ l.ActiveFor r.other (s r.other)) :
    l.Flow s r ((s r).inbox.received + 1) ((s r).inbox.received + 1) where
  le := le_rfl
  numbers := by rw [hq, Sequence.range_of_le le_rfl]
  next := le_rfl
  all := fun h => (ha h).elim

/-- One direction, where what matters to it stays the same. -/
theorem Flow.of_lane_eq {low high : Int} {l' : Link} {s' : Role → Session}
    (h : l.Flow s r low high) (hlane : l'.lane r = l.lane r)
    (hreceived : (s' r).inbox.received = (s r).inbox.received)
    (hother : l'.ActiveFor r.other (s' r.other) → l.ActiveFor r.other (s r.other) ∧
      (s' r.other).outbox.next = (s r.other).outbox.next) : l'.Flow s' r low high where
  le := h.le
  numbers := by rw [hlane, h.numbers]
  next := by rw [hreceived]; exact h.next
  all := fun ha hb => by
    obtain ⟨hactive, hnext⟩ := hother ha
    rw [hlane] at hb
    exact (h.all hactive hb).trans hnext.symm

/-- A payload that is in front has the lowest number. -/
theorem Flow.cons_send {low high : Int} {x : Message} {rest : List Message}
    (h : l.Flow s r low high) (hq : (l.lane r).queue = x :: rest) (hk : x.kind = .send) :
    x.seq = low ∧ low < high ∧ Message.numbers rest = Int.range (low + 1) high := by
  have hnumbers := h.numbers
  rw [hq, Message.numbers_cons_send rest hk] at hnumbers
  have hlt : low < high := by
    by_contra hge
    rw [Sequence.range_of_le (by omega)] at hnumbers
    cases hnumbers
  rw [Sequence.range_cons hlt] at hnumbers
  obtain ⟨hx, hrest⟩ := List.cons.inj hnumbers
  exact ⟨hx, hlt, hrest⟩

/-- The message in front comes, and the side received it if it carries a payload. -/
theorem Flow.pop {low high : Int} {s' : Role → Session} {x : Message} {rest : List Message}
    (h : l.Flow s r low high) (hq : (l.lane r).queue = x :: rest)
    (hreceived : (s r).inbox.received ≤ (s' r).inbox.received)
    (hseq : x.kind = .send → x.seq ≤ (s r).inbox.received + 1 → x.seq ≤ (s' r).inbox.received)
    (hother : s' r.other = s r.other) : ∃ low high, (l.pop r).Flow s' r low high := by
  have hle := h.le
  have hlow := h.next
  have hpop : ((l.pop r).lane r).queue = rest := by rw [pop_lane_of_cons hq]
  have hall : (l.pop r).ActiveFor r.other (s' r.other) → ((l.pop r).lane r).broken = false →
      high = (s' r.other).outbox.next := by
    rw [hother, pop_lane]
    exact h.all
  by_cases hk : x.kind = .send
  · obtain ⟨hx, hlt, hrest⟩ := h.cons_send hq hk
    have hgot := hseq hk (by omega)
    exact ⟨low + 1, high, by omega, hpop ▸ hrest, by omega, hall⟩
  · have hnumbers := h.numbers
    rw [hq, Message.numbers_cons_other rest hk] at hnumbers
    exact ⟨low, high, hle, hpop ▸ hnumbers, by omega, hall⟩

/-- Nothing but the request of the client is on the way. -/
def Asking (q : List Message) : Prop := q = [] ∨ ∃ x, q = [x] ∧ x.kind = .handshake

theorem Asking.numbers {q : List Message} (h : Asking q) : Message.numbers q = [] := by
  rcases h with rfl | ⟨x, rfl, hk⟩
  · rfl
  · rw [Message.numbers_cons_other [] (by rw [hk]; decide)]
    rfl

/-- **What is on the way fits where the two sides stand.** -/
structure Orderly (l : Link) (s : Role → Session) : Prop where
  /-- Nothing comes from a client that does not have the connection yet. -/
  unasked : l.conn .client = none →
    (∀ r, (l.lane r).queue = []) ∧ ¬ l.ActiveFor .server (s .server)
  /-- As long as the server waits for the handshake, nothing else is on the way. -/
  early : l.conn .server = none ∨ l.PendingFor .server (s .server) →
    (l.lane .client).queue = [] ∧ ¬ l.ActiveFor .client (s .client) ∧ Asking (l.lane .server).queue
  /-- As long as the client waits for the answer, nothing comes before it. -/
  asked : l.PendingFor .client (s .client) → ((l.lane .client).queue = [] ∨
    ∃ x rest, (l.lane .client).queue = x :: rest ∧ x.kind = .handshakeOk ∧ Ordinary rest)
  /-- Once the server gave it, it is on the way. -/
  agreed : l.PendingFor .client (s .client) → l.ActiveFor .server (s .server) →
    (l.lane .server).queue = [] ∧ ((l.lane .client).queue = [] → (l.lane .client).broken = true)
  ordinary : ∀ r, l.ActiveFor r (s r) → Ordinary (l.lane r).queue
  flow : ∀ r, l.ActiveFor r (s r) ∨ l.PendingFor r (s r) → ∃ low high, l.Flow s r low high

/-- A connection that neither side has active, with nothing on the way but a request. -/
theorem Orderly.fresh (hclient : (l.lane .client).queue = [])
    (hasking : Asking (l.lane .server).queue)
    (hunasked : l.conn .client = none → (l.lane .server).queue = [])
    (hactive : ∀ r, ¬ l.ActiveFor r (s r)) : l.Orderly s where
  unasked := fun hn => ⟨fun r => by
    cases r with
    | client => exact hclient
    | server => exact hunasked hn, hactive .server⟩
  early := fun _ => ⟨hclient, hactive .client, hasking⟩
  asked := fun _ => .inl hclient
  agreed := fun _ ha => (hactive .server ha).elim
  ordinary := fun r ha => (hactive r ha).elim
  flow := fun r _ => by
    refine ⟨_, _, .empty ?_ (hactive r.other)⟩
    cases r with
    | client => rw [hclient]; rfl
    | server => exact hasking.numbers

theorem Orderly.begin : ({} : Link).Orderly s := .fresh rfl (.inl rfl) (fun _ => rfl) nofun

/-- A payload that comes on the active connection is no gap. -/
theorem Orderly.not_gap (h : l.Orderly s) {x : Message} {rest : List Message}
    (ha : l.ActiveFor r (s r)) (hq : (l.lane r).queue = x :: rest) (hk : x.kind = .send) :
    x.seq ≤ (s r).inbox.received + 1 := by
  obtain ⟨low, high, hf⟩ := h.flow r (.inl ha)
  obtain ⟨hx, -, -⟩ := hf.cons_send hq hk
  have hlow := hf.next
  omega

variable {a' : Session} {m : Moment} {t : List Transmission} {a d : List Bytes}

/-! ### Where the sides stand -/

/-- What is on the way still fits where a side stands no better and accepts nothing. -/
theorem Orderly.mono {s' : Role → Session} (h : l.Orderly s)
    (hactive : ∀ r, l.ActiveFor r (s' r) → l.ActiveFor r (s r))
    (hpending : ∀ r, l.PendingFor r (s' r) → l.PendingFor r (s r))
    (hreceived : ∀ r, (s r).inbox.received ≤ (s' r).inbox.received)
    (hnext : ∀ r, l.ActiveFor r (s' r) → (s' r).outbox.next = (s r).outbox.next) :
    l.Orderly s' where
  unasked := fun hc => ⟨(h.unasked hc).1, fun ha => (h.unasked hc).2 (hactive _ ha)⟩
  early := fun he => by
    obtain ⟨hq, ha, hh⟩ := h.early (he.imp_right (hpending _))
    exact ⟨hq, fun hc => ha (hactive _ hc), hh⟩
  asked := fun hp => h.asked (hpending _ hp)
  agreed := fun hp ha => h.agreed (hpending _ hp) (hactive _ ha)
  ordinary := fun r ha => h.ordinary r (hactive _ ha)
  flow := fun r hr => by
    obtain ⟨low, high, hf⟩ := h.flow r (hr.imp (hactive r) (hpending r))
    have hle := hreceived r
    have hlow := hf.next
    exact ⟨low, high, hf.le, hf.numbers, by omega, fun ha hb =>
      (hf.all (hactive _ ha) hb).trans (hnext _ ha).symm⟩

/-- A shift that has to do with something else. -/
theorem Orderly.apart (h : l.Orderly s) (ha : l.Apart r (s r) a') (hp : (s r).Progress a' a) :
    l.Orderly (Function.update s r a') :=
  h.mono
    ((Function.forall_update_iff s fun r' x => l.ActiveFor r' x → l.ActiveFor r' (s r')).mpr
      ⟨ha.active, fun _ _ => id⟩)
    ((Function.forall_update_iff s fun r' x => l.PendingFor r' x → l.PendingFor r' (s r')).mpr
      ⟨ha.pending, fun _ _ => id⟩)
    ((Function.forall_update_iff s fun r' x => (s r').inbox.received ≤ x.inbox.received).mpr
      ⟨hp.received, fun _ _ => le_rfl⟩)
    ((Function.forall_update_iff s fun r' x =>
      l.ActiveFor r' x → x.outbox.next = (s r').outbox.next).mpr
      ⟨fun h => congrArg Outbox.next (ha.outbox h), fun _ _ _ => rfl⟩)

/-! ### Messages that go on a connection -/

/-- A payload with the next number, or a message without payload, goes on the way. -/
theorem Flow.push {low high : Int} {x : Message} {taken : Bool} {s' : Role → Session}
    (h : l.Flow s r low high) (hactive : l.ActiveFor r.other (s r.other))
    (hn : (x.kind = .send ∧ x.seq = (s r.other).outbox.next ∧
        (s' r.other).outbox.next = (s r.other).outbox.next + 1) ∨
      (x.kind ≠ .send ∧ (s' r.other).outbox.next = (s r.other).outbox.next))
    {l' : Link} (hlane : l'.lane r = (l.lane r).push x taken)
    (hreceived : (s' r).inbox.received = (s r).inbox.received) :
    ∃ low high, l'.Flow s' r low high := by
  have hle := h.le
  have hlow := h.next
  rcases (l.lane r).push_cases x taken with ⟨hq, hb⟩ | ⟨hb, hpush⟩
  · refine ⟨low, high, hle, ?_, by omega, fun _ hb' => ?_⟩
    · rw [hlane, hq]
      exact h.numbers
    · rw [hlane, hb] at hb'
      cases hb'
  · have hall := h.all hactive hb
    rcases hn with ⟨hk, hseq, hnext⟩ | ⟨hk, hnext⟩
    · refine ⟨low, high + 1, by omega, ?_, by omega, fun _ _ => by omega⟩
      rw [hlane, hpush]
      simp only [Message.numbers_append, h.numbers, Message.numbers_cons_send [] hk,
        Message.numbers_nil]
      rw [Sequence.range_concat hle, hseq, hall]
    · refine ⟨low, high, hle, ?_, by omega, fun _ _ => by omega⟩
      rw [hlane, hpush]
      simp only [Message.numbers_append, h.numbers, Message.numbers_cons_other [] hk,
        Message.numbers_nil, List.append_nil]

/-- A side hands a message to the connection, which it has active. -/
theorem Orderly.hands (h : l.Orderly s) (hs : (s r).Coherent) {c : ConnectionId} {x : Message}
    (taken : Bool) (hc : l.conn r = some c) (hh : l.Hands r (s r) a' x) :
    (l.carry r [⟨c, x, taken⟩]).Orderly (Function.update s r a') := by
  have hcarry : (l.carry r [⟨c, x, taken⟩]).lane r.other = (l.lane r.other).push x taken := by
    rw [carry_of_eq fun τ hτ => by rw [List.mem_singleton.mp hτ]; exact hc]
    exact Function.update_self _ _ _
  have hpending : ¬ l.PendingFor r a' := fun hp =>
    not_active_of_pending hs (hh.pending hp) hh.before
  have hordinary : ∀ r', l.ActiveFor r' (Function.update s r a' r') →
      Ordinary ((l.carry r [⟨c, x, taken⟩]).lane r').queue := by
    intro r' ha
    rcases Role.eq_or_eq_other r r' with rfl | rfl
    · rw [carry_lane]
      exact h.ordinary _ hh.before
    · rw [Function.update_of_ne (Role.other_ne r)] at ha
      have hold := h.ordinary _ ha
      rw [hcarry]
      rcases (l.lane r.other).push_cases x taken with ⟨hq, -⟩ | ⟨-, hpush⟩
      · rw [hq]
        exact hold
      · rw [hpush]
        exact List.forall_mem_append.mpr ⟨hold, List.forall_mem_singleton.mpr hh.ordinary⟩
  have hflow : ∀ r', l.ActiveFor r' (Function.update s r a' r') ∨
      l.PendingFor r' (Function.update s r a' r') →
        ∃ low high, (l.carry r [⟨c, x, taken⟩]).Flow (Function.update s r a') r' low high := by
    intro r' hr
    rcases Role.eq_or_eq_other r r' with rfl | rfl
    · obtain ⟨low, high, hf⟩ := h.flow r' (.inl hh.before)
      refine ⟨low, high, hf.of_lane_eq carry_lane ?_ ?_⟩
      · rw [Function.update_self, hh.received]
      · rw [Function.update_of_ne (Role.other_ne _)]
        exact fun ha => ⟨ha, rfl⟩
    · rw [Function.update_of_ne (Role.other_ne r)] at hr
      obtain ⟨low, high, hf⟩ := h.flow r.other hr
      refine hf.push ?_ ?_ hcarry ?_
      · rw [Role.other_other]
        exact hh.before
      · rw [Role.other_other, Function.update_self]
        exact hh.number
      · rw [Function.update_of_ne (Role.other_ne r)]
  cases r with
  | client =>
    exact {
      unasked := fun hn => by cases hn.symm.trans hc
      early := fun he => ((h.early he).2.1 hh.before).elim
      asked := fun hp => (hpending hp).elim
      agreed := fun hp => (hpending hp).elim
      ordinary := hordinary
      flow := hflow }
  | server =>
    have hlane : (l.carry .server [⟨c, x, taken⟩]).lane .client = (l.lane .client).push x taken :=
      hcarry
    have hpush := (l.lane .client).push_cases x taken
    rw [← hlane] at hpush
    exact {
      unasked := fun hn => ((h.unasked hn).2 hh.before).elim
      early := fun he => by
        rcases he with he | he
        · cases he.symm.trans hc
        · exact (hpending he).elim
      asked := fun hp => by
        obtain ⟨-, hlost⟩ := h.agreed hp hh.before
        rcases hpush with ⟨hq, -⟩ | ⟨hb, hpush⟩
        · rw [hq]
          exact h.asked hp
        · rcases h.asked hp with hq | ⟨y, rest, hq, hk, hrest⟩
          · rw [hlost hq] at hb
            cases hb
          · refine .inr ⟨y, rest ++ [x], ?_, hk, ?_⟩
            · rw [hpush, hq]
              rfl
            · exact List.forall_mem_append.mpr ⟨hrest, List.forall_mem_singleton.mpr hh.ordinary⟩
      agreed := fun hp _ => by
        obtain ⟨hq, hlost⟩ := h.agreed hp hh.before
        refine ⟨hq, fun hq' => ?_⟩
        rcases hpush with ⟨-, hb⟩ | ⟨-, hpush⟩
        · exact hb
        · rw [hpush] at hq'
          simp at hq'
      ordinary := hordinary
      flow := hflow }

/-- What comes last is lost. -/
theorem Orderly.loses (h : l.Orderly s) (r : Role) (keep : Nat) : (l.lose r keep).Orderly s where
  unasked := fun hc => ⟨fun r' => by
    have hp := (l.lose_prefix r keep r').1
    rw [(h.unasked hc).1 r'] at hp
    exact List.prefix_nil.mp hp, (h.unasked hc).2⟩
  early := fun he => by
    obtain ⟨hq, ha, hh⟩ := h.early he
    have hp := (l.lose_prefix r keep .client).1
    have hp' := (l.lose_prefix r keep .server).1
    rw [hq] at hp
    refine ⟨List.prefix_nil.mp hp, ha, ?_⟩
    rcases hh with hh | ⟨x, hh, hk⟩ <;> rw [hh] at hp'
    · exact .inl (List.prefix_nil.mp hp')
    · rcases List.prefix_cons_iff.mp hp' with hp' | ⟨p, hp', hnil⟩
      · exact .inl hp'
      · rw [List.prefix_nil.mp hnil] at hp'
        exact .inr ⟨x, hp', hk⟩
  asked := fun hp => by
    have hpre := (l.lose_prefix r keep .client).1
    rcases h.asked hp with hq | ⟨x, rest, hq, hk, hrest⟩ <;> rw [hq] at hpre
    · exact .inl (List.prefix_nil.mp hpre)
    · rcases List.prefix_cons_iff.mp hpre with hpre | ⟨p, hpre, hp⟩
      · exact .inl hpre
      · exact .inr ⟨x, p, hpre, hk, fun y hy => hrest y (hp.subset hy)⟩
  agreed := fun hp ha => by
    obtain ⟨hq, hlost⟩ := h.agreed hp ha
    have hp' := (l.lose_prefix r keep .server).1
    rw [hq] at hp'
    refine ⟨List.prefix_nil.mp hp', fun hnil => ?_⟩
    by_contra hb
    have hsame := (l.lose_prefix r keep .client).2 (by simpa using hb)
    rw [hsame] at hnil hb
    exact hb (hlost hnil)
  ordinary := fun r' ha x hx => h.ordinary r' ha x (l.lose_subset r keep r' hx)
  flow := fun r' hr => by
    obtain ⟨low, high, hf⟩ := h.flow r' hr
    obtain ⟨hp, hsame⟩ := l.lose_prefix r keep r'
    by_cases hb : ((l.lose r keep).lane r').broken = false
    · refine ⟨low, high, hf.le, ?_, hf.next, ?_⟩ <;> rw [hsame hb]
      · exact hf.numbers
      · exact hf.all
    · have hpn := Message.numbers_prefix hp
      rw [hf.numbers] at hpn
      obtain ⟨mid, hle, -, hmid⟩ := Sequence.exists_eq_range_of_prefix hf.le hpn
      exact ⟨low, mid, hle, hmid, hf.next, fun _ hb' => (hb hb').elim⟩

/-! ### Messages that come -/

/-- A message comes on the active connection, and the side received it if it carries a
payload. -/
theorem Orderly.heard (h : l.Orderly s) (hs : (s r).Coherent) {x : Message} {rest : List Message}
    (hbefore : l.ActiveFor r (s r)) (hq : (l.lane r).queue = x :: rest)
    (hpending : l.PendingFor r a' → l.PendingFor r (s r))
    (hreceived : (s r).inbox.received ≤ a'.inbox.received)
    (hseq : x.kind = .send → x.seq ≤ (s r).inbox.received + 1 → x.seq ≤ a'.inbox.received)
    (hnext : a'.outbox.next = (s r).outbox.next) :
    (l.pop r).Orderly (Function.update s r a') := by
  have hpending' : ¬ l.PendingFor r a' := fun hp =>
    not_active_of_pending hs (hpending hp) hbefore
  have hpop : ((l.pop r).lane r).queue = rest := by rw [pop_lane_of_cons hq]
  have hordinary : ∀ r', l.ActiveFor r' (Function.update s r a' r') →
      Ordinary ((l.pop r).lane r').queue := by
    intro r' ha
    rcases Role.eq_or_eq_other r r' with rfl | rfl
    · rw [hpop]
      have hold := h.ordinary _ hbefore
      rw [hq] at hold
      exact (List.forall_mem_cons.mp hold).2
    · rw [Function.update_of_ne (Role.other_ne r)] at ha
      rw [pop_lane_other]
      exact h.ordinary _ ha
  have hflow : ∀ r', l.ActiveFor r' (Function.update s r a' r') ∨
      l.PendingFor r' (Function.update s r a' r') →
        ∃ low high, (l.pop r).Flow (Function.update s r a') r' low high := by
    intro r' hr
    rcases Role.eq_or_eq_other r r' with rfl | rfl
    · obtain ⟨low, high, hf⟩ := h.flow _ (.inl hbefore)
      refine hf.pop hq ?_ ?_ (Function.update_of_ne (Role.other_ne r') _ _)
      · rwa [Function.update_self]
      · rwa [Function.update_self]
    · rw [Function.update_of_ne (Role.other_ne r)] at hr
      obtain ⟨low, high, hf⟩ := h.flow r.other hr
      refine ⟨low, high, hf.of_lane_eq pop_lane_other ?_ ?_⟩
      · rw [Function.update_of_ne (Role.other_ne r)]
      · rw [Role.other_other, Function.update_self]
        exact fun _ => ⟨hbefore, hnext⟩
  cases r with
  | client =>
    exact {
      unasked := fun hn => by
        have hnil := (h.unasked hn).1 .client
        rw [hq] at hnil
        cases hnil
      early := fun he => ((h.early he).2.1 hbefore).elim
      asked := fun hp => (hpending' hp).elim
      agreed := fun hp => (hpending' hp).elim
      ordinary := hordinary
      flow := hflow }
  | server =>
    exact {
      unasked := fun hn => ((h.unasked hn).2 hbefore).elim
      early := fun he => by
        rcases he with he | he
        · obtain ⟨c, hc, -⟩ := hbefore
          cases he.symm.trans hc
        · exact (hpending' he).elim
      asked := fun hp => h.asked hp
      agreed := fun hp _ => by
        have hnil := (h.agreed hp hbefore).1
        rw [hq] at hnil
        cases hnil
      ordinary := hordinary
      flow := hflow }

/-- A message that does not belong there comes only on a connection that the side is done
with. -/
theorem Orderly.done_of_ignored (h : l.Orderly s) (hrole : (s r).role = r) {c : ConnectionId}
    {x : Message} {rest : List Message} (hc : l.conn r = some c) (hq : (l.lane r).queue = x :: rest)
    (hk : (s r).Awaits c → x.kind ≠ (s r).role.awaited)
    (ho : (s r).active = some c → ¬ x.kind.Ordinary) :
    ¬ l.ActiveFor r (s r) ∧ ¬ l.PendingFor r (s r) := by
  constructor
  · rintro ⟨c', hc', ha⟩
    cases hc.symm.trans hc'
    exact ho ha (h.ordinary r ⟨c, hc, ha⟩ x (by rw [hq]; exact List.mem_cons_self))
  · rintro ⟨c', hc', ha⟩
    cases hc.symm.trans hc'
    refine hk ha ?_
    rw [hrole]
    cases r with
    | client =>
      rcases h.asked ⟨c, hc, ha⟩ with hnil | ⟨y, _, hq', hy, -⟩
      · rw [hnil] at hq
        cases hq
      · rw [hq'] at hq
        cases hq
        exact hy
    | server =>
      rcases (h.early (.inr ⟨c, hc, ha⟩)).2.2 with hnil | ⟨y, hq', hy⟩
      · rw [hnil] at hq
        cases hq
      · rw [hq'] at hq
        cases hq
        exact hy

/-- There it means nothing. -/
theorem Orderly.ignored (h : l.Orderly s) {c : ConnectionId} {x : Message} {rest : List Message}
    (hc : l.conn r = some c) (hq : (l.lane r).queue = x :: rest) (hactive : ¬ l.ActiveFor r (s r))
    (hpending : ¬ l.PendingFor r (s r)) : (l.pop r).Orderly s := by
  have hordinary : ∀ r', l.ActiveFor r' (s r') → Ordinary ((l.pop r).lane r').queue := by
    intro r' ha
    rcases Role.eq_or_eq_other r r' with rfl | rfl
    · exact (hactive ha).elim
    · rw [pop_lane_other]
      exact h.ordinary _ ha
  have hflow : ∀ r', l.ActiveFor r' (s r') ∨ l.PendingFor r' (s r') →
      ∃ low high, (l.pop r).Flow s r' low high := by
    intro r' hr
    rcases Role.eq_or_eq_other r r' with rfl | rfl
    · exact (hr.elim hactive hpending).elim
    · obtain ⟨low, high, hf⟩ := h.flow _ hr
      exact ⟨low, high, hf.of_lane_eq pop_lane_other rfl fun ha => ⟨ha, rfl⟩⟩
  have hunasked : (l.pop r).conn .client = none →
      (∀ r', ((l.pop r).lane r').queue = []) ∧ ¬ (l.pop r).ActiveFor .server (s .server) := by
    intro hn
    have hnil := (h.unasked hn).1 r
    rw [hq] at hnil
    cases hnil
  cases r with
  | client =>
    exact {
      unasked := hunasked
      early := fun he => by
        have hnil := (h.early he).1
        rw [hq] at hnil
        cases hnil
      asked := fun hp => (hpending hp).elim
      agreed := fun hp => (hpending hp).elim
      ordinary := hordinary
      flow := hflow }
  | server =>
    exact {
      unasked := hunasked
      early := fun he => by
        rcases he with he | he
        · cases he.symm.trans hc
        · exact (hpending he).elim
      asked := h.asked
      agreed := fun _ ha => (hactive ha).elim
      ordinary := hordinary
      flow := hflow }

/-! ### New connections -/

/-- A connection that a side just got is not active. -/
theorem not_active_attach {s : Session} (hs : s.Coherent) (ha : a'.active = s.active) :
    ¬ (l.attach r s.nextConnection).ActiveFor r a' := by
  rintro ⟨c, hc, hactive⟩
  rw [attach_conn] at hc
  cases hc
  exact lt_irrefl _ (hs.numbered _ (ha.symm.trans hactive))

theorem Asking.pushAll {q : Lane} (hq : q.queue = []) {τ : Transmission}
    (hk : τ.message.kind = .handshake) : Asking (q.pushAll [τ]).queue := by
  rcases q.push_cases τ.message τ.taken with ⟨h, -⟩ | ⟨-, h⟩
  · exact .inl (h.trans hq)
  · refine .inr ⟨τ.message, ?_, hk⟩
    rw [Lane.pushAll, h, hq]
    rfl

/-- A connection that a side did not have yet is active for neither. -/
theorem Orderly.not_active_opens (h : l.Orderly s) (hs : (s r).Coherent) (hc : l.conn r = none)
    (hm : (s r).Opens m a' t) :
    ∀ r', ¬ (l.attach r (s r).nextConnection).ActiveFor r' (Function.update s r a' r') := by
  have hother : ¬ l.ActiveFor r.other (s r.other) := by
    cases r with
    | client => exact (h.unasked hc).2
    | server => exact (h.early (.inl hc)).2.1
  refine (Function.forall_update_iff s fun r' x =>
    ¬ (l.attach r (s r).nextConnection).ActiveFor r' x).mpr ⟨?_, fun r' hr' => ?_⟩
  · exact not_active_attach hs (by cases hm <;> rfl)
  · obtain rfl := (Role.eq_or_eq_other r r').resolve_left hr'
    rintro ⟨c, hc', ha⟩
    rw [attach_conn_other] at hc'
    exact hother ⟨c, hc', ha⟩

/-- A side gets a number for the connection, and a client asks for the handshake. -/
theorem Orderly.opens (h : l.Orderly s) (hs : (s r).Coherent) (hrole : (s r).role = r)
    (hc : l.conn r = none) (ho : ¬ (s r).lifecycle.Over) (hm : (s r).Opens m a' t) :
    ((l.attach r (s r).nextConnection).carry r t).Orderly (Function.update s r a') := by
  have hactive := h.not_active_opens hs hc hm
  cases hm with
  | refused ho' => exact (ho ho').elim
  | asks deadline _ hr =>
    obtain rfl : r = .client := hrole.symm.trans hr
    obtain ⟨hnil, -⟩ := h.unasked hc
    rw [carry_of_eq fun τ hτ => by rw [List.mem_singleton.mp hτ]; exact attach_conn]
    exact .fresh (hnil .client) (Asking.pushAll (hnil .server) rfl) (fun hn => by cases hn) hactive
  | waits deadline _ hr =>
    obtain rfl : r = .server := hrole.symm.trans hr
    obtain ⟨hclient, -, hasking⟩ := h.early (.inl hc)
    rw [carry_nil]
    exact .fresh hclient hasking (fun hn => (h.unasked hn).1 .server) hactive

/-! ### Completed handshakes -/

/-- What is replayed when a handshake is completed begins with the first payload that the
peer may not have received. -/
theorem Flow.greet (hs : (s r).Coherent) {l' : Link} {s' : Role → Session}
    {c : ConnectionId} {n : Int} (hq : (l.lane r.other).queue = [])
    (hlane : l'.lane r.other = (l.lane r.other).pushAll ((s r).welcome m c n))
    (ho : (s' r).outbox = ((s r).outbox.acknowledge n).2.reconnect)
    (hack : (s' r).outbox.highestAck ≤ (s' r.other).inbox.received) :
    ∃ low high, l'.Flow s' r.other low high := by
  obtain ⟨p, hp, hqueue, hall⟩ := (l.lane r.other).exists_pushAll ((s r).welcome m c n)
  rw [← hlane] at hqueue hall
  rw [hq, List.nil_append] at hqueue
  obtain ⟨hfirst, hwhole⟩ := Session.welcome_prefix m (s r) c n
  have hcontiguous := hs.outbox.acknowledge n
  have hhigh := hcontiguous.high
  rw [Outbox.acknowledge_next] at hhigh
  have hnumbers := Message.numbers_prefix (hp.trans hfirst)
  rw [Message.numbers_greetings hs] at hnumbers
  have hack' : ((s r).outbox.acknowledge n).2.highestAck ≤ (s' r.other).inbox.received := by
    rw [ho] at hack
    exact hack
  by_cases hb : (l'.lane r.other).broken = false
  · obtain ⟨-, rfl, htaken⟩ := hall hb
    refine ⟨((s r).outbox.acknowledge n).2.highestAck + 1, (s r).outbox.next, by omega, ?_, by omega,
      fun _ _ => ?_⟩
    · rw [hqueue, hwhole htaken, Message.numbers_greetings hs]
    · rw [Role.other_other, ho]
      exact (Outbox.acknowledge_next (s r).outbox n).symm
  · obtain ⟨mid, hle, -, hmid⟩ := Sequence.exists_eq_range_of_prefix (by omega) hnumbers
    exact ⟨((s r).outbox.acknowledge n).2.highestAck + 1, mid, hle, by rw [hqueue, hmid], by omega,
      fun _ hb' => (hb hb').elim⟩

/-- What is said on the connection when a handshake is completed on it is on the way. -/
theorem lane_welcome {c : ConnectionId} (hc : l.conn r = some c) (m : Moment) (s : Session)
    (n : Int) : ((l.pop r).carry r (s.welcome m c n)).lane r.other =
      (l.lane r.other).pushAll (s.welcome m c n) := by
  have hto : ∀ τ ∈ s.welcome m c n, (l.pop r).conn r = some τ.conn := fun τ hτ =>
    hc.trans (congrArg some (Session.welcome_conn hτ).symm)
  rw [carry_of_eq hto]
  exact (Function.update_self _ _ _).trans (congrArg (Lane.pushAll · _) pop_lane_other)

/-- The replay consists of payloads. -/
theorem ordinary_replay (o : Outbox) (n : Int) : Ordinary (o.replay n) := by
  intro x hx
  obtain ⟨r, -, rfl⟩ := List.mem_map.mp hx
  exact .inl rfl

variable {c : ConnectionId} {x : Message} {rest : List Message}

/-- The client completes its handshake: the server has the connection active, or is done
with it. -/
theorem Orderly.answered (h : l.Orderly s) (hs : (s .client).Coherent)
    (hrole : (s .client).role = .client) (hc : l.conn .client = some c)
    (hq : (l.lane .client).queue = x :: rest) (hw : (s .client).Awaits c)
    (hpending : a'.pending = none) (hreceived : a'.inbox.received = (s .client).inbox.received)
    (ho : a'.outbox = ((s .client).outbox.acknowledge x.acked).2.reconnect)
    (hack : a'.outbox.highestAck ≤ (s .server).inbox.received) :
    ((l.pop .client).carry .client ((s .client).welcome m c x.acked)).Orderly
      (Function.update s .client a') := by
  have hserver : ∀ {a' : Session}, Function.update s .client a' .server = s .server :=
    Function.update_of_ne (by decide) _ _
  have hlane : ((l.pop .client).carry .client ((s .client).welcome m c x.acked)).lane .server =
      (l.lane .server).pushAll ((s .client).welcome m c x.acked) :=
    lane_welcome hc m (s .client) x.acked
  have hpop : (((l.pop .client).carry .client ((s .client).welcome m c x.acked)).lane .client) =
      ⟨rest, (l.lane .client).broken⟩ := carry_pop_lane_of_cons hq
  have hlate : ¬ (l.conn .server = none ∨ l.PendingFor .server (s .server)) := fun he => by
    have hnil := (h.early he).1
    rw [hq] at hnil
    cases hnil
  have hnone : ¬ l.PendingFor .client a' := not_pendingFor hpending
  obtain ⟨y, _, hq', hk, hrest⟩ := (h.asked ⟨c, hc, hw⟩).resolve_left (by rw [hq]; nofun)
  obtain ⟨rfl, rfl⟩ : x = y ∧ rest = _ := List.cons.inj (hq.symm.trans hq')
  exact {
    unasked := fun hn => by cases hn.symm.trans hc
    early := fun he => (hlate (hserver ▸ he)).elim
    asked := fun hp => (hnone (by rwa [Function.update_self] at hp)).elim
    agreed := fun hp => (hnone (by rwa [Function.update_self] at hp)).elim
    ordinary := fun r' ha => by
      cases r' with
      | client =>
        rw [hpop]
        exact hrest
      | server =>
        rw [hserver] at ha
        have hnil := (h.agreed ⟨c, hc, hw⟩ ha).1
        obtain ⟨p, hp, hqueue, -⟩ :=
          (l.lane .server).exists_pushAll ((s .client).welcome m c x.acked)
        obtain ⟨hfirst, -⟩ := Session.welcome_prefix m (s .client) c x.acked
        have hall : (s .client).greetings x.acked =
            ((s .client).outbox.acknowledge x.acked).2.replay (s .client).inbox.received := by
          rw [Session.greetings, if_neg (by rw [hrole]; decide), List.nil_append]
        intro z hz
        rw [hlane, hqueue, hnil, List.nil_append] at hz
        exact ordinary_replay _ _ z (hall ▸ (hp.trans hfirst).subset hz)
    flow := fun r' hr => by
      cases r' with
      | client =>
        obtain ⟨low, high, hf⟩ := h.flow .client (.inr ⟨c, hc, hw⟩)
        have hpopped : ∃ low high,
            (l.pop .client).Flow (Function.update s .client a') .client low high := by
          refine hf.pop hq ?_ (fun hk' => ?_) hserver
          · rw [Function.update_self, hreceived]
          · rw [hk] at hk'
            cases hk'
        obtain ⟨low, high, hf⟩ := hpopped
        exact ⟨low, high, hf.of_lane_eq carry_lane rfl fun ha => ⟨ha, rfl⟩⟩
      | server =>
        have ha : l.ActiveFor .server (s .server) :=
          (hserver ▸ hr).resolve_right fun hp => hlate (.inr hp)
        refine Flow.greet (r := .client) hs (h.agreed ⟨c, hc, hw⟩ ha).1 hlane ?_ ?_
        · rw [Function.update_self]
          exact ho
        · rw [Function.update_self]
          exact hserver ▸ hack }

/-- The server completes its handshake: nothing else is on the way. -/
theorem Orderly.requested (h : l.Orderly s) (hs : (s .server).Coherent)
    (hrole : (s .server).role = .server) (hc : l.conn .server = some c)
    (hq : (l.lane .server).queue = x :: rest) (hw : (s .server).Awaits c)
    (hpending : a'.pending = none)
    (ho : a'.outbox = ((s .server).outbox.acknowledge x.acked).2.reconnect)
    (hack : a'.outbox.highestAck ≤ (s .client).inbox.received) :
    ((l.pop .server).carry .server ((s .server).welcome m c x.acked)).Orderly
      (Function.update s .server a') := by
  have hclient : ∀ {a' : Session}, Function.update s .server a' .client = s .client :=
    Function.update_of_ne (by decide) _ _
  obtain ⟨hnil, hnot, hasking⟩ := h.early (.inr ⟨c, hc, hw⟩)
  have hlane : ((l.pop .server).carry .server ((s .server).welcome m c x.acked)).lane .client =
      (l.lane .client).pushAll ((s .server).welcome m c x.acked) :=
    lane_welcome hc m (s .server) x.acked
  have hempty : (((l.pop .server).carry .server ((s .server).welcome m c x.acked)).lane .server).queue =
      [] := by
    rw [carry_lane, pop_lane, Lane.pop]
    rcases hasking with hasking | ⟨y, hasking, -⟩ <;> rw [hasking] <;> rfl
  have hnone : ¬ l.PendingFor .server a' := not_pendingFor hpending
  obtain ⟨p, hp, hqueue, hall⟩ := (l.lane .client).exists_pushAll ((s .server).welcome m c x.acked)
  rw [hnil, List.nil_append] at hqueue
  rw [← hlane] at hqueue hall
  obtain ⟨hfirst, hwhole⟩ := Session.welcome_prefix m (s .server) c x.acked
  have hgreetings : (s .server).greetings x.acked =
      .handshakeOk (s .server).id (s .server).inbox.received ::
        ((s .server).outbox.acknowledge x.acked).2.replay (s .server).inbox.received := by
    rw [Session.greetings, if_pos hrole]
    rfl
  exact {
    unasked := fun hn => by
      have hnil := (h.unasked hn).1 .server
      rw [hq] at hnil
      cases hnil
    early := fun he => by
      rcases he with he | he
      · cases he.symm.trans hc
      · exact (hnone (by rwa [Function.update_self] at he)).elim
    asked := fun _ => by
      rw [hqueue]
      rcases List.prefix_cons_iff.mp (hgreetings ▸ hp.trans hfirst) with hp | ⟨q, rfl, hq⟩
      · exact .inl hp
      · exact .inr ⟨_, q, rfl, rfl, fun z hz => ordinary_replay _ _ z (hq.subset hz)⟩
    agreed := fun _ _ => by
      refine ⟨hempty, fun hnone => ?_⟩
      by_contra hb
      obtain ⟨-, hwhole', htaken⟩ := hall (by simpa using hb)
      rw [hqueue, hwhole', hwhole htaken, hgreetings] at hnone
      cases hnone
    ordinary := fun r' ha => by
      cases r' with
      | client => exact (hnot (hclient ▸ ha)).elim
      | server =>
        rw [hempty]
        exact List.forall_mem_nil _
    flow := fun r' hr => by
      cases r' with
      | client =>
        refine Flow.greet (r := .server) hs hnil hlane ?_ ?_
        · rw [Function.update_self]
          exact ho
        · rw [Function.update_self]
          exact hclient ▸ hack
      | server =>
        refine ⟨_, _, .empty ?_ ?_⟩
        · rw [hempty]
          rfl
        · exact hclient ▸ hnot }

/-! ### Every shift -/

/-- A side acknowledges what it received. -/
theorem Orderly.reply (h : l.Orderly (Function.update s r a')) (hs' : a'.Coherent) {n : Int}
    (hc : l.conn r = some c) (ha : a'.active = some c) (hn : n = a'.inbox.acked) (m : Moment)
    (id : SessionId) :
    (l.carry r [Session.handing m c (.ack id n)]).Orderly (Function.update s r a') := by
  have hhands : l.Hands r (Function.update s r a' r) a' (.ack id n) := {
    before := ⟨c, hc, by rwa [Function.update_self]⟩
    ordinary := .inr (.inl rfl)
    number := .inr ⟨nofun, by rw [Function.update_self]⟩
    pending := by rw [Function.update_self]; exact fun hp => hp
    latest := by rw [Function.update_self]; exact fun hl => hl
    received := by rw [Function.update_self]
    highestAck := by rw [Function.update_self]
    acked := fun _ => hn }
  have hack := h.hands (by rwa [Function.update_self]) (m.takes c (.ack id n)) hc hhands
  rwa [Function.update_idem] at hack

/-- **What is on the way still fits after a turn.** -/
theorem Orderly.turn (h : l.Orderly s) (hs : ∀ r, (s r).Coherent) (hrole : ∀ r, (s r).role = r)
    (hs' : a'.Coherent) (hp : (s r).Progress a' a)
    (hack : a'.outbox.highestAck ≤ (s r.other).inbox.received) {l' : Link}
    (ht : Turn r (s r) a' l l') : l'.Orderly (Function.update s r a') := by
  cases ht with
  | aside ha => exact h.apart ha hp
  | hands c x taken hc hh => exact h.hands (hs r) taken hc hh
  | opens m t hc ho hm => exact h.opens (hs r) (hrole r) hc ho hm
  | loses keep he =>
    rw [he, Function.update_eq_self]
    exact h.loses r keep
  | hears m c x rest t d hc hq hm =>
    have hreceived := hp.received
    cases hm with
    | ignored hk ho =>
      rw [carry_nil, Function.update_eq_self]
      obtain ⟨hactive, hpending⟩ := h.done_of_ignored (hrole r) hc hq hk ho
      exact h.ignored hc hq hactive hpending
    | completed lifecycle waiting hw hk hph =>
      cases r with
      | client =>
        exact h.answered (hs .client) (hrole .client) hc hq hw rfl rfl rfl hack
      | server => exact h.requested (hs .server) (hrole .server) hc hq hw rfl rfl hack
    | held waiting ha hk hn hd =>
      rw [carry_nil]
      exact h.heard (hs r) ⟨c, hc, ha⟩ hq id hreceived (fun _ _ => le_rfl)
        (Outbox.acknowledge_next _ _)
    | answered waiting ha hk hn =>
      refine Orderly.reply ?_ hs' ?_ ha rfl m _
      · exact h.heard (hs r) ⟨c, hc, ha⟩ hq id hreceived (fun _ _ => le_rfl)
          (Outbox.acknowledge_next _ _)
      · exact hc
    | repeated waiting ha hk hn =>
      refine Orderly.reply ?_ hs' ?_ ha rfl m _
      · refine h.heard (hs r) ⟨c, hc, ha⟩ hq id hreceived (fun _ hle => ?_)
          (Outbox.acknowledge_next _ _)
        exact Int.lt_add_one_iff.mp (lt_of_le_of_ne hle hn)
      · exact hc
    | acked waiting ha hk =>
      rw [carry_nil]
      exact h.heard (hs r) ⟨c, hc, ha⟩ hq id hreceived (fun hk' _ => by rw [hk] at hk'; cases hk')
        (Outbox.acknowledge_next _ _)
    | left waiting lifecycle ha hk ho =>
      rw [carry_nil]
      exact h.heard (hs r) ⟨c, hc, ha⟩ hq (fun hp => (not_pendingFor rfl hp).elim) hreceived
        (fun hk' _ => by rw [hk] at hk'; cases hk') rfl

end Link

/-! ### Every run -/

namespace Linked

variable {f f' : Linked} {id : SessionId} {i : Nat}

/-- What is on the way fits on every connection. -/
def Orderly (f : Linked) : Prop := ∀ i, (f.links i).Orderly f.session

theorem Orderly.shift (h : f.Orderly) (hs : Shift id f f') : f'.Orderly := by
  obtain ⟨r, a, hother, hp, hturn⟩ := hs.turn
  have hsession : f'.session = Function.update f.session r (f'.session r) := by
    funext r'
    rcases Role.eq_or_eq_other r r' with rfl | rfl
    · rw [Function.update_self]
    · rw [Function.update_of_ne (Role.other_ne r), hother]
  have hagree := hs.after.agree.agreement_other r
  have hle := (hs.after.agree.sound r.other).coherent.inbox.acked_le
  have hack : (f'.session r).outbox.highestAck ≤ (f.session r.other).inbox.received :=
    hother ▸ hagree.acked.trans hle
  intro i
  rw [hsession]
  exact (h i).turn (fun r => (hs.before.agree.sound r).coherent)
    (fun r => (hs.before.agree.sound r).role) (hs.after.agree.sound r).coherent hp hack (hturn i)

theorem Reachable.orderly (h : f.Reachable) : f.Orderly ∧ ∃ id, f.Wired id :=
  h.induction (fun _ _ _ => .begin) fun _ _ _ hs h => h.shift hs

/-- Where nothing was lost and nothing is on the way, everything was received. -/
theorem Orderly.settled_received (h : f.Orderly) (hw : f.Wired id) (hi : f.Settled i)
    (side : Role) : (f.session side).inbox.received = (f.session side.other).outbox.next - 1 := by
  obtain ⟨low, high, hf⟩ := (h i).flow side (.inl (hi.joined side))
  have hnumbers := hf.numbers
  have hlow := hf.next
  rw [(hi.clear side).2, Message.numbers_nil] at hnumbers
  have hhigh := Sequence.range_eq_nil hnumbers.symm
  have hall := hf.all (hi.joined side.other) (hi.clear side).1
  have hbehind := (hw.agree.agreement side).behind
  simp only [session] at hall hlow ⊢
  omega

/-- **No gap and no loss.** Whatever happens on connections that lose only what comes last,
a payload that comes on the active connection is never found to be too early; and where
both sides have the same connection active, nothing was lost on it and nothing is on the
way, each side has received all that the other one accepted. -/
theorem no_gap_no_loss (h : f.Reachable) :
    (∀ i side c x rest, (f.links i).conn side = some c → (f.session side).active = some c →
      ((f.links i).lane side).queue = x :: rest → x.kind = .send →
        ∀ n, ((f.session side).inbox.receive (f.session side).config.maxDelayedAcks x.seq).1 ≠ .gap n) ∧
      ∀ i, f.Settled i → ∀ side,
        (f.session side).inbox.received = (f.session side.other).outbox.next - 1 := by
  obtain ⟨horderly, id, hwired⟩ := h.orderly
  refine ⟨fun i side c x rest hc ha hq hk n hgap => ?_, fun i hi side => ?_⟩
  · have hle := (horderly i).not_gap ⟨c, hc, ha⟩ hq hk
    have hlt := Inbox.lt_of_receive_gap hgap
    omega
  · exact horderly.settled_received hwired hi side

/-- A payload is lost with its connection, and replayed on the next one. -/
def replacement (m : Moment) : List Event :=
  [.connect .client m 0, .connect .server m 0, .deliver .server m 0, .deliver .client m 0,
    .act .client m (.trySend [7]) trivial, .lose .server 0 0,
    .act .client m (.disconnected 0 false) trivial, .connect .client m 1, .connect .server m 1,
    .deliver .server m 1, .deliver .client m 1]

/-- The replayed payload is no gap, and once it arrives the server received all. -/
theorem no_gap_no_loss_replacement :
    let id := SessionId.ofNat 1
    let m : Moment := ⟨0, fun _ _ => true⟩
    let f := (begin (.start .client id {} 0) (.start .server id {} 0)).run (replacement m)
    let g := f.run [.deliver .server m 1]
    (f.Reachable ∧ ((f.links 1).lane .server).queue = [.send id 0 noSequence [7]] ∧
      ∀ n, ((f.session .server).inbox.receive (f.session .server).config.maxDelayedAcks 0).1 ≠ .gap n) ∧
      g.Reachable ∧ g.Settled 1 ∧
        (g.session .server).inbox.received = (g.session .client).outbox.next - 1 := by
  intro id m f g
  have hf : f.Reachable := ⟨id, {}, {}, 0, 0, _, _, _, rfl, rfl, rfl⟩
  have hg : g.Reachable := hf.run _
  have hq : ((f.links 1).lane .server).queue = [.send id 0 noSequence [7]] := by decide +kernel
  have hi : g.Settled 1 := {
    joined := fun side => ⟨1, by cases side <;> decide +kernel⟩
    clear := fun side => by cases side <;> exact ⟨by decide +kernel, by decide +kernel⟩ }
  have hc : (f.links 1).conn .server = some 1 := by decide +kernel
  have ha : (f.session .server).active = some 1 := by decide +kernel
  clear_value f g
  refine ⟨⟨hf, hq, ?_⟩, hg, hi, ?_⟩
  · exact (no_gap_no_loss hf).1 1 .server 1 _ _ hc ha hq rfl
  · exact (no_gap_no_loss hg).2 1 hi .server

end Linked

end Tether
