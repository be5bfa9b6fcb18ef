import Tether.Proofs.Linked.Flow

/-!
# No acknowledgement goes astray

What a side noted as acknowledged is acknowledged: the peer processed it, or it is on
the way (`Prompt`). There is one exception. A client that opens a connection notes what
it received, and the handshake that says so may be lost with the connection. Then the
server replays on the next one a payload that the client received before, and gets the
acknowledgement for that.

So where nothing is on the way, a side retains what the peer received and holds back,
which is less than the limit (`settled_unacknowledged`).
-/

namespace Tether

namespace Link

variable {l : Link} {r : Role} {s : Role → Session} {a' : Session} {m : Moment}
  {t : List Transmission} {a d : List Bytes} {c : ConnectionId} {x : Message} {rest : List Message}

/-- The peer processed the acknowledgement `n`, or it is on the way. -/
def Acknowledged (q : List Message) (highestAck n : Int) : Prop :=
  highestAck = n ∨ ∃ x ∈ q, x.acked = n

/-- What is on the way may grow, and the peer may process more, up to `n`. -/
theorem Acknowledged.mono {q q' : List Message} {h h' n : Int} (hn : Acknowledged q h n)
    (hq : q ⊆ q') (hle : h ≤ h') (hmax : h' ≤ n) : Acknowledged q' h' n := by
  rcases hn with rfl | ⟨x, hx, hn⟩
  · exact .inl (le_antisymm hmax hle)
  · exact .inr ⟨x, hq hx, hn⟩

/-- The peer processes the oldest message. -/
theorem Acknowledged.process {h h' n : Int} (hn : Acknowledged (x :: rest) h n) (hle : h ≤ h')
    (hx : x.acked ≤ h') (hmax : h' ≤ n) : Acknowledged rest h' n := by
  rcases hn with rfl | ⟨y, hy, rfl⟩
  · exact .inl (le_antisymm hmax hle)
  · rcases List.mem_cons.mp hy with rfl | hy
    · exact .inl (le_antisymm hmax hx)
    · exact .inr ⟨y, hy, rfl⟩

/-- Some payload on the way was received before, and will be acknowledged again. -/
def Repeats (q : List Message) (received : Int) : Prop :=
  ∃ x ∈ q, x.kind = .send ∧ x.seq ≤ received

/-- **What the client `u` or the server `v` noted as acknowledged is acknowledged**, or will
be. -/
structure Prompt (l : Link) (u v : Session) : Prop where
  /-- The acknowledgements of the server. -/
  server : l.ActiveFor .server v → l.ActiveFor .client u ∨ l.PendingFor .client u →
    (l.lane .client).broken = false →
      Acknowledged (l.lane .client).queue u.outbox.highestAck v.inbox.acked
  /-- The server replays all that it retains. -/
  replay : l.ActiveFor .server v → l.PendingFor .client u → (l.lane .client).broken = false →
    Message.numbers (l.lane .client).queue = Int.range (v.outbox.highestAck + 1) v.outbox.next
  /-- The acknowledgements of the client, as long as it opens no other connection. -/
  client : l.ActiveFor .client u → l.ActiveFor .server v → (l.lane .client).broken = false →
    (l.lane .server).broken = false → l.LatestFor .client u →
      Acknowledged (l.lane .server).queue v.outbox.highestAck u.inbox.acked ∨
        Repeats (l.lane .client).queue u.inbox.received

variable {u v u' v' : Session}

/-- Nothing has to be acknowledged on a connection that the server does not have active. -/
theorem Prompt.of_server (h : ¬ l.ActiveFor .server v) : l.Prompt u v where
  server := fun hs => (h hs).elim
  replay := fun hs => (h hs).elim
  client := fun _ hs => (h hs).elim

/-- Or that the client is done with. -/
theorem Prompt.of_client (h : ¬ l.ActiveFor .client u) (hp : ¬ l.PendingFor .client u) :
    l.Prompt u v where
  server := fun _ hc => (hc.elim h hp).elim
  replay := fun _ hc => (hp hc).elim
  client := fun hc => (h hc).elim

theorem Prompt.begin : ({} : Link).Prompt u v := .of_server nofun

/-! ### What has to do with something else -/

theorem Prompt.apart_client (h : l.Prompt u v) (ha : l.Apart .client u u') (hp : u.Progress u' a)
    (hm : u'.outbox.highestAck ≤ v.inbox.acked) : l.Prompt u' v where
  server := fun hs hc hb => (h.server hs (hc.imp ha.active ha.pending) hb).mono (List.Subset.refl _)
    hp.highestAck hm
  replay := fun hs hc hb => h.replay hs (ha.pending hc) hb
  client := fun hc hs hb hb' hl => by
    have hacked := (ha.acked hc).resolve_right fun hn => hn.2 hl
    rw [hacked, ha.received hc]
    exact h.client (ha.active hc) hs hb hb' (ha.latest hl)

theorem Prompt.apart_server (h : l.Prompt u v) (ha : l.Apart .server v v') : l.Prompt u v' where
  server := fun hs hc hb => by
    rw [(ha.acked hs).resolve_right fun hn => by cases hn.1]
    exact h.server (ha.active hs) hc hb
  replay := fun hs hc hb => by
    rw [ha.outbox hs]
    exact h.replay (ha.active hs) hc hb
  client := fun hc hs hb hb' hl => by
    rw [ha.outbox hs]
    exact h.client hc (ha.active hs) hb hb' hl

/-- What comes last is lost: then something is broken. -/
theorem Prompt.loses (h : l.Prompt u v) (r : Role) (keep : Nat) : (l.lose r keep).Prompt u v := by
  have hsame := fun r' => (l.lose_prefix r keep r').2
  refine ⟨fun hs hc hb => ?_, fun hs hc hb => ?_, fun hc hs hb hb' hl => ?_⟩
  · have hlane := hsame .client hb
    rw [hlane] at hb ⊢
    exact h.server hs hc hb
  · have hlane := hsame .client hb
    rw [hlane] at hb ⊢
    exact h.replay hs hc hb
  · have hlane := hsame .client hb
    have hlane' := hsame .server hb'
    rw [hlane] at hb ⊢
    rw [hlane'] at hb' ⊢
    exact h.client hc hs hb hb' hl

/-! ### Messages that go on a connection -/

/-- A lane that is not broken has the message that was handed to it. -/
theorem carry_lane_of_intact {taken : Bool} (hc : l.conn r = some c)
    (hb : ((l.carry r [⟨c, x, taken⟩]).lane r.other).broken = false) :
    (l.lane r.other).broken = false ∧
      ((l.carry r [⟨c, x, taken⟩]).lane r.other).queue = (l.lane r.other).queue ++ [x] := by
  rw [carry_of_eq fun τ hτ => by rw [List.mem_singleton.mp hτ]; exact hc] at hb ⊢
  simp only [Function.update_self, Lane.pushAll] at hb ⊢
  rcases (l.lane r.other).push_cases x taken with ⟨-, hlost⟩ | ⟨hold, hpush⟩
  · rw [hlost] at hb
    cases hb
  · rw [hpush]
    exact ⟨hold, rfl⟩

theorem Prompt.hands_client (h : l.Prompt u v) {taken : Bool} (hs : u.Coherent)
    (hc : l.conn .client = some c) (hh : l.Hands .client u u' x) :
    (l.carry .client [⟨c, x, taken⟩]).Prompt u' v where
  server := fun ha _ hb => by
    rw [carry_lane] at hb ⊢
    rw [hh.highestAck]
    exact h.server ha (.inl hh.before) hb
  replay := fun _ hp => (not_active_of_pending hs (hh.pending hp) hh.before).elim
  client := fun ha _ _ hb' _ => by
    have hqueue := (carry_lane_of_intact (r := .client) hc hb').2
    refine .inl (.inr ⟨x, ?_, hh.acked ha⟩)
    exact hqueue ▸ List.mem_append_right _ (List.mem_singleton_self x)

theorem Prompt.hands_server (h : l.Prompt u v) {taken : Bool} (hs : v.Coherent)
    (hc : l.conn .server = some c) (hh : l.Hands .server v v' x) :
    (l.carry .server [⟨c, x, taken⟩]).Prompt u v' where
  server := fun ha _ hb => by
    have hqueue := (carry_lane_of_intact (r := .server) hc hb).2
    refine .inr ⟨x, ?_, hh.acked ha⟩
    exact hqueue ▸ List.mem_append_right _ (List.mem_singleton_self x)
  replay := fun _ hp hb => by
    obtain ⟨hb, hqueue⟩ := carry_lane_of_intact (r := .server) hc hb
    have hold := h.replay hh.before hp hb
    have hhigh := hs.outbox.high
    have hqueue' : ((l.carry .server [⟨c, x, taken⟩]).lane .client).queue =
      (l.lane .client).queue ++ [x] := hqueue
    rw [hqueue', Message.numbers_append, show Message.numbers (l.lane .client).queue = _ from hold,
      hh.highestAck]
    rcases hh.number with ⟨hk, hseq, hnext⟩ | ⟨hk, hnext⟩
    · rw [Message.numbers_cons_send [] hk, Message.numbers_nil, hnext, hseq,
        Sequence.range_concat (by omega)]
    · rw [Message.numbers_cons_other [] hk, Message.numbers_nil, List.append_nil, hnext]
  client := fun ha _ hb hb' hl => by
    obtain ⟨hb, hqueue⟩ := carry_lane_of_intact (r := .server) hc hb
    rw [carry_lane] at hb' ⊢
    rw [hh.highestAck]
    refine (h.client ha hh.before hb hb' hl).imp_right fun ⟨y, hy, hk⟩ => ⟨y, ?_, hk⟩
    exact hqueue ▸ List.mem_append_left _ hy

/-! ### Messages that come -/

/-- What was on the way still is, after more was handed over. -/
theorem carry_intact (hb : ((l.carry r t).lane r.other).broken = false) :
    (l.lane r.other).broken = false ∧
      (l.lane r.other).queue ⊆ ((l.carry r t).lane r.other).queue := by
  rw [carry_lane_other] at hb ⊢
  obtain ⟨p, -, hqueue, hall⟩ := (l.lane r.other).exists_pushAll (l.share r t)
  refine ⟨(hall hb).1, ?_⟩
  rw [hqueue]
  exact List.subset_append_left _ _

/-- A side notes what it received only as it says so on the connection. It says nothing
only about the next payload, or none. -/
def Replies (c : ConnectionId) (x : Message) (a a' : Session) (t : List Transmission) : Prop :=
  (t = [] ∧ a'.inbox.acked = a.inbox.acked ∧ (x.kind = .send → x.seq = a.inbox.received + 1)) ∨
    ∃ id taken, t = [⟨c, .ack id a'.inbox.acked, taken⟩]

/-- The acknowledgement is on the way. -/
theorem mem_reply {id : SessionId} {n : Int} {taken : Bool} (hc : l.conn r = some c)
    (hb : (((l.pop r).carry r [⟨c, .ack id n, taken⟩]).lane r.other).broken = false) :
    .ack id n ∈ (((l.pop r).carry r [⟨c, .ack id n, taken⟩]).lane r.other).queue := by
  rw [(carry_lane_of_intact (l := l.pop r) hc hb).2]
  exact List.mem_append_right _ (List.mem_singleton_self _)

theorem Prompt.heard_client (h : l.Prompt u v) (hs : u.Coherent) (hc : l.conn .client = some c)
    (ha : u.active = some c) (hq : (l.lane .client).queue = x :: rest)
    (hpending : l.PendingFor .client u' → l.PendingFor .client u)
    (hlatest : l.LatestFor .client u' → l.LatestFor .client u) (hp : u.Progress u' a)
    (hx : l.ActiveFor .client u' → x.acked ≤ u'.outbox.highestAck)
    (hm : u'.outbox.highestAck ≤ v.inbox.acked) (ht : Replies c x u u' t) :
    ((l.pop .client).carry .client t).Prompt u' v where
  server := fun hs' hc' hb => by
    have hactive := hc'.resolve_right fun hp => not_active_of_pending hs (hpending hp) ⟨c, hc, ha⟩
    rw [carry_pop_lane_of_cons hq] at hb ⊢
    have hold := h.server hs' (.inl ⟨c, hc, ha⟩) hb
    rw [hq] at hold
    exact hold.process hp.highestAck (hx hactive) hm
  replay := fun _ hp' => (not_active_of_pending hs (hpending hp') ⟨c, hc, ha⟩).elim
  client := fun _ hs' hb hb' hl => by
    rw [carry_pop_lane_of_cons hq] at hb ⊢
    rcases ht with ⟨rfl, hacked, hseq⟩ | ⟨id, taken, rfl⟩
    · rw [carry_nil, hacked] at *
      rcases h.client ⟨c, hc, ha⟩ hs' hb hb' (hlatest hl) with hold | ⟨y, hy, hk, hle⟩
      · exact .inl hold
      · rw [hq] at hy
        rcases List.mem_cons.mp hy with rfl | hy
        · rw [hseq hk] at hle
          omega
        · exact .inr ⟨y, hy, hk, hle.trans hp.received⟩
    · exact .inl (.inr ⟨_, mem_reply hc hb', rfl⟩)

theorem Prompt.heard_server (h : l.Prompt u v) (hc : l.conn .server = some c)
    (ha : v.active = some c) (hq : (l.lane .server).queue = x :: rest)
    (hidle : l.PendingFor .client u → l.ActiveFor .server v → (l.lane .server).queue = [])
    (hp : v.Progress v' a) (hx : l.ActiveFor .server v' → x.acked ≤ v'.outbox.highestAck)
    (hm : v'.outbox.highestAck ≤ u.inbox.acked) (ht : Replies c x v v' t) :
    ((l.pop .server).carry .server t).Prompt u v' where
  server := fun _ hc' hb => by
    rcases ht with ⟨rfl, hacked, -⟩ | ⟨id, taken, rfl⟩
    · rw [carry_nil, hacked] at *
      exact h.server ⟨c, hc, ha⟩ hc' hb
    · exact .inr ⟨_, mem_reply hc hb, rfl⟩
  replay := fun _ hp' => by
    have hnil := hidle hp' ⟨c, hc, ha⟩
    rw [hq] at hnil
    cases hnil
  client := fun hc' hs' hb hb' hl => by
    obtain ⟨hb, hsub⟩ := carry_intact (r := .server) hb
    rw [carry_pop_lane_of_cons hq] at hb' ⊢
    rcases h.client hc' ⟨c, hc, ha⟩ hb hb' hl with hold | ⟨y, hy, hk⟩
    · rw [hq] at hold
      exact .inl (hold.process hp.highestAck (hx hs') hm)
    · exact .inr ⟨y, hsub hy, hk⟩

/-! ### Completed handshakes -/

/-- The client completes its handshake. If the handshake did not say all that it received,
the server replays the first payload that it did not say. -/
theorem Prompt.answered (h : l.Prompt u v) (hs : u.Coherent) (hc : l.conn .client = some c)
    (hw : u.Awaits c) (hq : (l.lane .client).queue = x :: rest) (hk : x.kind ≠ .send)
    (hpending : ¬ l.PendingFor .client u') (hinbox : u'.inbox = u.inbox.flush)
    (hle : u.outbox.highestAck ≤ u'.outbox.highestAck) (hx : x.acked ≤ u'.outbox.highestAck)
    (hm : u'.outbox.highestAck ≤ v.inbox.acked) (hv : v.outbox.highestAck ≤ u.inbox.acked)
    (hbehind : u.inbox.received < v.outbox.next) :
    ((l.pop .client).carry .client t).Prompt u' v where
  server := fun hs' _ hb => by
    rw [carry_pop_lane_of_cons hq] at hb ⊢
    have hold := h.server hs' (.inr ⟨c, hc, hw⟩) hb
    rw [hq] at hold
    exact hold.process hle hx hm
  replay := fun _ hp => (hpending hp).elim
  client := fun _ hs' hb _ _ => by
    rw [carry_pop_lane_of_cons hq] at hb ⊢
    have hnumbers := h.replay hs' ⟨c, hc, hw⟩ hb
    rw [hq, Message.numbers_cons_other rest hk] at hnumbers
    have hacked : u'.inbox.acked = u.inbox.received := by rw [hinbox]; rfl
    have hreceived : u'.inbox.received = u.inbox.received := by rw [hinbox]; rfl
    have hle := hs.inbox.acked_le
    rw [hacked, hreceived]
    by_cases heq : v.outbox.highestAck = u.inbox.received
    · exact .inl (.inl heq)
    · have hmem : v.outbox.highestAck + 1 ∈ Message.numbers rest := by
        rw [hnumbers, Int.mem_range_iff]
        omega
      obtain ⟨y, hy, hk, hseq⟩ := Message.mem_numbers.mp hmem
      exact .inr ⟨y, hy, hk, by omega⟩

/-- The server completes its handshake, and says what it received. -/
theorem Prompt.requested (hs : v.Coherent) (hrole : v.role = .server) (hc : l.conn .server = some c)
    (hnil : (l.lane .client).queue = []) (hclient : ¬ l.ActiveFor .client u)
    (hinbox : v'.inbox = v.inbox.flush) {n : Int}
    (ho : v'.outbox = (v.outbox.acknowledge n).2.reconnect) :
    ((l.pop .server).carry .server (v.welcome m c n)).Prompt u v' := by
  obtain ⟨p, -, hqueue, hall⟩ := (l.lane .client).exists_pushAll (v.welcome m c n)
  have hlane : ((l.pop .server).carry .server (v.welcome m c n)).lane .client =
      (l.lane .client).pushAll (v.welcome m c n) := lane_welcome hc m v n
  rw [hnil, List.nil_append] at hqueue
  rw [← hlane] at hqueue hall
  have hwhole : (((l.pop .server).carry .server (v.welcome m c n)).lane .client).broken = false →
      (((l.pop .server).carry .server (v.welcome m c n)).lane .client).queue = v.greetings n := by
    intro hb
    obtain ⟨-, rfl, htaken⟩ := hall hb
    rw [hqueue, (Session.welcome_prefix m v c n).2 htaken]
  exact {
    server := fun _ _ hb => by
      rw [hwhole hb, Session.greetings, if_pos hrole]
      exact .inr ⟨_, List.mem_cons_self, by rw [hinbox]; rfl⟩
    replay := fun _ _ hb => by
      rw [hwhole hb, Message.numbers_greetings hs, ho]
      congr 1
      exact (Outbox.acknowledge_next v.outbox n).symm
    client := fun hc' => (hclient hc').elim }

/-! ### Every shift -/

/-- A turn in which the client goes on. -/
theorem Prompt.turn_client (h : l.Prompt (s .client) (s .server)) (ho : l.Orderly s)
    (hs : (s .client).Coherent) (hrole : (s .client).role = .client) (hp : (s .client).Progress a' a)
    (hm : a'.outbox.highestAck ≤ (s .server).inbox.acked)
    (hv : (s .server).outbox.highestAck ≤ (s .client).inbox.acked)
    (hbehind : (s .client).inbox.received < (s .server).outbox.next)
    (hsaid : ∀ x ∈ (l.lane .client).queue, x.acked < (s .client).outbox.next) {l' : Link}
    (ht : Turn .client (s .client) a' l l') : l'.Prompt a' (s .server) := by
  cases ht with
  | aside ha => exact h.apart_client ha hp hm
  | hands c x taken hc hh => exact h.hands_client hs hc hh
  | opens m t hc hover hopens =>
    refine .of_server fun ha => ?_
    have hnot := ho.not_active_opens hs hc hopens .server
    rw [Function.update_of_ne (by decide)] at hnot
    exact hnot ha
  | loses keep he =>
    rw [he]
    exact h.loses .client keep
  | hears m c x rest t d hc hq hears =>
    have hx := Outbox.le_acknowledge (hsaid x (by rw [hq]; exact List.mem_cons_self))
    cases hears with
    | ignored hk hord =>
      obtain ⟨hactive, hpending⟩ := ho.done_of_ignored hrole hc hq hk hord
      exact .of_client hactive hpending
    | completed lifecycle waiting hw hk hph =>
      rw [hrole] at hk
      exact h.answered hs hc hw hq (by rw [hk]; decide) (not_pendingFor rfl) rfl hp.highestAck hx hm
        hv hbehind
    | held waiting ha hk hn hd =>
      exact h.heard_client hs hc ha hq id id hp (fun _ => hx) hm (.inl ⟨rfl, rfl, fun _ => hn⟩)
    | answered waiting ha hk hn =>
      exact h.heard_client hs hc ha hq id id hp (fun _ => hx) hm (.inr ⟨_, _, rfl⟩)
    | repeated waiting ha hk hn =>
      exact h.heard_client hs hc ha hq id id hp (fun _ => hx) hm (.inr ⟨_, _, rfl⟩)
    | acked waiting ha hk =>
      exact h.heard_client hs hc ha hq id id hp (fun _ => hx) hm
        (.inl ⟨rfl, rfl, fun hk' => by rw [hk] at hk'; cases hk'⟩)
    | left waiting lifecycle ha hk hover =>
      exact .of_client (not_activeFor rfl) (not_pendingFor rfl)

/-- A turn in which the server goes on. -/
theorem Prompt.turn_server (h : l.Prompt (s .client) (s .server)) (ho : l.Orderly s)
    (hs : (s .server).Coherent) (hrole : (s .server).role = .server) (hp : (s .server).Progress a' a)
    (hm : a'.outbox.highestAck ≤ (s .client).inbox.acked)
    (hsaid : ∀ x ∈ (l.lane .server).queue, x.acked < (s .server).outbox.next) {l' : Link}
    (ht : Turn .server (s .server) a' l l') : l'.Prompt (s .client) a' := by
  cases ht with
  | aside ha => exact h.apart_server ha
  | hands c x taken hc hh => exact h.hands_server hs hc hh
  | opens m t hc hover hopens =>
    refine .of_server fun ha => ?_
    have hnot := ho.not_active_opens hs hc hopens .server
    rw [Function.update_self] at hnot
    exact hnot ha
  | loses keep he =>
    rw [he]
    exact h.loses .server keep
  | hears m c x rest t d hc hq hears =>
    have hx := Outbox.le_acknowledge (hsaid x (by rw [hq]; exact List.mem_cons_self))
    have hidle := fun hp ha => (ho.agreed hp ha).1
    cases hears with
    | ignored hk hord => exact .of_server (ho.done_of_ignored hrole hc hq hk hord).1
    | completed lifecycle waiting hw hk hph =>
      obtain ⟨hnil, hclient, -⟩ := ho.early (.inr ⟨c, hc, hw⟩)
      exact .requested hs hrole hc hnil hclient rfl rfl
    | held waiting ha hk hn hd =>
      exact h.heard_server hc ha hq hidle hp (fun _ => hx) hm (.inl ⟨rfl, rfl, fun _ => hn⟩)
    | answered waiting ha hk hn =>
      exact h.heard_server hc ha hq hidle hp (fun _ => hx) hm (.inr ⟨_, _, rfl⟩)
    | repeated waiting ha hk hn =>
      exact h.heard_server hc ha hq hidle hp (fun _ => hx) hm (.inr ⟨_, _, rfl⟩)
    | acked waiting ha hk =>
      exact h.heard_server hc ha hq hidle hp (fun _ => hx) hm
        (.inl ⟨rfl, rfl, fun hk' => by rw [hk] at hk'; cases hk'⟩)
    | left waiting lifecycle ha hk hover =>
      exact .of_server (not_activeFor rfl)

end Link

namespace Linked

variable {f f' : Linked} {id : SessionId} {i : Nat}

/-- What is noted as acknowledged is acknowledged, on every connection. -/
def Prompt (f : Linked) : Prop := ∀ i, (f.links i).Prompt (f.session .client) (f.session .server)

/-- What a side is told was received was sent before. -/
theorem Wired.said (h : f.Wired id) (i : Nat) (r : Role) :
    ∀ x ∈ ((f.links i).lane r).queue, x.acked < (f.session r).outbox.next := by
  intro x hx
  have hsays := (h.agree.sound r.other).truthful x (h.handed i r x hx)
  have hacked := hsays.acked
  have hle := (h.agree.sound r.other).coherent.inbox.acked_le
  have hbehind := (h.agree.agreement_other r).behind
  exact lt_of_le_of_lt (hacked.trans hle) hbehind

theorem Prompt.shift (h : f.Prompt) (ho : f.Orderly) (hs : Shift id f f') : f'.Prompt := by
  obtain ⟨r, a, hother, hp, hturn⟩ := hs.turn
  have hbefore := hs.before.agree
  have hm := (hs.after.agree.agreement_other r).acked
  intro i
  cases r with
  | client =>
    have hother' : f'.session .server = f.session .server := hother
    have hm' : (f'.session .client).outbox.highestAck ≤ (f'.session .server).inbox.acked := hm
    rw [hother'] at hm' ⊢
    exact (h i).turn_client (ho i) (hbefore.sound .client).coherent (hbefore.sound .client).role hp hm'
      (hbefore.agreement .client).acked (hbefore.agreement .client).behind (hs.before.said i .client)
      (hturn i)
  | server =>
    have hother' : f'.session .client = f.session .client := hother
    have hm' : (f'.session .server).outbox.highestAck ≤ (f'.session .client).inbox.acked := hm
    rw [hother'] at hm' ⊢
    exact (h i).turn_server (ho i) (hbefore.sound .server).coherent (hbefore.sound .server).role hp hm'
      (hs.before.said i .server) (hturn i)

theorem Reachable.prompt (h : f.Reachable) : f.Orderly ∧ f.Prompt ∧ ∃ id, f.Wired id := by
  have hboth := h.induction (P := fun f => f.Orderly ∧ f.Prompt)
    (fun _ _ => ⟨fun _ => .begin, fun _ => .begin⟩)
    fun _ _ _ hs h => ⟨h.1.shift hs, h.2.shift h.1 hs⟩
  exact ⟨hboth.1.1, hboth.1.2, hboth.2⟩

end Linked

end Tether
