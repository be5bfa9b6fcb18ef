import Tether.Proofs.Net.Scene

/-!
# What the client hears

On its active connection the client hears the session that answered last, and stays
consistent with it. On its pending connection it may hear an answer, of the same session
or of a newer one. A newer session received nothing yet, so the client is consistent
with it only if nothing that the client sent was acknowledged (`Sound.completes`).
-/

namespace Tether.Net.Scene

variable {sc : Scene} {wires : Array Wire} {i j : Nat} {w : Wire} {s g : Session} {c : ConnectionId}

/-! ### The client goes on -/

/-- The client's session goes on without an answer. -/
theorem Sound.client_goes (h : sc.Sound wires) (hcoherent : s.Coherent) (hgrows : sc.client.Grows s)
    (hnext : sc.client.nextConnection ≤ s.nextConnection)
    (hcount : s.handshakes = sc.client.handshakes)
    (hactive : ∀ c ∈ s.active, c ∈ sc.client.active)
    (hpending : ∀ c, s.Awaits c → sc.client.Awaits c ∨ c = sc.client.nextConnection)
    (hun : sc.completions = [] → s.outbox.highestAck = sc.client.outbox.highestAck ∧
      s.inbox.received = sc.client.inbox.received)
    (hpartner : sc.Partner → { sc with client := s }.Partner) :
    { sc with client := s }.Sound wires :=
  { h with
    coherent := hcoherent
    role := hgrows.role.trans h.role
    hosts := fun j g hg =>
      let ⟨hc, hr, hid⟩ := h.hosts j g hg
      ⟨hc, hr, hid.trans hgrows.id.symm⟩
    directory := fun e he => ⟨(h.directory e he).1.trans hgrows.id.symm, (h.directory e he).2⟩
    fair := fun i w hw => by
      have hf := h.fair i w hw
      refine hf.mono hgrows.id hnext rfl (fun _ g hg => ⟨g, hg, .refl g⟩) (fun _ hk => hk)
        (fun c hb hc => hf.active c hb (hactive c hc)) fun c hb hc => ?_
      rcases hpending c hc with hc | rfl
      · exact hf.pending c hb hc
      · exact absurd (hf.lt_of_bound hb) (lt_irrefl _)
    count := h.count.trans hcount.symm
    unanswered := fun hnil =>
      ⟨(hun hnil).1.trans (h.unanswered hnil).1, (hun hnil).2.trans (h.unanswered hnil).2⟩
    partner := fun hall => hpartner (h.partner hall) }

/-- The client acts of its own accord, or time passes for it. -/
theorem Sound.client_keeps (h : sc.Sound wires) {t : List Transmission}
    (hk : sc.client.Keeps s t) : { sc with client := s }.Sound wires := by
  refine h.client_goes hk.coherent hk.grows hk.nextConnection.ge hk.handshakes hk.active ?_ ?_ ?_
  · rintro c ⟨p, hp, hc⟩
    exact .inl ⟨p, hk.pending p hp, hc⟩
  · exact fun _ => ⟨hk.highestAck, hk.received⟩
  · intro hpartner k hlast j hj g hg
    obtain ⟨hack, hreceived⟩ := hpartner k hlast j hj g hg
    exact ⟨hk.highestAck.trans_le hack, hk.received.trans_lt hreceived⟩

/-! ### What is written -/

theorem Sound.short (h : s.Coherent) {x : Message} (hx : s.Said x) : Short x :=
  (Nat.add_le_add_left hx.short _).trans (Config.header_add_maxPayload_le h.config)

/-- A session of the server writes over its connections. -/
theorem Sound.host_writes (h : sc.Sound wires) (hg : g ∈ sc.server.hosted[j]?)
    {effects : List Effect} (hsaid : ∀ τ ∈ Effect.transmitted effects, g.Said τ.message) :
    sc.Sound (wires.map (Wire.applyAll (.server j) effects)) := by
  obtain ⟨hc, -, hid⟩ := h.hosts j g hg
  refine h.write _ _ (fun i w hw τ _ hb => ((h.fair i w hw).not_bound_dialer j τ.conn hb).elim) ?_
  intro i w hw τ hτ hb
  refine ⟨Sound.short hc (hsaid τ hτ), (hsaid τ hτ).session.trans hid, .inr ?_⟩
  exact ⟨j, (h.fair i w hw).served_of_bound hb, g, hg, hsaid τ hτ⟩

/-- The client writes over its connections. -/
theorem Sound.client_writes (h : sc.Sound wires) {effects : List Effect}
    (hsaid : ∀ τ ∈ Effect.transmitted effects, sc.client.Said τ.message)
    (hasks : ∀ τ ∈ Effect.transmitted effects, ∀ (i : Nat), ∀ w ∈ wires[i]?,
      w.Bound .dialer .client τ.conn → τ.message.kind = .handshake ∨ ∃ k ∈ sc.completions, k.wire = i) :
    sc.Sound (wires.map (Wire.applyAll .client effects)) := by
  refine h.write _ _ ?_ fun i w hw τ _ hb => ((h.fair i w hw).not_bound_acceptor τ.conn hb).elim
  intro i w hw τ hτ hb
  exact ⟨Sound.short h.coherent (hsaid τ hτ), (hsaid τ hτ).session, hasks τ hτ i w hw hb⟩

/-! ### What is heard -/

variable {m : Moment} {t : List Transmission} {d : List Bytes} {x y : Message}

/-- A session of the server hears what the client may have written. -/
theorem Sound.host_hears (h : sc.Sound wires) (hj : sc.served i = some j)
    (hg : g ∈ sc.server.hosted[j]?)
    (hy : y.kind = .handshake ∨ ∃ k ∈ sc.completions, k.wire = i) (hh : g.Hears m c y s t d) :
    { sc with server := { sc.server with hosted := sc.server.hosted.setIfInBounds j s } }.Sound
        wires ∧ ∀ τ ∈ t, s.Said τ.message := by
  have hc := (h.hosts j g hg).1
  have hs := hh.coherent hc
  refine ⟨h.host_goes hg hs (hh.progress hc).grows fun hn => ?_, fun τ hτ => hs.said (hh.tells hc τ hτ)⟩
  rcases hh.received with hr | ⟨hk, -⟩
  · exact hr
  · rcases hy with hy | ⟨k, hk', hi⟩
    · cases hk.symm.trans hy
    · obtain ⟨j', hj', hs'⟩ := h.answered k hk'
      rw [hi, hj] at hs'
      cases hs'
      exact absurd (hn k hk' j hj') (lt_irrefl _)

/-- The numbers in a message that is read are no greater than those in a message that a
session of the server said. -/
theorem Answers.bounds (hx : sc.Answers i x) (hy : Message.decode x.encode = .ok y)
    (hk : y.kind ≠ .handshakeFail) :
    ∃ j ∈ sc.served i, ∃ g ∈ sc.server.hosted[j]?, y.acked ≤ g.inbox.acked ∧
      (y.kind = .send → y.seq < g.outbox.next) := by
  obtain ⟨-, hkind, hseq, hacked⟩ := x.of_decode_encode hy
  obtain ⟨-, hfail | ⟨j, hj, g, hg, hsaid⟩⟩ := hx
  · exact (hk (hkind.trans hfail)).elim
  · refine ⟨j, hj, g, hg, ?_, fun hsend => ?_⟩
    · rw [hacked]
      exact (BigEndian.decodeInt_encodeInt_le hsaid.low).trans hsaid.acked
    · obtain ⟨hlow, hlt⟩ := hsaid.number (hkind.symm.trans hsend)
      rw [hseq]
      refine (BigEndian.decodeInt_encodeInt_le ?_).trans_lt hlt
      simp only [noSequence]
      omega

/-- On its active connection the client hears the session that answered last. -/
theorem Sound.partner_hears (h : sc.Sound wires) (hw : w ∈ wires[i]?)
    (hb : w.Bound .dialer .client c) (hx : sc.Answers i x) (hy : Message.decode x.encode = .ok y)
    (hh : sc.client.Hears m c y s t d) (hcount : s.handshakes = sc.client.handshakes) :
    (sc.completions = [] → s.outbox.highestAck = sc.client.outbox.highestAck ∧
      s.inbox.received = sc.client.inbox.received) ∧
      (sc.Partner → { sc with client := s }.Partner) := by
  have hf := h.fair i w hw
  have hreceived := hh.received
  have hack : s.outbox.highestAck = sc.client.outbox.highestAck ∨
      (c ∈ sc.client.active ∧ y.kind ≠ .handshakeFail ∧ s.outbox.highestAck ≤ y.acked) := by
    refine hh.highestAck.imp_right fun ⟨hc, hk, hle⟩ => ⟨hc.resolve_right ?_, hk, hle⟩
    omega
  constructor
  · intro hnil
    have hinactive : c ∉ sc.client.active := fun hc => by
      obtain ⟨k, hk, -⟩ := hf.active c hb hc
      rw [hnil] at hk
      cases hk
    exact ⟨hack.resolve_right fun ha => hinactive ha.1,
      hreceived.resolve_right fun hr => hinactive hr.2.1⟩
  · intro hpartner k hlast j hj g hg
    -- What is heard there was said by the session that answered last.
    have hsame : c ∈ sc.client.active → y.kind ≠ .handshakeFail →
        y.acked ≤ g.inbox.acked ∧ (y.kind = .send → y.seq < g.outbox.next) := by
      intro hc hk
      obtain ⟨k', hlast', hi⟩ := hf.active c hb hc
      cases hlast.symm.trans hlast'
      obtain ⟨j', hj', hs'⟩ := h.answered k (List.mem_of_getLast? hlast)
      cases hj.symm.trans hj'
      obtain ⟨j'', hj'', g', hg', hle, hlt⟩ := hx.bounds hy hk
      rw [hi] at hs'
      cases hs'.symm.trans hj''
      cases hg.symm.trans hg'
      exact ⟨hle, hlt⟩
    obtain ⟨hpack, hpreceived⟩ := hpartner k hlast j hj g hg
    have hgle := (h.hosts j g hg).1.inbox.acked_le
    constructor
    · rcases hack with hack | ⟨hc, hk, hle⟩
      · exact hack.trans_le hpack
      · exact hle.trans ((hsame hc hk).1.trans hgle)
    · rcases hreceived with hr | ⟨hk, hc, hr⟩
      · exact hr.trans_lt hpreceived
      · exact hr.trans_lt ((hsame hc (by rw [hk]; decide)).2 hk)

/-! ### The client completes a handshake -/

/-- If all was well before, then it is after an answer exactly if the answer is one of
the same session, or of one to which nothing is missing. -/
theorem Sound.consistent_iff (h : sc.Sound wires) (hall : ∀ k ∈ sc.completions, k.Consistent)
    (hs : s.Coherent) (hg : g ∈ sc.server.hosted[j]?)
    (hle : ∀ k ∈ sc.completions, ∀ j' ∈ k.host, j' ≤ j)
    (hreceived : s.inbox.received = sc.client.inbox.received)
    (hack : s.outbox.highestAck = sc.client.outbox.highestAck ∨
      s.outbox.highestAck ≤ g.inbox.received) :
    Consistent s g ↔ ∀ k ∈ sc.completions.getLast?, k.Follows ⟨i, s, some j, some g⟩ := by
  have hgc := (h.hosts j g hg).1
  have hlow : noSequence ≤ g.inbox.received := hgc.inbox.low.trans hgc.inbox.acked_le
  have hslow := hs.outbox.low
  cases hlast : sc.completions.getLast? with
  | none =>
    obtain ⟨hnoack, hnothing⟩ := h.unanswered (List.getLast?_eq_none_iff.mp hlast)
    have hnext : noSequence < g.outbox.next := hgc.outbox.low.trans_lt hgc.outbox.high
    refine iff_of_true ⟨?_, ?_⟩ fun _ hk => by cases hk
    · rcases hack with hack | hack
      · rwa [hack, hnoack]
      · exact hack
    · rwa [hreceived, hnothing]
  | some k =>
    have hk := List.mem_of_getLast? hlast
    obtain ⟨j', hj', -⟩ := h.answered k hk
    have hj := hle k hk j' hj'
    have hsome : (∀ k' ∈ some k, k'.Follows ⟨i, s, some j, some g⟩) ↔
        k.Follows ⟨i, s, some j, some g⟩ :=
      ⟨fun hf => hf k rfl, fun hf k' hk' => by cases hk'; exact hf⟩
    rw [hsome]
    rcases hj.eq_or_lt with rfl | hlt
    · obtain ⟨hpack, hpreceived⟩ := h.partner hall k hlast j' hj' g hg
      refine iff_of_true ⟨?_, ?_⟩ (.inl hj'.symm)
      · rcases hack with hack | hack
        · rwa [hack]
        · exact hack
      · rwa [hreceived]
    · -- A newer session received nothing, so that it must have been nothing.
      have hfresh : g.inbox.received = noSequence :=
        h.fresh j (fun k' hk' j₁ hj₁ => (h.latest k' hk' j₁ hj₁ k hlast j' hj').trans_lt hlt) g hg
      have hne : k.Follows ⟨i, s, some j, some g⟩ ↔
          Completion.Harmless ⟨i, s, some j, some g⟩ := by
        refine or_iff_right fun he => ?_
        have he : some j = k.host := he
        cases he.trans hj'
        exact absurd hlt (lt_irrefl _)
      rw [hne]
      constructor
      · rintro ⟨hle, hlt⟩
        exact ⟨g, rfl, le_antisymm (hfresh ▸ hle) hslow, hlt⟩
      · rintro ⟨g', hg', hle, hlt⟩
        cases hg'
        exact ⟨(hle.trans hfresh.symm).le, hlt⟩

/-- **The client completes a handshake**, which a session of the server answered. -/
theorem Sound.completes (h : sc.Sound wires) (hw : w ∈ wires[i]?) (hb : w.Bound .dialer .client c)
    (hp : sc.client.Awaits c) (hs : s.Coherent) (hgrows : sc.client.Grows s)
    (hnext : s.nextConnection = sc.client.nextConnection) (hactive : s.active = some c)
    (hpending : s.pending = none) (hcount : s.handshakes = sc.client.handshakes + 1)
    (hreceived : s.inbox.received = sc.client.inbox.received) (hj : sc.served i = some j)
    (hg : g ∈ sc.server.hosted[j]?)
    (hack : s.outbox.highestAck = sc.client.outbox.highestAck ∨
      s.outbox.highestAck ≤ g.inbox.received) :
    { sc with client := s, completions := sc.completions ++ [Completion.mk i s (some j) (some g)] }.Sound
      wires := by
  have hle := (h.fair i w hw).pending c hb hp j hj
  have hiff := fun hall => h.consistent_iff (i := i) hall hs hg hle hreceived hack
  have hmem : ∀ k ∈ (sc.completions ++ [Completion.mk i s (some j) (some g)]).getLast?,
      k = ⟨i, s, some j, some g⟩ := fun k hk => by
    rw [List.getLast?_concat] at hk
    exact (Option.some.inj hk).symm
  have hlast : (sc.completions ++ [Completion.mk i s (some j) (some g)]).getLast? =
      some (.mk i s (some j) (some g)) := List.getLast?_concat
  have hone : (Completion.mk i s (some j) (some g)).Consistent ↔ Consistent s g :=
    ⟨fun ⟨_, hg', hc⟩ => by cases hg'; exact hc, fun hc => ⟨g, rfl, hc⟩⟩
  exact { h with
    coherent := hs
    role := hgrows.role.trans h.role
    hosts := fun j g hg =>
      let ⟨hc, hr, hid⟩ := h.hosts j g hg
      ⟨hc, hr, hid.trans hgrows.id.symm⟩
    directory := fun e he => ⟨(h.directory e he).1.trans hgrows.id.symm, (h.directory e he).2⟩
    fair := fun i' w' hw' => by
      refine (h.fair i' w' hw').mono hgrows.id hnext.ge rfl (fun _ g hg => ⟨g, hg, .refl g⟩)
        (fun k hk => List.mem_append_left _ hk) (fun c' hb' hc' => ?_) fun c' hb' hc' => ?_
      · cases hactive.symm.trans hc'
        exact ⟨_, hlast, h.distinct i i' c w hw w' hw' hb hb'⟩
      · obtain ⟨p, hp', -⟩ := hc'
        rw [show s.pending = none from hpending] at hp'
        cases hp'
    answered := fun k hk => by
      rcases List.mem_append.mp hk with hk | hk
      · exact h.answered k hk
      · rw [List.mem_singleton.mp hk]
        exact ⟨j, rfl, hj⟩
    latest := fun k hk j₁ hj₁ l hl j₂ hj₂ => by
      rw [hmem l hl] at hj₂
      cases hj₂
      rcases List.mem_append.mp hk with hk | hk
      · exact hle k hk j₁ hj₁
      · rw [List.mem_singleton.mp hk] at hj₁
        cases hj₁
        exact le_rfl
    fresh := fun j' hn => h.fresh j' fun k hk => hn k (List.mem_append_left _ hk)
    count := by
      rw [List.length_append, h.count]
      exact hcount.symm
    unanswered := fun hnil => by simp at hnil
    partner := fun hall k hk j' hj' g' hg' => by
      rw [hmem k hk] at hj'
      cases hj'
      cases hg.symm.trans hg'
      exact hone.mp (hall _ (List.mem_append_right _ List.mem_cons_self))
    chain := by
      rw [List.forall_mem_append, List.isChain_append, ← h.chain]
      refine and_congr_right fun hall => ?_
      rw [List.forall_mem_singleton, hone, hiff hall]
      exact ⟨fun hf => ⟨List.isChain_singleton _, fun k hk k' hk' => by cases hk'; exact hf k hk⟩,
        fun hf k hk => hf.2 k hk _ rfl⟩ }

/-! ### What a session does -/

variable {effects : List Effect}

/-- What a session of the server does of its own accord. -/
theorem Sound.host_acts (h : sc.Sound wires) (hg : g ∈ sc.server.hosted[j]?)
    (hk : g.Keeps s (Effect.transmitted effects)) :
    { sc with server := { sc.server with hosted := sc.server.hosted.setIfInBounds j s } }.Sound
      (wires.map (Wire.applyAll (.server j) effects)) := by
  have hlt : j < sc.server.hosted.size := (Array.getElem?_eq_some_iff.mp hg).1
  refine (h.host_goes hg hk.coherent hk.grows fun _ => hk.received).host_writes (g := s) ?_
    fun τ hτ => (hk.said τ hτ).1
  exact Array.getElem?_setIfInBounds_self_of_lt hlt

/-- A session of the server has a new connection. -/
theorem Sound.host_opens (h : sc.Sound wires) (hg : g ∈ sc.server.hosted[j]?)
    (ho : g.Opens m s (Effect.transmitted effects)) :
    { sc with server := { sc.server with hosted := sc.server.hosted.setIfInBounds j s } }.Sound
      (wires.map (Wire.applyAll (.server j) effects)) := by
  have hlt : j < sc.server.hosted.size := (Array.getElem?_eq_some_iff.mp hg).1
  have hc := (h.hosts j g hg).1
  have hs := ho.coherent hc
  refine (h.host_goes hg hs (ho.progress hc).grows fun _ => ho.received).host_writes (g := s) ?_
    fun τ hτ => hs.said (ho.tells hc τ hτ)
  exact Array.getElem?_setIfInBounds_self_of_lt hlt

/-- What a session of the server does about a message. -/
theorem Sound.host_answers (h : sc.Sound wires) (hj : sc.served i = some j)
    (hg : g ∈ sc.server.hosted[j]?) (hy : y.kind = .handshake ∨ ∃ k ∈ sc.completions, k.wire = i)
    (hh : g.Hears m c y s (Effect.transmitted effects) d) :
    { sc with server := { sc.server with hosted := sc.server.hosted.setIfInBounds j s } }.Sound
      (wires.map (Wire.applyAll (.server j) effects)) := by
  have hlt : j < sc.server.hosted.size := (Array.getElem?_eq_some_iff.mp hg).1
  obtain ⟨hs, hsaid⟩ := h.host_hears hj hg hy hh
  exact hs.host_writes (g := s) (Array.getElem?_setIfInBounds_self_of_lt hlt) hsaid

/-- What the client does of its own accord. -/
theorem Sound.client_acts (h : sc.Sound wires)
    (hk : sc.client.Keeps s (Effect.transmitted effects)) :
    { sc with client := s }.Sound (wires.map (Wire.applyAll .client effects)) := by
  refine (h.client_keeps hk).client_writes (fun τ hτ => (hk.said τ hτ).1) fun τ hτ i w hw hb => ?_
  obtain ⟨k, hlast, hi⟩ := (h.fair i w hw).active τ.conn hb (hk.said τ hτ).2
  exact .inr ⟨k, List.mem_of_getLast? hlast, hi⟩

/-- What the client does about a message: it completes a handshake, or does not. -/
theorem Sound.client_hears (h : sc.Sound wires) (hw : w ∈ wires[i]?)
    (hb : w.Bound .dialer .client c) (hx : sc.Answers i x) (hy : Message.decode x.encode = .ok y)
    (hh : sc.client.Hears m c y s (Effect.transmitted effects) d) :
    (s.handshakes = sc.client.handshakes ∧
        { sc with client := s }.Sound (wires.map (Wire.applyAll .client effects))) ∨
      (s.handshakes = sc.client.handshakes + 1 ∧ ∃ j, sc.served i = some j ∧
        ∃ g ∈ sc.server.hosted[j]?,
          { sc with client := s, completions := sc.completions ++
              [Completion.mk i s (some j) (some g)] }.Sound
            (wires.map (Wire.applyAll .client effects))) := by
  have hs := hh.coherent h.coherent
  have hgrows := (hh.progress h.coherent).grows
  have hsaid : ∀ τ ∈ Effect.transmitted effects, s.Said τ.message :=
    fun τ hτ => hs.said (hh.tells h.coherent τ hτ)
  rcases hh.connections with ⟨hcount, hp, hk, hactive, hpending⟩ | ⟨hcount, hactive, hpending⟩
  · have hk : y.kind = .handshakeOk := by rw [hk, h.role]; rfl
    obtain ⟨j, hj, g, hg, hle, -⟩ := hx.bounds hy (by rw [hk]; decide)
    have hack : s.outbox.highestAck = sc.client.outbox.highestAck ∨
        s.outbox.highestAck ≤ g.inbox.received := by
      refine hh.highestAck.imp_right fun ha => ha.2.2.trans (hle.trans ?_)
      exact (h.hosts j g hg).1.inbox.acked_le
    have hreceived : s.inbox.received = sc.client.inbox.received :=
      hh.received.resolve_right fun hr => by rw [hr.1] at hk; cases hk
    refine .inr ⟨hcount, j, hj, g, hg, ?_⟩
    refine (h.completes hw hb hp hs hgrows hh.nextConnection hactive hpending hcount hreceived hj hg
      hack).client_writes hsaid fun τ hτ i' w' hw' hb' => .inr ?_
    obtain rfl := (hh.conn τ hτ).1
    exact ⟨_, List.mem_append_right _ List.mem_cons_self, h.distinct i i' _ w hw w' hw' hb hb'⟩
  · obtain ⟨hun, hpartner⟩ := h.partner_hears hw hb hx hy hh hcount
    refine .inl ⟨hcount, ?_⟩
    refine (h.client_goes hs hgrows hh.nextConnection.ge hcount hactive ?_ hun hpartner).client_writes
      hsaid fun τ hτ i' w' hw' hb' => .inr ?_
    · rintro c ⟨p, hp, hc⟩
      exact .inl ⟨p, hpending p hp, hc⟩
    · obtain ⟨hconn, hc⟩ := hh.conn τ hτ
      rw [hconn] at hb'
      obtain ⟨k, hlast, hi⟩ := (h.fair i' w' hw').active c hb' (hactive c hc)
      exact ⟨k, List.mem_of_getLast? hlast, hi⟩

/-- The client has a new connection, and asks for the handshake on it. -/
theorem Sound.client_opens (h : sc.Sound wires) {n t : Nat}
    (ho : sc.client.Opens m s (Effect.transmitted effects)) (hne : ¬ sc.client.lifecycle.Over) :
    { sc with client := s }.Sound ((wires.push
      { dialer := { stage := .bound .client sc.client.nextConnection n },
        acceptor := { stage := .greeting t } }).map (Wire.applyAll .client effects)) := by
  have hs := ho.coherent h.coherent
  have hsaid : ∀ τ ∈ Effect.transmitted effects, s.Said τ.message :=
    fun τ hτ => hs.said (ho.tells h.coherent τ hτ)
  have hgrows := (ho.progress h.coherent).grows
  generalize htold : Effect.transmitted effects = told at ho
  cases ho with
  | refused hover => exact (hne hover).elim
  | waits deadline _ hr => cases hr.symm.trans h.role
  | asks deadline =>
    have hgoes := h.client_goes hs hgrows (Nat.le_succ _) rfl (fun _ hc => hc)
      (fun c ⟨p, hp, hc⟩ => by cases hp; exact .inr hc.symm) (fun _ => ⟨rfl, rfl⟩) id
    refine (hgoes.push (hgoes.fair_new rfl rfl rfl ?_) ?_).client_writes hsaid
      fun τ hτ i w hw hb => .inl ?_
    · refine .inr ⟨_, n, rfl, Nat.lt_succ_self _, fun hc => ?_⟩
      exact absurd (h.coherent.numbered _ hc) (lt_irrefl _)
    · rintro c ⟨_, hb⟩ i v hv hb'
      cases hb
      exact absurd ((h.fair i v hv).lt_of_bound hb') (lt_irrefl _)
    · rw [htold] at hτ
      rw [List.mem_singleton.mp hτ]
      rfl

end Tether.Net.Scene
