import Mathlib.Data.List.Chain
import Tether.Proofs.Net.Watch
import Tether.Proofs.Net.Wires
import Tether.Proofs.Session.Keeps

/-!
# What a client has to do with a server

Of a watched world only the two hosts matter, and what was noted (`Scene`). Each
connection carries what the client said in one direction, and what the one session that
it is for said in the other (`Fair`). The session that answered last is the one whose
messages the client hears, so the two stay consistent if they were when it answered
(`Sound.partner`); a session that came after it received nothing yet (`Sound.fresh`).
-/

namespace Tether.Net

/-- The two hosts, and what was noted. -/
structure Scene where
  client : Session
  server : Server
  served : Nat → Option Nat
  completions : List Completion

namespace Scene

/-- The message may be on the way to the client on connection `i`. -/
def Answers (sc : Scene) (i : Nat) (x : Message) : Prop :=
  x.session = sc.client.id ∧
    (x.kind = .handshakeFail ∨ ∃ j ∈ sc.served i, ∃ h ∈ sc.server.hosted[j]?, h.Said x)

/-- The message may be on the way to the server on connection `i`. Until the client
completed a handshake there, it only asks for one. -/
def Asks (sc : Scene) (i : Nat) (x : Message) : Prop :=
  x.session = sc.client.id ∧ (x.kind = .handshake ∨ ∃ k ∈ sc.completions, k.wire = i)

/-- **Connection `i` joins the client with one session of the server**, or with none. -/
structure Fair (sc : Scene) (i : Nat) (w : Wire) : Prop where
  dialer : w.dialer.stage = .done ∨
    ∃ c n, w.dialer.stage = .bound .client c n ∧ c < sc.client.nextConnection
  acceptor : w.acceptor.stage = .done ∨
    (∃ t, w.acceptor.stage = .greeting t ∧ sc.served i = none) ∨
    ∃ j c n, w.acceptor.stage = .bound (.server j) c n ∧ sc.served i = some j
  toDialer : w.toDialer.Carries (sc.Answers i)
  toAcceptor : w.toAcceptor.Carries (sc.Asks i)
  /-- The active connection is the one that was completed last. -/
  active : ∀ c, w.Bound .dialer .client c → c ∈ sc.client.active →
    ∃ k ∈ sc.completions.getLast?, k.wire = i
  /-- The pending connection is for no older session than those that answered. -/
  pending : ∀ c, w.Bound .dialer .client c → sc.client.Awaits c →
    ∀ j ∈ sc.served i, ∀ k ∈ sc.completions, ∀ j' ∈ k.host, j' ≤ j

/-- Session number `j` is newer than all that answered. -/
def Newer (sc : Scene) (j : Nat) : Prop := ∀ k ∈ sc.completions, ∀ j' ∈ k.host, j' < j

/-- The client is consistent with the session that answered last. -/
def Partner (sc : Scene) : Prop :=
  ∀ k ∈ sc.completions.getLast?, ∀ j ∈ k.host, ∀ h ∈ sc.server.hosted[j]?, Consistent sc.client h

/-- What holds of a watched world at all times. -/
structure Sound (sc : Scene) (wires : Array Wire) : Prop where
  coherent : sc.client.Coherent
  role : sc.client.role = .client
  config : sc.server.config.validate = .ok ()
  hosts : ∀ (j : Nat), ∀ h ∈ sc.server.hosted[j]?, h.Coherent ∧ h.role = .server ∧ h.id = sc.client.id
  /-- The directory has the newest session only. -/
  directory : ∀ e ∈ sc.server.directory, e.1 = sc.client.id ∧ e.2 + 1 = sc.server.hosted.size
  fair : ∀ (i : Nat), ∀ w ∈ wires[i]?, sc.Fair i w
  distinct : ∀ (i i' : Nat) c, ∀ w ∈ wires[i]?, ∀ w' ∈ wires[i']?, w.Bound .dialer .client c →
    w'.Bound .dialer .client c → i = i'
  served : ∀ i, ∀ j ∈ sc.served i, i < wires.size ∧ j < sc.server.hosted.size
  answered : ∀ k ∈ sc.completions, ∃ j, k.host = some j ∧ sc.served k.wire = some j
  /-- No session answers after a newer one did. -/
  latest : ∀ k ∈ sc.completions, ∀ j ∈ k.host, ∀ l ∈ sc.completions.getLast?, ∀ j' ∈ l.host, j ≤ j'
  /-- A session that is newer than all that answered received nothing. -/
  fresh : ∀ j, sc.Newer j → ∀ h ∈ sc.server.hosted[j]?, h.inbox.received = noSequence
  count : sc.completions.length = sc.client.handshakes
  unanswered : sc.completions = [] →
    sc.client.outbox.highestAck = noSequence ∧ sc.client.inbox.received = noSequence
  partner : (∀ k ∈ sc.completions, k.Consistent) → sc.Partner
  chain : (∀ k ∈ sc.completions, k.Consistent) ↔ sc.completions.IsChain Completion.Follows

variable {sc : Scene} {wires wires' : Array Wire} {i j : Nat} {w w' : Wire}

/-! ### Connections -/

theorem Fair.not_bound_dialer (h : sc.Fair i w) (j : Nat) (c : ConnectionId) :
    ¬ w.Bound .dialer (.server j) c := by
  rintro ⟨n, hb⟩
  have hb : w.dialer.stage = .bound (.server j) c n := hb
  rcases h.dialer with hd | ⟨c', n', hd, -⟩ <;> simp [hd] at hb

theorem Fair.not_bound_acceptor (h : sc.Fair i w) (c : ConnectionId) :
    ¬ w.Bound .acceptor .client c := by
  rintro ⟨n, hb⟩
  have hb : w.acceptor.stage = .bound .client c n := hb
  rcases h.acceptor with hd | ⟨t, hd, -⟩ | ⟨j, c', n', hd, -⟩ <;> simp [hd] at hb

/-- The end of a session of the server is that of the session which the connection is
for. -/
theorem Fair.served_of_bound (h : sc.Fair i w) {c : ConnectionId}
    (hb : w.Bound .acceptor (.server j) c) : sc.served i = some j := by
  obtain ⟨n, hb⟩ := hb
  have hb : w.acceptor.stage = .bound (.server j) c n := hb
  rcases h.acceptor with hd | ⟨t, hd, -⟩ | ⟨j', c', n', hd, hs⟩ <;> rw [hd] at hb
  · cases hb
  · cases hb
  · cases hb
    exact hs

/-- The end of the client has a number that the client gave. -/
theorem Fair.lt_of_bound (h : sc.Fair i w) {c : ConnectionId} (hb : w.Bound .dialer .client c) :
    c < sc.client.nextConnection := by
  obtain ⟨n, hb⟩ := hb
  have hb : w.dialer.stage = .bound .client c n := hb
  rcases h.dialer with hd | ⟨c', n', hd, hlt⟩ <;> rw [hd] at hb
  · cases hb
  · cases hb
    exact hlt

theorem Fair.wane (h : sc.Fair i w) (hw : w.Wanes w') : sc.Fair i w' where
  dialer := by
    rcases hw.stage .dialer with hs | hs
    · exact h.dialer.imp hs.trans fun ⟨c, n, hb, hc⟩ => ⟨c, n, hs.trans hb, hc⟩
    · exact .inl hs
  acceptor := by
    rcases hw.stage .acceptor with hs | hs
    · exact h.acceptor.imp hs.trans (Or.imp (fun ⟨t, hb, hn⟩ => ⟨t, hs.trans hb, hn⟩)
        fun ⟨j, c, n, hb, hn⟩ => ⟨j, c, n, hs.trans hb, hn⟩)
    · exact .inl hs
  toDialer := hw.carries .dialer _ h.toDialer
  toAcceptor := hw.carries .acceptor _ h.toAcceptor
  active := fun c hb => h.active c (hw.bound hb)
  pending := fun c hb => h.pending c (hw.bound hb)

/-- Something is written at one end. -/
theorem Fair.write (h : sc.Fair i w) (o : Owner) (effects : List Effect)
    (hdialer : ∀ τ ∈ Effect.transmitted effects, w.Bound .dialer o τ.conn →
      Short τ.message ∧ sc.Asks i τ.message)
    (hacceptor : ∀ τ ∈ Effect.transmitted effects, w.Bound .acceptor o τ.conn →
      Short τ.message ∧ sc.Answers i τ.message) : sc.Fair i (w.applyAll o effects) := by
  have hd : (w.applyAll o effects).dialer.stage = w.dialer.stage := Wire.applyAll_stage effects .dialer
  have ha : (w.applyAll o effects).acceptor.stage = w.acceptor.stage :=
    Wire.applyAll_stage effects .acceptor
  have hb := Wire.bound_iff_of_stage (o := .client)
    (Wire.applyAll_stage (o := o) (w := w) effects .dialer)
  exact {
    dialer := by rw [hd]; exact h.dialer
    acceptor := by rw [ha]; exact h.acceptor
    toDialer := Wire.carries_applyAll .acceptor h.toDialer hacceptor
    toAcceptor := Wire.carries_applyAll .dialer h.toAcceptor hdialer
    active := fun c hc => h.active c ((hb c).mp hc)
    pending := fun c hc => h.pending c ((hb c).mp hc) }

/-- A handshake is refused. -/
theorem Fair.refuse (h : sc.Fair i w) :
    sc.Fair i ((w.write .acceptor (Framing.encode (Message.handshakeFail sc.client.id).encode)).finish
      .acceptor) := by
  have hshort : Short (.handshakeFail sc.client.id) :=
    (by decide : Message.headerLength + 0 ≤ Config.maxPrefix)
  have hwrite : sc.Fair i
      (w.write .acceptor (Framing.encode (Message.handshakeFail sc.client.id).encode)) :=
    { h with
      toDialer := h.toDialer.write hshort ⟨rfl, .inl rfl⟩ _ }
  exact hwrite.wane (Wire.wanes_finish _ _)

/-- The sessions go on. -/
theorem Fair.mono {sc' : Scene} (h : sc.Fair i w) (hid : sc'.client.id = sc.client.id)
    (hnext : sc.client.nextConnection ≤ sc'.client.nextConnection)
    (hserved : sc'.served i = sc.served i)
    (hhosts : ∀ (j : Nat), ∀ h ∈ sc.server.hosted[j]?, ∃ h' ∈ sc'.server.hosted[j]?, h.Grows h')
    (hmem : ∀ k ∈ sc.completions, k ∈ sc'.completions)
    (hactive : ∀ c, w.Bound .dialer .client c → c ∈ sc'.client.active →
      ∃ k ∈ sc'.completions.getLast?, k.wire = i)
    (hpending : ∀ c, w.Bound .dialer .client c → sc'.client.Awaits c →
      ∀ j ∈ sc'.served i, ∀ k ∈ sc'.completions, ∀ j' ∈ k.host, j' ≤ j) : sc'.Fair i w where
  dialer := h.dialer.imp_right fun ⟨c, n, hb, hc⟩ => ⟨c, n, hb, hc.trans_le hnext⟩
  acceptor := by rw [hserved]; exact h.acceptor
  toDialer := h.toDialer.mono fun x ⟨hx, hs⟩ => ⟨hx.trans hid.symm, hs.imp_right
    fun ⟨j, hj, g, hg, hsaid⟩ =>
      let ⟨g', hg', hgrows⟩ := hhosts j g hg
      ⟨j, hserved ▸ hj, g', hg', hsaid.mono hgrows⟩⟩
  toAcceptor := h.toAcceptor.mono fun x ⟨hx, hs⟩ => ⟨hx.trans hid.symm, hs.imp_right
    fun ⟨k, hk, hi⟩ => ⟨k, hmem k hk, hi⟩⟩
  active := hactive
  pending := hpending

/-- The connections change, one by one. -/
theorem Sound.rewire (h : sc.Sound wires) (hsize : wires.size ≤ wires'.size)
    (hw : ∀ (i : Nat), ∀ w' ∈ wires'[i]?, ∃ w ∈ wires[i]?,
      (∀ c, w'.Bound .dialer .client c → w.Bound .dialer .client c) ∧ sc.Fair i w') :
    sc.Sound wires' :=
  { h with
    fair := fun i w' hw' => let ⟨_, _, _, hf⟩ := hw i w' hw'; hf
    distinct := fun i i' c w₁ hw₁ w₂ hw₂ hb₁ hb₂ => by
      obtain ⟨v₁, hv₁, hd₁, -⟩ := hw i w₁ hw₁
      obtain ⟨v₂, hv₂, hd₂, -⟩ := hw i' w₂ hw₂
      exact h.distinct i i' c v₁ hv₁ v₂ hv₂ (hd₁ c hb₁) (hd₂ c hb₂)
    served := fun i j hj => ⟨(h.served i j hj).1.trans_le hsize, (h.served i j hj).2⟩ }

/-- A connection after one of them changed. -/
theorem mem_modify {f : Wire → Wire} {i' : Nat} {v : Wire} (hv : v ∈ (wires.modify i f)[i']?) :
    (i' = i ∧ ∃ w ∈ wires[i]?, v = f w) ∨ (i' ≠ i ∧ v ∈ wires[i']?) := by
  rw [Array.getElem?_modify] at hv
  split at hv
  · next hi =>
    subst hi
    obtain ⟨w, hw, rfl⟩ := Option.map_eq_some_iff.mp hv
    exact .inl ⟨rfl, w, hw, rfl⟩
  · next hi => exact .inr ⟨fun e => hi e.symm, hv⟩

/-- One connection changes. -/
theorem Sound.rewire_one (h : sc.Sound wires) (i : Nat) {f : Wire → Wire}
    (hf : ∀ w ∈ wires[i]?, (∀ c, (f w).Bound .dialer .client c → w.Bound .dialer .client c) ∧
      sc.Fair i (f w)) : sc.Sound (wires.modify i f) := by
  refine h.rewire (by rw [Array.size_modify]) fun i' v hv => ?_
  rcases mem_modify hv with ⟨rfl, w, hw, rfl⟩ | ⟨-, hv⟩
  · exact ⟨w, hw, hf w hw⟩
  · exact ⟨v, hv, fun c hb => hb, h.fair i' v hv⟩

/-- One connection becomes less. -/
theorem Sound.wane (h : sc.Sound wires) (i : Nat) {f : Wire → Wire}
    (hf : ∀ w ∈ wires[i]?, w.Wanes (f w)) : sc.Sound (wires.modify i f) :=
  h.rewire_one i fun w hw => ⟨fun _ hb => (hf w hw).bound hb, (h.fair i w hw).wane (hf w hw)⟩

/-- A handshake is refused on one connection. -/
theorem Sound.refuse (h : sc.Sound wires) (i : Nat) :
    sc.Sound (wires.modify i fun w =>
      (w.write .acceptor (Framing.encode (Message.handshakeFail sc.client.id).encode)).finish
        .acceptor) :=
  h.rewire_one i fun w hw => ⟨fun _ hb => hb, (h.fair i w hw).refuse⟩

/-- A session writes over its connections. -/
theorem Sound.write (h : sc.Sound wires) (o : Owner) (effects : List Effect)
    (hdialer : ∀ (i : Nat), ∀ w ∈ wires[i]?, ∀ τ ∈ Effect.transmitted effects, w.Bound .dialer o τ.conn →
      Short τ.message ∧ sc.Asks i τ.message)
    (hacceptor : ∀ (i : Nat), ∀ w ∈ wires[i]?, ∀ τ ∈ Effect.transmitted effects,
      w.Bound .acceptor o τ.conn → Short τ.message ∧ sc.Answers i τ.message) :
    sc.Sound (wires.map (Wire.applyAll o effects)) := by
  refine h.rewire (by rw [Array.size_map]) fun i w' hw' => ?_
  rw [Array.getElem?_map] at hw'
  obtain ⟨w, hw, rfl⟩ := Option.map_eq_some_iff.mp hw'
  refine ⟨w, hw, fun c => ?_, (h.fair i w hw).write o effects (hdialer i w hw) (hacceptor i w hw)⟩
  exact (Wire.bound_iff_of_stage (Wire.applyAll_stage effects .dialer) c).mp

/-- A new connection joins the client with nobody yet. -/
theorem Sound.fair_new (h : sc.Sound wires) {t : Nat} (hacceptor : w.acceptor.stage = .greeting t)
    (htoDialer : w.toDialer.bytes = []) (htoAcceptor : w.toAcceptor.bytes = [])
    (hdialer : w.dialer.stage = .done ∨ ∃ c n, w.dialer.stage = .bound .client c n ∧
      c < sc.client.nextConnection ∧ c ∉ sc.client.active) : sc.Fair wires.size w := by
  have hfresh : sc.served wires.size = none := by
    cases hj : sc.served wires.size with
    | none => rfl
    | some j => exact absurd (h.served _ j hj).1 (lt_irrefl _)
  exact {
    dialer := hdialer.imp_right fun ⟨c, n, hb, hc, _⟩ => ⟨c, n, hb, hc⟩
    acceptor := .inr (.inl ⟨t, hacceptor, hfresh⟩)
    toDialer := ⟨[], htoDialer, fun _ hx => by cases hx⟩
    toAcceptor := ⟨[], htoAcceptor, fun _ hx => by cases hx⟩
    active := fun c ⟨n, hb⟩ hc => by
      have hb : w.dialer.stage = .bound .client c n := hb
      rcases hdialer with hd | ⟨c', n', hd, -, hne⟩ <;> rw [hd] at hb
      · cases hb
      · cases hb
        exact (hne hc).elim
    pending := fun c _ _ j hj => by
      rw [hfresh] at hj
      cases hj }

/-- There is another connection. -/
theorem Sound.push (h : sc.Sound wires) (hf : sc.Fair wires.size w)
    (hnew : ∀ c, w.Bound .dialer .client c → ∀ (i : Nat), ∀ v ∈ wires[i]?, ¬ v.Bound .dialer .client c) :
    sc.Sound (wires.push w) := by
  have hcases : ∀ (i : Nat), ∀ v ∈ (wires.push w)[i]?, (i = wires.size ∧ v = w) ∨ v ∈ wires[i]? := by
    intro i v hv
    rw [Array.getElem?_push] at hv
    split at hv
    · next hi => exact .inl ⟨hi, (Option.some.inj hv).symm⟩
    · exact .inr hv
  exact { h with
    fair := fun i v hv => by
      rcases hcases i v hv with ⟨rfl, rfl⟩ | hv
      · exact hf
      · exact h.fair i v hv
    distinct := fun i i' c v₁ hv₁ v₂ hv₂ hb₁ hb₂ => by
      rcases hcases i v₁ hv₁ with ⟨rfl, rfl⟩ | hu₁ <;> rcases hcases i' v₂ hv₂ with ⟨rfl, rfl⟩ | hu₂
      · rfl
      · exact (hnew c hb₁ i' v₂ hu₂ hb₂).elim
      · exact (hnew c hb₂ i v₁ hu₁ hb₁).elim
      · exact h.distinct i i' c v₁ hu₁ v₂ hu₂ hb₁ hb₂
    served := fun i j hj => by
      have := h.served i j hj
      rw [Array.size_push]
      omega }

/-! ### Sessions of the server -/

/-- A completed handshake was answered by a session that there is. -/
theorem Sound.host_lt (h : sc.Sound wires) {k : Completion} (hk : k ∈ sc.completions)
    (hj : j ∈ k.host) : j < sc.server.hosted.size := by
  obtain ⟨j', hj', hs⟩ := h.answered k hk
  cases hj'.symm.trans hj
  exact (h.served k.wire j hs).2

/-- The server's sessions go on, and others are created or removed. -/
theorem Sound.server_goes (h : sc.Sound wires) {v : Server} (hconfig : v.config = sc.server.config)
    (hhosts : ∀ (j : Nat), ∀ g ∈ v.hosted[j]?, g.Coherent ∧ g.role = .server ∧ g.id = sc.client.id)
    (hdirectory : ∀ e ∈ v.directory, e.1 = sc.client.id ∧ e.2 + 1 = v.hosted.size)
    (hsize : sc.server.hosted.size ≤ v.hosted.size)
    (hgrows : ∀ (j : Nat), ∀ g ∈ sc.server.hosted[j]?, ∃ g' ∈ v.hosted[j]?, g.Grows g')
    (hfresh : ∀ j, sc.Newer j → ∀ g ∈ v.hosted[j]?, g.inbox.received = noSequence) :
    { sc with server := v }.Sound wires :=
  { h with
    config := hconfig ▸ h.config
    hosts := hhosts
    directory := hdirectory
    fair := fun i w hw =>
      (h.fair i w hw).mono rfl le_rfl rfl hgrows (fun _ hk => hk) (h.fair i w hw).active
        (h.fair i w hw).pending
    served := fun i j hj => ⟨(h.served i j hj).1, (h.served i j hj).2.trans_le hsize⟩
    fresh := hfresh
    partner := fun hall k hk j hj g' hg' => by
      have hlt := h.host_lt (List.mem_of_getLast? hk) hj
      obtain ⟨g'', hg'', hg⟩ := hgrows j _ (Array.getElem?_eq_getElem hlt)
      cases hg'.symm.trans hg''
      obtain ⟨hack, hnext⟩ := h.partner hall k hk j hj _ (Array.getElem?_eq_getElem hlt)
      exact ⟨hack.trans hg.received, hnext.trans_le hg.next⟩ }

/-- One session of the server goes on. -/
theorem Sound.host_goes (h : sc.Sound wires) {g g' : Session} (hg : g ∈ sc.server.hosted[j]?)
    (hcoherent : g'.Coherent) (hgrows : g.Grows g')
    (hreceived : sc.Newer j → g'.inbox.received = g.inbox.received) :
    { sc with server := { sc.server with hosted := sc.server.hosted.setIfInBounds j g' } }.Sound
      wires := by
  have hlt : j < sc.server.hosted.size := (Array.getElem?_eq_some_iff.mp hg).1
  have hcases : ∀ (j' : Nat), ∀ g₁ ∈ (sc.server.hosted.setIfInBounds j g')[j']?,
      (j' = j ∧ g₁ = g') ∨ g₁ ∈ sc.server.hosted[j']? := by
    intro j' g₁ hg₁
    rw [Array.getElem?_setIfInBounds] at hg₁
    split at hg₁
    · next hj =>
      exact .inl ⟨hj.symm, (Option.some.inj hg₁).symm⟩
    · exact .inr hg₁
  refine h.server_goes rfl ?_ ?_ ?_ ?_ ?_
  · intro j' g₁ hg₁
    rcases hcases j' g₁ hg₁ with ⟨rfl, rfl⟩ | hg₁
    · obtain ⟨-, hrole, hid⟩ := h.hosts j' g hg
      exact ⟨hcoherent, hgrows.role.trans hrole, hgrows.id.trans hid⟩
    · exact h.hosts j' g₁ hg₁
  · rw [Array.size_setIfInBounds]
    exact h.directory
  · rw [Array.size_setIfInBounds]
  · intro j' g₁ hg₁
    rw [Array.getElem?_setIfInBounds]
    by_cases hj : j = j'
    · subst hj
      cases hg.symm.trans hg₁
      rw [if_pos rfl, if_pos hlt]
      exact ⟨g', rfl, hgrows⟩
    · rw [if_neg hj]
      exact ⟨g₁, hg₁, .refl g₁⟩
  · intro j' hn g₁ hg₁
    rcases hcases j' g₁ hg₁ with ⟨rfl, rfl⟩ | hg₁
    · exact (hreceived hn).trans (h.fresh j' hn g hg)
    · exact h.fresh j' hn g₁ hg₁

/-- A session is created. -/
theorem Sound.host_created (h : sc.Sound wires) (now : Nat) :
    { sc with server := ((sc.server.forget sc.client.id).host now sc.client.id).2 }.Sound wires := by
  have hnone : (sc.server.forget sc.client.id).directory = [] := by
    refine List.filter_eq_nil_iff.mpr fun e he => ?_
    simp [(h.directory e he).1]
  have hcases : ∀ (j : Nat), ∀ g ∈ (sc.server.hosted.push
      (.start .server sc.client.id sc.server.config now))[j]?,
      g = .start .server sc.client.id sc.server.config now ∨ g ∈ sc.server.hosted[j]? := by
    intro j g hg
    rw [Array.getElem?_push] at hg
    split at hg
    · exact .inl (Option.some.inj hg).symm
    · exact .inr hg
  refine h.server_goes rfl ?_ ?_ ?_ ?_ ?_
  · intro j g hg
    rcases hcases j g hg with rfl | hg
    · have hcreate : Session.create .server sc.client.id sc.server.config now =
          .ok (.start .server sc.client.id sc.server.config now) := by
        rw [Session.create, h.config]
      exact ⟨.start hcreate, rfl, rfl⟩
    · exact h.hosts j g hg
  · intro e he
    have hhost : ((sc.server.forget sc.client.id).host now sc.client.id).2.directory =
        [(sc.client.id, sc.server.hosted.size)] := congrArg (List.cons _) hnone
    rw [hhost] at he
    rw [List.mem_singleton.mp he]
    exact ⟨rfl, (Array.size_push ..).symm⟩
  · exact (Nat.le_succ _).trans (Array.size_push ..).ge
  · intro j g hg
    refine ⟨g, ?_, .refl g⟩
    have hlt : j < sc.server.hosted.size := (Array.getElem?_eq_some_iff.mp hg).1
    exact (Array.getElem?_push_lt hlt).trans ((Array.getElem?_eq_getElem hlt).symm.trans hg)
  · intro j hn g hg
    rcases hcases j g hg with rfl | hg
    · rfl
    · exact h.fresh j hn g hg

/-- The directory forgets an id. -/
theorem Sound.forget (h : sc.Sound wires) (id : SessionId) :
    { sc with server := sc.server.forget id }.Sound wires :=
  h.server_goes rfl h.hosts (fun e he => h.directory e (List.mem_of_mem_filter he)) le_rfl
    (fun _ g hg => ⟨g, hg, .refl g⟩) h.fresh

/-- A session that is over is removed. -/
theorem Sound.remove (h : sc.Sound wires) (j : Nat) :
    { sc with server := sc.server.remove j }.Sound wires := by
  have hkeep : { sc with server := { sc.server with removals := sc.server.removals.erase j } }.Sound
      wires :=
    h.server_goes rfl h.hosts h.directory le_rfl (fun _ g hg => ⟨g, hg, .refl g⟩) h.fresh
  unfold Server.remove
  split
  · exact h
  · split
    · dsimp only
      split
      · split
        · exact hkeep.forget _
        · exact hkeep
      · exact hkeep
    · exact h

/-- The connection that waits for its first handshake is for nobody, nor was a handshake
completed on it. -/
theorem Sound.unserved (h : sc.Sound wires) (hw : w ∈ wires[i]?) {t : Nat}
    (hg : w.acceptor.stage = .greeting t) :
    sc.served i = none ∧ ∀ k ∈ sc.completions, k.wire ≠ i := by
  have hnone : sc.served i = none := by
    rcases (h.fair i w hw).acceptor with hd | ⟨_, -, hs⟩ | ⟨_, _, _, hd, -⟩
    · cases hg.symm.trans hd
    · exact hs
    · cases hg.symm.trans hd
  refine ⟨hnone, ?_⟩
  rintro k hk rfl
  obtain ⟨j', -, hs⟩ := h.answered k hk
  cases hnone.symm.trans hs

/-- The newest session gets an end of a connection that was for nobody. -/
theorem Sound.fair_assign (h : sc.Sound wires) (hw : w ∈ wires[i]?) (c n : Nat)
    (hnone : sc.served i = none) (hj : j + 1 = sc.server.hosted.size) :
    { sc with served := Function.update sc.served i (some j) }.Fair i
      (w.setSocket { w.socket .acceptor with stage := .bound (.server j) c n } .acceptor) := by
  have hf := h.fair i w hw
  exact {
    dialer := hf.dialer
    acceptor := .inr (.inr ⟨j, c, n, rfl, Function.update_self ..⟩)
    toDialer := hf.toDialer.mono fun x ⟨hx, hs⟩ => ⟨hx, hs.imp_right fun ⟨_, hj', _⟩ => by
      rw [hnone] at hj'
      cases hj'⟩
    toAcceptor := hf.toAcceptor
    active := hf.active
    pending := fun c hb ha j' hj' k hk j₁ hj₁ => by
      simp only [Function.update_self] at hj'
      cases hj'
      have := h.host_lt hk hj₁
      omega }

/-- A connection that waits for its first handshake is for the newest session. -/
theorem Sound.assign (h : sc.Sound wires) (hw : w ∈ wires[i]?) {t n : Nat} (c : ConnectionId)
    (hg : w.acceptor.stage = .greeting t) (hj : j + 1 = sc.server.hosted.size) :
    { sc with served := Function.update sc.served i (some j) }.Sound
      (wires.modify i fun w =>
        w.setSocket { w.socket .acceptor with stage := .bound (.server j) c n } .acceptor) := by
  have hlt : i < wires.size := (Array.getElem?_eq_some_iff.mp hw).1
  obtain ⟨hnone, hne⟩ := h.unserved hw hg
  have hother : ∀ i', i' ≠ i → Function.update sc.served i (some j) i' = sc.served i' :=
    fun i' hi => Function.update_of_ne hi ..
  -- whatever an end of the client is bound to, it was before
  have hbefore : ∀ (i' : Nat) c', ∀ v ∈ (wires.modify i fun w =>
      w.setSocket { w.socket .acceptor with stage := .bound (.server j) c n } .acceptor)[i']?,
      v.Bound .dialer .client c' → ∃ u ∈ wires[i']?, u.Bound .dialer .client c' := by
    intro i' c' v hv hb
    rcases mem_modify hv with ⟨rfl, u, hu, rfl⟩ | ⟨-, hv⟩
    · exact ⟨u, hu, hb⟩
    · exact ⟨v, hv, hb⟩
  exact { h with
    fair := fun i' v hv => by
      rcases mem_modify hv with ⟨rfl, u, hu, rfl⟩ | ⟨hi, hv⟩
      · exact h.fair_assign hu c n hnone hj
      · have hf := h.fair i' v hv
        refine hf.mono rfl le_rfl (hother i' hi) (fun _ g hg => ⟨g, hg, .refl g⟩) (fun _ hk => hk)
          hf.active fun c hb ha j' hj' => hf.pending c hb ha j' ?_
        exact hother i' hi ▸ hj'
    distinct := fun i₁ i₂ c' v₁ hv₁ v₂ hv₂ hb₁ hb₂ => by
      obtain ⟨u₁, hu₁, hu₁'⟩ := hbefore i₁ c' v₁ hv₁ hb₁
      obtain ⟨u₂, hu₂, hu₂'⟩ := hbefore i₂ c' v₂ hv₂ hb₂
      exact h.distinct i₁ i₂ c' u₁ hu₁ u₂ hu₂ hu₁' hu₂'
    served := fun i' j' hj' => by
      rw [Array.size_modify]
      by_cases hi : i' = i
      · subst hi
        simp only [Function.update_self] at hj'
        cases hj'
        exact ⟨hlt, by simp only; omega⟩
      · exact h.served i' j' ((hother i' hi).symm.trans hj')
    answered := fun k hk => by
      obtain ⟨j', hj', hs⟩ := h.answered k hk
      exact ⟨j', hj', (hother _ (hne k hk)).trans hs⟩ }

end Scene

end Tether.Net
