import Tether.Proofs.Net.Answers

/-!
# What happens in a watched world

Whatever happens in a world with one client, one server and nobody else, it goes on
showing a sound scene (`World.Sound`).
-/

namespace Tether.Net

/-- What follows a connection is no business of the session. -/
@[simp] theorem Client.afterwards_session (c : Client) (now : Nat) (completed : Bool) :
    (c.afterwards now completed).session = c.session := by
  unfold afterwards
  repeat' split
  all_goals rfl

namespace World

/-- The world shows a sound scene, with what was noted. -/
def Sound (w : World) (served : Nat → Option Nat) (completions : List Completion) : Prop :=
  ∃ s v, w.session? .client = some s ∧ w.server = some v ∧
    Scene.Sound ⟨s, v, served, completions⟩ w.wires

variable {w w' : World} {served : Nat → Option Nat} {completions : List Completion} {i j : Nat}
  {c : ConnectionId} {frame : Bytes} {x : Message} {s : Session} {v : Server}

/-! ### Sessions -/

theorem session?_server (hv : w.server = some v) (j : Nat) :
    w.session? (.server j) = v.hosted[j]? := by
  rw [session?, hv]
  rfl

theorem become_session (hs : w.session? .client = some s) (r : Session × List Effect) :
    (w.become .client r).session? .client = some r.1 := by
  obtain ⟨c, hc, -⟩ := Option.map_eq_some_iff.mp hs
  show (w.become .client r).client.map _ = _
  rw [become_client, setSession, hc]
  rfl

theorem become_session_of_server (r : Session × List Effect) :
    (w.become (.server j) r).session? .client = w.session? .client := by
  show (w.become (.server j) r).client.map _ = _
  rw [become_client]
  rfl

theorem become_server_of_client (r : Session × List Effect) :
    (w.become .client r).server = w.server := become_server w .client r

theorem become_server_eq (hv : w.server = some v) (r : Session × List Effect) :
    (w.become (.server j) r).server =
      some { v with hosted := v.hosted.setIfInBounds j r.1 } := by
  rw [become_server, setSession, hv]
  rfl

/-- What the world shows but the two hosts makes no difference. -/
theorem Sound.congr (h : w.Sound served completions)
    (hc : w'.session? .client = w.session? .client) (hv : w'.server = w.server)
    (hw : w'.wires = w.wires) : w'.Sound served completions := by
  obtain ⟨s, v, hs, hv', hsound⟩ := h
  exact ⟨s, v, hc.trans hs, hv.trans hv', hw ▸ hsound⟩

/-- One connection becomes less. -/
theorem Sound.modifyWire (h : w.Sound served completions) (i : Nat) {f : Wire → Wire}
    (hf : ∀ wire ∈ w.wires[i]?, wire.Wanes (f wire)) :
    (w.modifyWire i f).Sound served completions := by
  obtain ⟨s, v, hs, hv, hsound⟩ := h
  exact ⟨s, v, hs, hv, hsound.wane i hf⟩

theorem Sound.finish (h : w.Sound served completions) (i : Nat) (side : Side) :
    (w.modifyWire i (·.finish side)).Sound served completions :=
  h.modifyWire i fun wire _ => wire.wanes_finish side

/-- A session acts of its own accord. -/
theorem Sound.act (h : w.Sound served completions) (o : Owner)
    {f : Moment → Session → Session × List Effect}
    (hf : ∀ m (s : Session), s.Coherent → s.Keeps (f m s).1 (Effect.transmitted (f m s).2)) :
    (w.act o f).Sound served completions := by
  obtain ⟨s, v, hs, hv, hsound⟩ := h
  unfold World.act
  cases o with
  | client =>
    rw [hs]
    refine ⟨_, v, become_session hs _, (become_server_of_client _).trans hv, ?_⟩
    rw [become_wires]
    exact hsound.client_acts (hf _ _ hsound.coherent)
  | server j =>
    rw [session?_server hv]
    cases hg : v.hosted[j]? with
    | none => exact ⟨s, v, hs, hv, hsound⟩
    | some g =>
      refine ⟨s, _, (become_session_of_server _).trans hs, become_server_eq hv _, ?_⟩
      rw [become_wires]
      exact hsound.host_acts hg (hf _ _ (hsound.hosts j g hg).1)

/-- Time passes. -/
theorem Sound.tick (h : w.Sound served completions) : w.tick.Sound served completions := by
  have hfold : ∀ (owners : List Owner) (w : World), w.Sound served completions →
      (owners.foldl (fun w o => w.act o fun m s => s.advance m.takes w.now (w.now + 1)) w).Sound
        served completions := by
    intro owners
    induction owners with
    | nil => exact fun _ h => h
    | cons o owners ih =>
      exact fun w h => ih _ (h.act o fun m s hs => hs.elapse_keeps _ _ _ _)
  exact (hfold _ w h).congr rfl rfl rfl

/-- A connection is lost. -/
theorem Sound.lose (h : w.Sound served completions) (i : Nat) (side : Side) (o : Owner)
    (conn : ConnectionId) (before : Nat) (forced : Bool) :
    (w.lose i side o conn before forced).Sound served completions := by
  have hact := (h.act o fun m s hs => hs.step_keeps m (.disconnected conn forced) trivial).finish
    i side
  unfold World.lose
  cases o with
  | server j => exact hact
  | client =>
    refine hact.congr ?_ rfl rfl
    simp only [session?, Option.map_map, Function.comp_def, Client.afterwards_session]
    rfl

/-! ### Frames -/

/-- What a session does about the frame of a message of its own. -/
theorem receive_hears (hs : s.Coherent) (m : Moment) (c : ConnectionId) (hx : x.session = s.id) :
    (∃ e, s.receive m c x.encode = ⟨.error e, s, []⟩) ∨
      ∃ y d, Message.decode x.encode = .ok y ∧ s.Hears m c y (s.receive m c x.encode).session
        (Effect.transmitted (s.receive m c x.encode).effects) d := by
  unfold Session.receive
  cases hy : Message.decode x.encode with
  | error e => exact .inl ⟨_, rfl⟩
  | ok y =>
    have hid := (x.of_decode_encode hy).1.trans hx
    exact .inr ⟨y, _, rfl, hs.receiveMessage m c hid⟩

/-- What a session does about a frame is all that happens, but that the connection is to be
closed after a fault. -/
theorem receive_shows (i : Nat) (side : Side) {o : Owner} (hs : w.session? o = some s)
    (c : ConnectionId) (frame : Bytes) : (∀ o', (w.receive i side o c frame).session? o' =
        (w.become o ((s.receive (w.moment o) c frame).session,
          (s.receive (w.moment o) c frame).effects)).session? o') ∧
      ∀ served completions,
        (w.become o ((s.receive (w.moment o) c frame).session,
          (s.receive (w.moment o) c frame).effects)).Sound served completions →
        (w.receive i side o c frame).Sound served completions := by
  unfold World.receive
  rw [hs]
  dsimp only
  split
  · exact ⟨fun o' => by cases o' <;> rfl,
      fun _ _ h => h.modifyWire i fun wire _ => wire.wanes_close side false⟩
  · exact ⟨fun _ => rfl, fun _ _ h => h⟩

/-- A session that does nothing leaves the world as it is. -/
theorem Sound.become_nil (h : w.Sound served completions) {o : Owner} (hs : w.session? o = some s) :
    (w.become o (s, [])).Sound served completions := by
  have hact := Sound.act h o (f := fun _ s => (s, [])) fun _ _ hs => .refl hs
  unfold World.act at hact
  rw [hs] at hact
  exact hact

/-- A session of the server gets a frame that the client may have written. -/
theorem Sound.receive_server (h : w.Sound served completions) (hj : served i = some j)
    (hx : ∀ s, w.session? .client = some s → x.session = s.id)
    (hk : x.kind = .handshake ∨ ∃ k ∈ completions, k.wire = i) :
    (w.receive i .acceptor (.server j) c x.encode).Sound served completions := by
  obtain ⟨s, v, hs, hv, hsound⟩ := id h
  have hlt : j < v.hosted.size := (hsound.served i j hj).2
  have hg : v.hosted[j]? = some v.hosted[j] := Array.getElem?_eq_getElem hlt
  have hg' : w.session? (.server j) = some v.hosted[j] := (session?_server hv j).trans hg
  obtain ⟨hc, -, hid⟩ := hsound.hosts j _ hg
  refine (receive_shows i .acceptor hg' c x.encode).2 _ _ ?_
  have hcases := receive_hears hc (w.moment (.server j)) c ((hx s hs).trans hid.symm)
  generalize Session.receive (w.moment (.server j)) v.hosted[j] c x.encode = out at hcases
  rcases hcases with ⟨e, rfl⟩ | ⟨y, d, hy, hh⟩
  · exact h.become_nil hg'
  · have hkind := (x.of_decode_encode hy).2.1
    refine ⟨s, _, (become_session_of_server _).trans hs, become_server_eq hv _, ?_⟩
    rw [become_wires]
    exact hsound.host_answers hj hg (hk.imp_left hkind.trans) hh

/-- The client gets a frame that a session of the server may have written, and may
complete a handshake. -/
theorem Sound.receive_client (h : w.Sound served completions) {wire : Wire}
    (hwire : wire ∈ w.wires[i]?) (hb : wire.Bound .dialer .client c)
    (hs : w.session? .client = some s) (hv : w.server = some v)
    (hx : Scene.Answers ⟨s, v, served, completions⟩ i x)
    (hw' : w.receive i .dialer .client c x.encode = w') :
    ∃ s', w'.session? .client = some s' ∧
      ((s'.handshakes = s.handshakes ∧ w'.Sound served completions) ∨
        (s'.handshakes = s.handshakes + 1 ∧ w'.Sound served (completions ++
          [⟨i, s', served i, (served i).bind fun j => w'.session? (.server j)⟩]))) := by
  obtain ⟨s₀, v₀, hs₀, hv₀, hsound⟩ := id h
  cases hs.symm.trans hs₀
  cases hv.symm.trans hv₀
  obtain ⟨hsame, hkeep⟩ := receive_shows i .dialer hs c x.encode
  have hcases := receive_hears hsound.coherent (w.moment .client) c hx.1
  rw [hw'] at hsame hkeep
  generalize Session.receive (w.moment .client) s c x.encode = out at hcases hsame hkeep
  have hserver := become_server_of_client (w := w) (out.session, out.effects)
  have hclient := become_session hs (out.session, out.effects)
  refine ⟨out.session, (hsame _).trans hclient, ?_⟩
  rcases hcases with ⟨e, rfl⟩ | ⟨y, d, hy, hh⟩
  · exact .inl ⟨rfl, hkeep _ _ (h.become_nil hs)⟩
  · rcases hsound.client_hears hwire hb hx hy hh with ⟨hcount, hs'⟩ | ⟨hcount, j, hj, g, hg, hs'⟩
    · refine .inl ⟨hcount, hkeep _ _ ⟨_, v, hclient, hserver.trans hv, ?_⟩⟩
      rw [become_wires]
      exact hs'
    · have hj : served i = some j := hj
      have hhost : ((served i).bind fun j => w'.session? (.server j)) = some g := by
        rw [hj]
        exact (hsame _).trans ((session?_server (hserver.trans hv) j).trans hg)
      refine .inr ⟨hcount, hkeep _ _ ⟨_, v, hclient, hserver.trans hv, ?_⟩⟩
      rw [become_wires, hhost, hj]
      exact hs'

/-! ### New connections -/

/-- The server's end of a connection is that of the session which it is for. -/
theorem Sound.served_of_host? (h : w.Sound served completions) (hj : w.host? i = some j) :
    served i = some j := by
  obtain ⟨s, v, -, -, hsound⟩ := h
  unfold host? stage? at hj
  cases hw : w.wires[i]? with
  | none =>
    rw [hw] at hj
    cases hj
  | some wire =>
    rw [hw] at hj
    have hstage : ∀ t, (wire.socket .acceptor).stage = t → wire.acceptor.stage = t := fun _ h => h
    rcases (hsound.fair i wire hw).acceptor with hd | ⟨t, hd, -⟩ | ⟨j', c, n, hd, hs⟩ <;>
      simp only [Option.map_some, Wire.socket, hd] at hj
    · cases hj
    · cases hj
    · cases hj
      exact hs

/-- A session takes a connection, or is over and done with it. -/
theorem bind_cases (i : Nat) (side : Side) {o : Owner} (hs : w.session? o = some s) :
    (w.bind i side o = w.modifyWire i fun wire => (wire.setSocket
        { wire.socket side with stage := .bound o s.nextConnection s.handshakes } side).finish side) ∨
      ¬ s.lifecycle.Over ∧ ∃ m, w.bind i side o = (w.modifyWire i fun wire => wire.setSocket
        { wire.socket side with stage := .bound o s.nextConnection s.handshakes } side).become o
          ((s.connect m).session, (s.connect m).effects) := by
  unfold World.bind
  rw [hs]
  dsimp only
  by_cases ho : s.lifecycle.Over
  · have hrefuse : ∀ m, s.connect m = ⟨.error (.terminated s.id), s, []⟩ := fun m => by
      rw [Session.connect, if_pos ho]
    refine .inl ?_
    rw [hrefuse]
    exact modifyWire_modifyWire w i _ _
  · have hconnect := Session.connect_of_not_over ((w.modifyWire i fun wire => wire.setSocket
      { wire.socket side with stage := .bound o s.nextConnection s.handshakes } side).moment o) ho
    rw [hconnect]
    exact .inr ⟨ho, _, rfl⟩

/-- The newest session gets a connection that waits for its first handshake, and the frame
that came. -/
theorem Sound.welcome (h : w.Sound served completions) {wire : Wire} (hwire : wire ∈ w.wires[i]?)
    {t n : Nat} (hgreeting : wire.acceptor.stage = .greeting t)
    (hn : ∀ v, w.server = some v → n + 1 = v.hosted.size)
    (hx : ∀ s, w.session? .client = some s → x.session = s.id)
    (hk : x.kind = .handshake ∨ ∃ k ∈ completions, k.wire = i) :
    ∃ served', (∀ i', (greet.welcome i x.encode w n).host? i' = none → served' i' = served i') ∧
      (greet.welcome i x.encode w n).Sound served' completions := by
  obtain ⟨s, v, hs, hv, hsound⟩ := id h
  have hsize := hn v hv
  have hlt : n < v.hosted.size := by omega
  have hg : v.hosted[n]? = some v.hosted[n] := Array.getElem?_eq_getElem hlt
  have hg' : w.session? (.server n) = some v.hosted[n] := (session?_server hv n).trans hg
  generalize v.hosted[n] = g at hg hg'
  unfold greet.welcome
  rcases bind_cases i .acceptor hg' with hbind | ⟨ho, m, hbind⟩
  · have hdone : (w.bind i .acceptor (.server n)).stage? i .acceptor = some .done := by
      rw [hbind]
      exact congrArg _ (Wire.mem_modify hwire _)
    dsimp only
    rw [hdone]
    refine ⟨served, fun _ _ => rfl, ?_⟩
    rw [hbind]
    exact h.modifyWire i fun wire _ => wire.wanes_setSocket_finish .acceptor _
  · have hstage : (w.bind i .acceptor (.server n)).stage? i .acceptor =
        some (.bound (.server n) g.nextConnection g.handshakes) := by
      rw [hbind, become_stage?]
      exact congrArg _ (Wire.mem_modify hwire _)
    have hopens := (Session.opens_connect m g).1
    have hassign := hsound.assign (n := g.handshakes) hwire g.nextConnection hgreeting hsize
    have hsound' : (w.bind i .acceptor (.server n)).Sound (Function.update served i (some n))
        completions := by
      have hv' : (w.modifyWire i fun wire => wire.setSocket { wire.socket .acceptor with
          stage := .bound (.server n) g.nextConnection g.handshakes } .acceptor).server = some v := hv
      rw [hbind]
      refine ⟨s, _, (become_session_of_server _).trans hs, become_server_eq hv' _, ?_⟩
      rw [become_wires]
      exact hassign.host_opens hg hopens
    have hclient : (w.bind i .acceptor (.server n)).session? .client = w.session? .client := by
      rw [hbind]
      exact become_session_of_server _
    dsimp only
    rw [hstage]
    refine ⟨Function.update served i (some n), fun i' hnone => ?_, ?_⟩
    · refine Function.update_of_ne ?_ _ _
      rintro rfl
      unfold host? at hnone
      simp only [receive_stage?, hstage, reduceCtorEq] at hnone
    · exact hsound'.receive_server (Function.update_self ..) (fun s hs => hx s (hclient ▸ hs)) hk

/-- The server gets the first frame on a connection. -/
theorem Sound.greet (h : w.Sound served completions) {wire : Wire} (hwire : wire ∈ w.wires[i]?)
    {t : Nat} (hgreeting : wire.acceptor.stage = .greeting t)
    (hx : ∀ s, w.session? .client = some s → x.session = s.id)
    (hk : x.kind = .handshake ∨ ∃ k ∈ completions, k.wire = i) :
    ∃ served', (∀ i', (w.greet i x.encode).host? i' = none → served' i' = served i') ∧
      (w.greet i x.encode).Sound served' completions := by
  obtain ⟨s, v, hs, hv, hsound⟩ := id h
  have hgiveUp : ∃ served',
      (∀ i', (w.modifyWire i (·.finish .acceptor)).host? i' = none → served' i' = served i') ∧
        (w.modifyWire i (·.finish .acceptor)).Sound served' completions :=
    ⟨served, fun _ _ => rfl, h.finish i .acceptor⟩
  unfold World.greet
  rw [hv]
  cases hy : Message.decode x.encode with
  | error e => exact hgiveUp
  | ok y =>
    dsimp only
    split
    · exact hgiveUp
    have hid : y.session = s.id := (x.of_decode_encode hy).1.trans (hx s hs)
    rw [hid]
    rcases v.resolve_cases w.now s.id y.seq with ⟨n, hr, hn⟩ | hr | hr
    · rw [hr]
      refine Sound.welcome (w := { w with server := some v }) ⟨s, v, hs, rfl, hsound⟩ hwire hgreeting
        (fun v' hv' => ?_) hx hk
      cases hv'
      exact (hsound.directory _ hn).2
    · rw [hr]
      exact ⟨served, fun _ _ => rfl, s, _, hs, rfl, (hsound.forget s.id).refuse i⟩
    · rw [hr]
      refine Sound.welcome (w := { w with
          server := some ((v.forget s.id).host w.now s.id).2, serverLogs := w.serverLogs.push {} })
        ⟨s, _, hs, rfl, hsound.host_created w.now⟩ hwire hgreeting (fun v' hv' => ?_) hx hk
      cases hv'
      exact (Array.size_push ..).symm

/-- The client dials. -/
theorem Sound.dial (h : w.Sound served completions) (hw : w.dial? = some w') :
    w'.Sound served completions := by
  obtain ⟨s, v, hs, hv, hsound⟩ := id h
  obtain ⟨c, hc, rfl⟩ := Option.map_eq_some_iff.mp hs
  unfold dial? at hw
  rw [hc] at hw
  simp only [Option.bind_eq_bind, Option.bind_some] at hw
  split at hw
  · cases hw
  split at hw
  · cases hw
    exact ⟨c.session, v, rfl, hv, hsound⟩
  split at hw
  · cases hw
    exact ⟨c.session, v, congrArg some (Client.afterwards_session _ _ _), hv, hsound⟩
  obtain ⟨t, ht⟩ : ∃ t, w.acceptor = { stage := .greeting t } := by
    unfold acceptor
    rw [hv]
    exact ⟨_, rfl⟩
  cases hw
  rw [ht]
  rcases bind_cases w.wires.size .dialer (o := .client) (s := c.session)
    (w := { w with
      wires := w.wires.push { dialer := {}, acceptor := { stage := .greeting t } }
      client := some { c with dialing := .connected } }) rfl with hbind | ⟨ho, m, hbind⟩
  · rw [hbind]
    refine ⟨c.session, v, rfl, hv, ?_⟩
    simp only [World.modifyWire, Wire.push_modify]
    refine hsound.push (hsound.fair_new rfl rfl rfl (.inl rfl)) ?_
    rintro _ ⟨_, hb⟩
    cases hb
  · rw [hbind]
    refine ⟨_, v, become_session rfl _, (become_server_of_client _).trans hv, ?_⟩
    simp only [become_wires, World.modifyWire, Wire.push_modify]
    exact hsound.client_opens (Session.opens_connect m c.session).1 ho

/-! ### Handling what is next -/

theorem Sound.session (h : w.Sound served completions) :
    ∃ s, w.session? .client = some s ∧ s.handshakes = completions.length := by
  obtain ⟨s, v, hs, -, hsound⟩ := h
  exact ⟨s, hs, hsound.count.symm⟩

/-- A frame is read from a connection. -/
theorem Sound.read (h : w.Sound served completions) {side : Side} {wire : Wire}
    (hwire : wire ∈ w.wires[i]?) {max : Nat} {rest : Pipe}
    (hn : (wire.inbound side).next max = .frame frame rest) :
    (w.modifyWire i fun wire => wire.setInbound rest side).Sound served completions := by
  refine h.modifyWire i fun wire' hwire' => ?_
  cases Option.mem_unique hwire hwire'
  exact Wire.wanes_read hn

/-- The server handles what is next. -/
theorem Sound.handle_acceptor (h : w.Sound served completions)
    (hw : w.handle? i .acceptor = some w') :
    ∃ served', (∀ i', w'.host? i' = none → served' i' = served i') ∧
      w'.Sound served' completions := by
  obtain ⟨s, v, hs, hv, hsound⟩ := id h
  have hkeep : w'.Sound served completions → ∃ served',
      (∀ i', w'.host? i' = none → served' i' = served i') ∧ w'.Sound served' completions :=
    fun h => ⟨served, fun _ _ => rfl, h⟩
  unfold handle? at hw
  cases hwire : w.wires[i]? with
  | none =>
    rw [hwire] at hw
    cases hw
  | some wire =>
    have hf := hsound.fair i wire hwire
    have hasks : (wire.inbound .acceptor).Carries (Scene.Asks ⟨s, v, served, completions⟩ i) :=
      hf.toAcceptor
    simp only [hwire, Option.bind_eq_bind, Option.bind_some] at hw
    split at hw
    · cases hw
    · cases hw
    · next deadline hstage =>
      split at hw
      · next bytes rest hn =>
        obtain ⟨⟨x, ⟨hid, hk⟩, hbytes⟩, -⟩ := hasks.next hn
        rw [hbytes] at hw
        cases hw
        refine (h.read hwire hn).greet (Wire.mem_modify hwire _) hstage (fun s' hs' => ?_) hk
        cases hs.symm.trans hs'
        exact hid
      · cases hw
        exact hkeep (h.finish i _)
      · split at hw
        · cases hw
          exact hkeep (h.finish i _)
        · cases hw
    · next o conn before hstage =>
      split at hw
      · cases hw
        exact hkeep (h.lose i _ o conn before _)
      · split at hw
        · next bytes rest hn =>
          obtain ⟨⟨x, ⟨hid, hk⟩, hbytes⟩, -⟩ := hasks.next hn
          rw [hbytes] at hw
          have hstage : wire.acceptor.stage = .bound o conn before := hstage
          rcases hf.acceptor with hd | ⟨t, hd, -⟩ | ⟨j, c, n, hd, hj⟩ <;> rw [hd] at hstage
          · cases hstage
          · cases hstage
          · cases hstage
            cases hw
            refine hkeep ((h.read hwire hn).receive_server hj (fun s' hs' => ?_) hk)
            cases hs.symm.trans hs'
            exact hid
        · cases hw
          exact hkeep (h.modifyWire i fun wire _ => wire.wanes_close .acceptor false)
        · cases hw

/-- The client handles what is next, and may complete a handshake. -/
theorem Sound.handle_dialer (h : w.Sound served completions) (hw : w.handle? i .dialer = some w') :
    w'.Sound served completions ∨
      ∃ s', w'.session? .client = some s' ∧ s'.handshakes = completions.length + 1 ∧
        w'.Sound served (completions ++
          [⟨i, s', served i, (served i).bind fun j => w'.session? (.server j)⟩]) := by
  obtain ⟨s, v, hs, hv, hsound⟩ := id h
  unfold handle? at hw
  cases hwire : w.wires[i]? with
  | none =>
    rw [hwire] at hw
    cases hw
  | some wire =>
    have hf := hsound.fair i wire hwire
    have hanswers : (wire.inbound .dialer).Carries (Scene.Answers ⟨s, v, served, completions⟩ i) :=
      hf.toDialer
    simp only [hwire, Option.bind_eq_bind, Option.bind_some] at hw
    rcases hf.dialer with hd | ⟨c, n, hd, -⟩
    · rw [show (wire.socket .dialer).stage = .done from hd] at hw
      cases hw
    · rw [show (wire.socket .dialer).stage = .bound .client c n from hd] at hw
      dsimp only at hw
      split at hw
      · cases hw
        exact .inl (h.lose i _ .client c n _)
      · split at hw
        · next bytes rest hn =>
          obtain ⟨⟨x, hx, hbytes⟩, -⟩ := hanswers.next hn
          rw [hbytes] at hw
          obtain ⟨s', hs', ⟨-, hsame⟩ | ⟨hcount, hmore⟩⟩ := (h.read hwire hn).receive_client
            (Wire.mem_modify hwire _) ⟨n, hd⟩ hs hv hx (Option.some.inj hw)
          · exact .inl hsame
          · exact .inr ⟨s', hs', by rw [hcount, hsound.count], hmore⟩
        · cases hw
          exact .inl (h.modifyWire i fun wire _ => wire.wanes_close .dialer false)
        · cases hw

end World

end Tether.Net
