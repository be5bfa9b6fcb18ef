import Tether.Proofs.Net.Part

/-!
# What a server handles in a part of a network

If the sessions with one id are kept (`World.Mine`), and the connections whose first frames ask for
that id, then what the server handles on the connections that are kept it handles in the part
(`part_greet`, `part_handle`), and what it handles on the others is not to be seen there.
-/

namespace Tether.Net

namespace World

variable {keep mine : Nat → Bool} {w w' : World} {o : Owner} {i j : Nat} {side : Side}

/-! ### First frames -/

/-- The sessions with one id are kept. -/
def Mine (mine : Nat → Bool) (y : SessionId) (w : World) : Prop :=
  ∀ j s, w.session? (.server j) = some s → (mine j = true ↔ s.id = y)

variable {config : Config} {y id : SessionId} {v : Server} {frame : Bytes} {a : Admission}

/-- What is to become of the sessions later tells them apart before. -/
theorem Mine.of_turns (hm : w'.Mine mine y) (hw : w.Hosted config) (ht : w.Turns w') :
    w.Mine mine y := by
  intro j s hs
  obtain ⟨s', hs', hid⟩ := hw.session_turns ht hs
  rw [← hid]
  exact hm j s' hs'

theorem Mine.serves (hm : w.Mine mine y) (hw : w.Hosted config) (hv : w.server = some v) :
    v.Serves mine y := by
  intro id j hmem
  obtain ⟨s, hs, rfl⟩ := (hw.shows hv).1.listed id j hmem
  exact hm j s ((session?_server hv j).trans hs)

theorem part_admitted (r : Admission × Server)
    (hsize : ∀ j, r.1 = .created j → mine w.serverLogs.size = true) :
    (w.admitted r).part keep mine = (w.part keep mine).admitted (r.1.renumber mine, r.2.part mine) := by
  obtain ⟨a, v⟩ := r
  cases a with
  | created j => simp [part, admitted, Admission.renumber, pick_push, hsize j rfl]
  | known j | unknown => rfl

theorem part_admitted_of_not (hv : w.server = some v) {r : Admission × Server}
    (hr : r.2.part mine = v.part mine)
    (hsize : ∀ j, r.1 = .created j → mine w.serverLogs.size = false) :
    (w.admitted r).part keep mine = w.part keep mine := by
  obtain ⟨a, v'⟩ := r
  cases a with
  | created j => simp [part, admitted, pick_push, hsize j rfl, hv, hr]
  | known j | unknown => simp [part, admitted, hv, hr]

theorem Split.admitted (h : w.Split keep mine) (r : Admission × Server) :
    (w.admitted r).Split keep mine := by
  obtain ⟨a, v⟩ := r
  cases a with
  | known j | created j | unknown => exact h.of_stage? rfl rfl fun _ _ => rfl

theorem Split.welcome (h : w.Split keep mine) (hj : mine j = keep i) (frame : Bytes) :
    (greet.welcome i frame w j).Split keep mine := by
  have hbind := h.bind (o := .server j) hj
  unfold greet.welcome
  dsimp only
  split
  · exact hbind.receive i _ _ frame
  · exact hbind

theorem part_welcome (h : w.Split keep mine) (hi : keep i) (hj : mine j) (frame : Bytes) :
    (greet.welcome i frame w j).part keep mine =
      greet.welcome (place keep i) frame (w.part keep mine) (place mine j) := by
  have hbind := h.bind (o := .server j) (hj.trans hi.symm)
  have hpart : (w.bind i .acceptor (.server j)).part keep mine =
      (w.part keep mine).bind (place keep i) .acceptor (.server (place mine j)) := part_bind h hi hj
  unfold greet.welcome
  dsimp only
  rw [← hpart, part_stage? hi]
  cases hstage : (w.bind i .acceptor (.server j)).stage? i .acceptor with
  | none => rfl
  | some stage =>
    cases stage with
    | bound o c n => exact part_receive hbind hi ((hbind.acceptor i o c n hstage).trans hi) c frame
    | outside | greeting deadline | done => rfl

theorem part_welcome_of_not (h : w.Split keep mine) (hi : keep i = false) (hj : mine j = false)
    (frame : Bytes) : (greet.welcome i frame w j).part keep mine = w.part keep mine := by
  have hbind := h.bind (o := .server j) (hj.trans hi.symm)
  have hpart := part_bind_of_not h hi hj
  unfold greet.welcome
  dsimp only
  split
  · next o c n hstage =>
    have ho := hbind.acceptor i o c n hstage
    cases o with
    | client => cases ho.trans hi
    | server j' => exact (part_receive_of_not hbind hi (ho.trans hi) c frame).trans hpart
  · exact hpart

theorem Split.answer (h : w.Split keep mine) (hj : ∀ j ∈ a.session?, mine j = keep i)
    (frame : Bytes) (id : SessionId) : (w.answer i frame id a).Split keep mine := by
  cases a with
  | known j | created j => exact h.welcome (hj j rfl) frame
  | unknown => exact h.modifyWire i (fun _ => rfl) fun _ _ _ _ hb => by cases hb

theorem part_answer (h : w.Split keep mine) (hi : keep i) (hj : ∀ j ∈ a.session?, mine j = true)
    (frame : Bytes) (id : SessionId) : (w.answer i frame id a).part keep mine =
      (w.part keep mine).answer (place keep i) frame id (a.renumber mine) := by
  cases a with
  | known j | created j => exact part_welcome h hi (hj j rfl) frame
  | unknown => exact part_modifyWire hi fun wire => by simp

theorem part_answer_of_not (h : w.Split keep mine) (hi : keep i = false)
    (hj : ∀ j ∈ a.session?, mine j = false) (frame : Bytes) (id : SessionId) :
    (w.answer i frame id a).part keep mine = w.part keep mine := by
  cases a with
  | known j | created j => exact part_welcome_of_not h hi (hj j rfl) frame
  | unknown => exact part_modifyWire_of_not hi _

theorem admitted_session? (w : World) (r : Admission × Server) (j : Nat) :
    (w.admitted r).session? (.server j) = r.2.hosted[j]? := by
  obtain ⟨a, v⟩ := r
  cases a <;> rfl

/-- The session that a first handshake is for is kept, if the sessions with its id are. -/
theorem Mine.session_resolve (hw : w.Hosted config) (hv : w.server = some v) (id : SessionId)
    (previous : Int) (hm : (w.admitted (v.resolve w.now id previous)).Mine mine y) :
    ∀ j ∈ (v.resolve w.now id previous).1.session?, (mine j = true ↔ id = y) := by
  intro j hj
  obtain ⟨s, hs, rfl⟩ := (hw.shows hv).1.session_resolve w.now id previous j hj
  exact hm j s ((admitted_session? w _ j).trans hs)

/-- A new session comes after all others. -/
theorem Hosted.created_eq (hw : w.Hosted config) (hv : w.server = some v) {previous : Int}
    (hj : (v.resolve w.now id previous).1 = .created j) : j = w.serverLogs.size := by
  rw [(hw.shows hv).2.2]
  rcases v.resolve_cases w.now id previous with ⟨n, hr, -⟩ | hr | hr <;> rw [hr] at hj <;> cases hj
  rfl

/-- A session is kept if and only if the connections are whose first frames ask for it. -/
theorem Mine.asked (hw : w.Hosted config) (hv : w.server = some v)
    (hm : (w.greet i frame).Mine mine y) {b : Bool} (hframe : b = true ↔ Asks y frame)
    (hid : Asks id frame) (previous : Int)
    (hgreet : w.greet i frame = (w.admitted (v.resolve w.now id previous)).answer i frame id
      (v.resolve w.now id previous).1) :
    ∀ j ∈ (v.resolve w.now id previous).1.session?, mine j = b := by
  intro j hj
  have hadmitted := Turns.admitted hv id previous
  have hanswer := Turns.answer (w.admitted (v.resolve w.now id previous)) i frame id
    (v.resolve w.now id previous).1
  rw [← hgreet] at hanswer
  have hmine := Mine.session_resolve hw hv id previous (hm.of_turns (hw.turns hadmitted) hanswer) j hj
  rw [Bool.eq_iff_iff, hmine, hframe]
  constructor
  · rintro rfl
    exact hid
  · exact hid.unique

theorem Split.greet (h : w.Split keep mine) (hw : w.Hosted config)
    (hm : (w.greet i frame).Mine mine y) (hframe : keep i = true ↔ Asks y frame) :
    (w.greet i frame).Split keep mine := by
  obtain ⟨v, hv⟩ := hw.server
  by_cases hasks : ∃ id, Asks id frame
  · obtain ⟨id, hid⟩ := hasks
    obtain ⟨previous, hgreet⟩ := greet_of_asks hid
    have hj := Mine.asked hw hv hm hframe hid previous (hgreet w v i hv)
    rw [hgreet w v i hv]
    exact (h.admitted _).answer hj frame id
  · rw [greet_of_not i (not_exists.mp hasks)]
    exact h.finish i

/-- **A first frame for what is kept** leads to the same in the part. -/
theorem part_greet (h : w.Split keep mine) (hw : w.Hosted config)
    (hm : (w.greet i frame).Mine mine y) (hi : keep i) (hframe : Asks y frame) :
    (w.greet i frame).part keep mine = (w.part keep mine).greet (place keep i) frame := by
  obtain ⟨v, hv⟩ := hw.server
  obtain ⟨previous, hgreet⟩ := greet_of_asks hframe
  have hserves := (hm.of_turns hw (.greet w i frame)).serves hw hv
  have hj := Mine.asked hw hv hm (b := true) (by simp [hframe]) hframe previous (hgreet w v i hv)
  have hsize : ∀ j, (v.resolve w.now y previous).1 = .created j →
      mine w.serverLogs.size = true := by
    intro j hcreated
    rw [← hw.created_eq hv hcreated]
    exact hj j (by rw [hcreated]; rfl)
  have hserver : (w.part keep mine).server = some (v.part mine) := by simp [part, hv]
  rw [hgreet w v i hv, hgreet _ _ _ hserver, part_answer (h.admitted _) hi hj, part_admitted _ hsize]
  have hnow : (w.part keep mine).now = w.now := rfl
  rw [hnow, hserves.part_resolve (hw.shows hv).1.length_listeners w.now previous hj]

/-- Another first frame does not show there. -/
theorem part_greet_of_not (h : w.Split keep mine) (hw : w.Hosted config)
    (hm : (w.greet i frame).Mine mine y) (hi : keep i = false) (hframe : ¬ Asks y frame) :
    (w.greet i frame).part keep mine = w.part keep mine := by
  obtain ⟨v, hv⟩ := hw.server
  by_cases hasks : ∃ id, Asks id frame
  · obtain ⟨id, hid⟩ := hasks
    obtain ⟨previous, hgreet⟩ := greet_of_asks hid
    have hserves := (hm.of_turns hw (.greet w i frame)).serves hw hv
    have hj := Mine.asked hw hv hm (b := false) (by simp [hframe]) hid previous (hgreet w v i hv)
    have hne : id ≠ y := by
      rintro rfl
      exact hframe hid
    have hsize : ∀ j, (v.resolve w.now id previous).1 = .created j →
        mine w.serverLogs.size = false := by
      intro j hcreated
      rw [← hw.created_eq hv hcreated]
      exact hj j (by rw [hcreated]; rfl)
    rw [hgreet w v i hv, part_answer_of_not (h.admitted _) hi hj]
    have hlisteners := (hw.shows hv).1.length_listeners
    have hsame := hserves.part_resolve_of_ne hne hlisteners w.now previous hj
    exact part_admitted_of_not hv hsame hsize
  · rw [greet_of_not i (not_exists.mp hasks)]
    exact part_modifyWire_of_not hi _

/-! ### What a host handles -/

@[simp] theorem part_now (w : World) : (w.part keep mine).now = w.now := rfl

@[simp] theorem part_maxFrame (w : World) (side : Side) :
    (w.part keep mine).maxFrame side = w.maxFrame side := by
  cases side with
  | dialer => rfl
  | acceptor =>
    simp only [maxFrame, part, Option.map_map]
    rfl

theorem Split.lose (h : w.Split keep mine) (i : Nat) (o : Owner) (c : ConnectionId) (before : Nat)
    (forced : Bool) : (w.lose i .acceptor o c before forced).Split keep mine := by
  have hlose := (h.act o fun m s => s.disconnected m c forced).finish i
  unfold World.lose
  cases o with
  | client =>
    exact hlose.of_stage? rfl ((congrArg (Option.map _) hlose.client).trans hlose.client.symm)
      fun _ _ => rfl
  | server j => exact hlose

theorem part_lose (h : w.Split keep mine) (hi : keep i) (ho : o.kept mine) (c : ConnectionId)
    (before : Nat) (forced : Bool) : (w.lose i .acceptor o c before forced).part keep mine =
      (w.part keep mine).lose (place keep i) .acceptor (o.renumber mine) c before forced := by
  have hact := part_act h ho fun m s => s.disconnected m c forced
  have hfinish : ((w.act o fun m s => s.disconnected m c forced).modifyWire i
      (·.finish .acceptor)).part keep mine = _ := part_finish hi _
  rw [hact] at hfinish
  unfold World.lose
  dsimp only
  rw [part_session? ho, ← hfinish]
  cases o with
  | client => rfl
  | server j => rfl

theorem part_lose_of_not (h : w.Split keep mine) (hi : keep i = false) (hj : mine j = false)
    (c : ConnectionId) (before : Nat) (forced : Bool) :
    (w.lose i .acceptor (.server j) c before forced).part keep mine = w.part keep mine := by
  unfold World.lose
  dsimp only
  rw [part_modifyWire_of_not hi]
  exact part_act_of_not h hj _

/-- The first frame on a connection is next. -/
def Opens (w : World) (i : Nat) (frame : Bytes) : Prop :=
  ∃ wire ∈ w.wires[i]?, (∃ deadline, wire.acceptor.stage = .greeting deadline) ∧
    ∃ rest, wire.toAcceptor.next (w.maxFrame .acceptor) = .frame frame rest

/-- What the server may do when it handles what is next on connection `i`. -/
inductive Handles (w : World) (i : Nat) : World → Prop
  /-- The first frame comes. -/
  | greet {frame : Bytes} (rest : Pipe) (h : w.Opens i frame) :
    Handles w i ((w.modifyWire i fun wire => wire.setInbound rest .acceptor).greet i frame)
  /-- There will be no first frame, or not in time. -/
  | finish : Handles w i (w.modifyWire i (·.finish .acceptor))
  /-- The connection is lost that a session has. -/
  | lose {o : Owner} {c : ConnectionId} {before : Nat}
    (h : w.stage? i .acceptor = some (.bound o c before)) (forced : Bool) :
    Handles w i (w.lose i .acceptor o c before forced)
  /-- The session gets a frame. -/
  | receive {o : Owner} {c : ConnectionId} {before : Nat}
    (h : w.stage? i .acceptor = some (.bound o c before)) (frame : Bytes) (rest : Pipe) :
    Handles w i
      ((w.modifyWire i fun wire => wire.setInbound rest .acceptor).receive i .acceptor o c frame)
  /-- The session gets no more frames. -/
  | close {o : Owner} {c : ConnectionId} {before : Nat}
    (h : w.stage? i .acceptor = some (.bound o c before)) :
    Handles w i (w.modifyWire i (·.close .acceptor false))

/-- Nobody but the server handles anything. -/
theorem Split.handles {side : Side} (h : w.Split keep mine) (hhandle : w.handle? i side = some w') :
    w.Handles i w' := by
  unfold handle? at hhandle
  cases hwire : w.wires[i]? with
  | none =>
    rw [hwire] at hhandle
    cases hhandle
  | some wire =>
  simp only [hwire, Option.bind_eq_bind, Option.bind_some] at hhandle
  have hstage? : w.stage? i side = some (wire.socket side).stage := by
    rw [stage?, hwire]
    rfl
  cases side with
  | dialer =>
    rw [h.dialer i _ hstage?] at hhandle
    cases hhandle
  | acceptor =>
    split at hhandle
    · cases hhandle
    · cases hhandle
    · next deadline hstage =>
      split at hhandle
      · next frame rest hnext =>
        cases hhandle
        exact .greet rest ⟨wire, hwire, ⟨deadline, hstage⟩, rest, hnext⟩
      · cases hhandle
        exact .finish
      · split at hhandle
        · cases hhandle
          exact .finish
        · cases hhandle
    · next o c before hstage =>
      rw [hstage] at hstage?
      split at hhandle
      · cases hhandle
        exact .lose hstage? _
      · split at hhandle
        · next frame rest hnext =>
          cases hhandle
          exact .receive hstage? frame rest
        · cases hhandle
          exact .close hstage?
        · cases hhandle

theorem Split.handle {side : Side} (h : w.Split keep mine) (hw : w.Hosted config)
    (hm : w'.Mine mine y) (hframe : ∀ frame, w.Opens i frame → (keep i = true ↔ Asks y frame))
    (hhandle : w.handle? i side = some w') : w'.Split keep mine := by
  cases h.handles hhandle with
  | greet rest hopens =>
    exact (h.setInbound i rest .acceptor).greet (hw.turns (.modifyWire w i _)) hm (hframe _ hopens)
  | finish => exact h.finish i
  | lose hstage forced => exact h.lose i _ _ _ forced
  | receive hstage frame rest => exact (h.setInbound i rest .acceptor).receive i _ _ frame
  | close hstage => exact h.close i false

/-- What is handled on other connections does not show in the part. -/
theorem part_handle_of_not {side : Side} (h : w.Split keep mine) (hw : w.Hosted config)
    (hm : w'.Mine mine y) (hframe : ∀ frame, w.Opens i frame → (keep i = true ↔ Asks y frame))
    (hi : keep i = false) (hhandle : w.handle? i side = some w') :
    w'.part keep mine = w.part keep mine := by
  have hread (rest : Pipe) :
      (w.modifyWire i fun wire => wire.setInbound rest .acceptor).part keep mine = w.part keep mine :=
    part_modifyWire_of_not hi _
  -- a session that has the connection is one of the server's, and is left out
  have howner {o : Owner} {c : ConnectionId} {before : Nat}
      (hstage : w.stage? i .acceptor = some (.bound o c before)) :
      ∃ j, o = .server j ∧ mine j = false := by
    have ho := (h.acceptor i o c before hstage).trans hi
    cases o with
    | client => cases ho
    | server j => exact ⟨j, rfl, ho⟩
  cases h.handles hhandle with
  | @greet frame rest hopens =>
    have hnot : ¬ Asks y frame := by
      intro ha
      rw [(hframe frame hopens).mpr ha] at hi
      cases hi
    exact (part_greet_of_not (h.setInbound i rest .acceptor) (hw.turns (.modifyWire w i _)) hm hi
      hnot).trans (hread rest)
  | finish => exact part_modifyWire_of_not hi _
  | lose hstage forced =>
    obtain ⟨j, rfl, hj⟩ := howner hstage
    exact part_lose_of_not h hi hj _ _ forced
  | receive hstage frame rest =>
    obtain ⟨j, rfl, hj⟩ := howner hstage
    exact (part_receive_of_not (h.setInbound i rest .acceptor) hi hj _ frame).trans (hread rest)
  | close hstage => exact part_modifyWire_of_not hi _

/-- **What is handled on the connections that are kept** is handled in the part. -/
theorem part_handle (h : w.Split keep mine) (hw : w.Hosted config)
    (hm : ∀ w', w.handle? i side = some w' → w'.Mine mine y)
    (hframe : ∀ frame, w.Opens i frame → (keep i = true ↔ Asks y frame)) (hi : keep i) :
    (w.part keep mine).handle? (place keep i) side = (w.handle? i side).map (·.part keep mine) := by
  unfold handle? at hm ⊢
  rw [part_wire hi]
  cases hwire : w.wires[i]? with
  | none => rfl
  | some wire =>
  have hdialer : (wire.socket .dialer).stage = .outside :=
    h.dialer i _ (by rw [stage?, hwire]; rfl)
  have hread (rest : Pipe) :
      (w.modifyWire i fun wire => wire.setInbound rest .acceptor).part keep mine =
        (w.part keep mine).modifyWire (place keep i) fun wire => wire.setInbound rest .acceptor :=
    part_setInbound hi w rest
  simp only [hwire, Option.map_some, Option.bind_eq_bind, Option.bind_some, Wire.renumber_socket,
    Wire.renumber_inbound, part_maxFrame, part_now, Socket.renumber] at hm ⊢
  cases side with
  | dialer => simp only [hdialer, Stage.renumber, Option.map_none]
  | acceptor =>
    cases hstage : (wire.socket .acceptor).stage with
    | outside => rfl
    | done => rfl
    | greeting deadline =>
      simp only [hstage, Stage.renumber] at hm ⊢
      cases hnext : (wire.inbound .acceptor).next (w.maxFrame .acceptor) with
      | frame frame rest =>
        have hopens : w.Opens i frame := ⟨wire, hwire, ⟨deadline, hstage⟩, rest, hnext⟩
        simp only [hnext, Option.map_some, ← hread] at hm ⊢
        rw [part_greet (h.setInbound i rest .acceptor) (hw.turns (.modifyWire w i _)) (hm _ rfl) hi
          ((hframe frame hopens).mp hi)]
      | partly =>
        by_cases hlate : deadline ≤ w.now
        · simp only [hlate, if_true]
          exact congrArg some (part_finish hi w).symm
        · simp only [hlate, if_false, Option.map_none]
      | _ => exact congrArg some (part_finish hi w).symm
    | bound o c before =>
      have ho : o.kept mine = true :=
        (h.acceptor i o c before (by rw [stage?, hwire]; exact congrArg some hstage)).trans hi
      simp only [Stage.renumber]
      by_cases hclosed : (wire.socket .acceptor).closed = true
      · simp only [hclosed, if_true]
        exact congrArg some (part_lose h hi ho c before _).symm
      · simp only [hclosed]
        cases hnext : (wire.inbound .acceptor).next (w.maxFrame .acceptor) with
        | frame frame rest =>
          have hreceive := part_receive (h.setInbound i rest .acceptor) hi ho c frame
          rw [hread] at hreceive
          exact congrArg some hreceive.symm
        | partly => rfl
        | _ => exact congrArg some (part_close hi w).symm

/-! ### Time -/

theorem filter_range (mine : Nat → Bool) (n : Nat) :
    ((List.range n).filter mine).map (place mine) = List.range (place mine n) := by
  induction n with
  | zero => rfl
  | succ n ih =>
    have hplace : place mine (n + 1) = place mine n + if mine n then 1 else 0 := Nat.count_succ ..
    rw [List.range_succ, List.filter_append, List.map_append, ih, hplace]
    by_cases hn : mine n = true
    · simp [hn, List.range_succ]
    · simp [hn]

/-- Each session does something of its own, one after the other. -/
theorem Split.acts (h : w.Split keep mine) (owners : List Owner)
    (f : Nat → Moment → Session → Session × List Effect) :
    (owners.foldl (fun w o => w.act o (f w.now)) w).Split keep mine := by
  induction owners generalizing w with
  | nil => exact h
  | cons o owners ih => exact ih (h.act o _)

theorem part_acts (h : w.Split keep mine) (owners : List Owner)
    (f : Nat → Moment → Session → Session × List Effect) :
    (owners.foldl (fun w o => w.act o (f w.now)) w).part keep mine =
      ((owners.filter (·.kept mine)).map (·.renumber mine)).foldl (fun w o => w.act o (f w.now))
        (w.part keep mine) := by
  induction owners generalizing w with
  | nil => rfl
  | cons o owners ih =>
    rw [List.foldl_cons, ih (h.act o _)]
    by_cases ho : o.kept mine = true
    · rw [List.filter_cons_of_pos ho, List.map_cons, List.foldl_cons, part_act h ho]
      rfl
    · cases o with
      | client => exact absurd rfl ho
      | server j =>
        have hj : mine j = false := by simpa [Owner.kept] using ho
        rw [List.filter_cons_of_neg ho, part_act_of_not h hj]

theorem Split.tick (h : w.Split keep mine) : w.tick.Split keep mine :=
  (h.acts _ fun now m s => s.advance m.takes now (now + 1)).of_stage? rfl rfl fun _ _ => rfl

theorem part_tick (h : w.Split keep mine) : w.tick.part keep mine = (w.part keep mine).tick := by
  have howners : ((Owner.client :: (List.range ((w.server.map (·.hosted.size)).getD 0)).map
      .server).filter (·.kept mine)).map (·.renumber mine) = Owner.client ::
        (List.range (((w.part keep mine).server.map (·.hosted.size)).getD 0)).map .server := by
    cases hv : w.server with
    | none => simp [part, hv, Owner.kept, Owner.renumber]
    | some v =>
      have hrange := filter_range mine v.hosted.size
      simp only [part, hv, Option.map_some, Option.getD_some, Server.part, size_pick, ← hrange,
        Owner.kept, List.filter_cons_of_pos, List.map_cons, Owner.renumber, List.filter_map,
        List.map_map, Function.comp_def]
  have hacts := part_acts h (Owner.client ::
    (List.range ((w.server.map (·.hosted.size)).getD 0)).map .server)
    fun now m s => s.advance m.takes now (now + 1)
  rw [howners] at hacts
  exact congrArg (fun aged => ({ aged with now := w.now + 1 } : World)) hacts

end World

end Tether.Net
