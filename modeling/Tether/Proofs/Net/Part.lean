import Tether.Proofs.Net.Hosting
import Tether.Proofs.Net.Kept

/-!
# A part of a network

Of the connections to a server and of the sessions that it created some are kept, and the others
are left out (`World.part`). If each connection is kept together with the session that it is for
(`World.Split`), then what is kept does the same in the part (`part_act`, `part_receive`), and what
the rest does is not to be seen there (`part_act_of_not`).
-/

namespace Tether.Net

namespace World

/-- **A world with some of the connections, and some of the sessions of the server.** -/
def part (keep mine : Nat → Bool) (w : World) : World :=
  { w with
    server := w.server.map (·.part mine)
    wires := (pick keep w.wires).map (·.renumber mine)
    serverLogs := pick mine w.serverLogs
    sent := (w.sent.filter fun x => x.1.kept mine).map fun x => (x.1.renumber mine, x.2) }

/-- There is a server and no other host, and each connection to it is kept if and only if the
session is that runs over it. -/
structure Split (keep mine : Nat → Bool) (w : World) : Prop where
  reachable : w.reachable = true
  client : w.client = none
  dialer : ∀ i stage, w.stage? i .dialer = some stage → stage = .outside
  acceptor : ∀ i o c n, w.stage? i .acceptor = some (.bound o c n) → o.kept mine = keep i

variable {keep mine : Nat → Bool} {w w' : World} {o : Owner} {i j : Nat} {side : Side} {e : Effect}
  {wire : Wire}

theorem Split.of_stage? (h : w.Split keep mine) (hr : w'.reachable = w.reachable)
    (hc : w'.client = w.client) (hs : ∀ i side, w'.stage? i side = w.stage? i side) :
    w'.Split keep mine where
  reachable := hr.trans h.reachable
  client := hc.trans h.client
  dialer := by
    intro i stage hi
    exact h.dialer i stage ((hs i .dialer).symm.trans hi)
  acceptor := by
    intro i o c n hi
    exact h.acceptor i o c n ((hs i .acceptor).symm.trans hi)

theorem Split.concerns (h : w.Split keep mine) (hw : w.wires[i]? = some wire) :
    wire.Concerns mine (keep i) := by
  intro side o c n hb
  cases side with
  | dialer =>
    have hout := h.dialer i (.bound o c n) (by simp [stage?, hw, hb])
    cases hout
  | acceptor => exact h.acceptor i o c n (by simp [stage?, hw, hb])

theorem Split.concerns_of_mem (h : w.Split keep mine) (hw : wire ∈ pick keep w.wires) :
    wire.Concerns mine true := by
  obtain ⟨i, hi, hw⟩ := mem_pick.mp hw
  exact hi ▸ h.concerns hw

/-! ### What does not show -/

theorem part_modifyWire_of_not (hi : keep i = false) (f : Wire → Wire) :
    (w.modifyWire i f).part keep mine = w.part keep mine := by
  simp [part, modifyWire, pick_modify, hi]

theorem part_setSession_of_not (hj : mine j = false) (s : Session) :
    (w.setSession s (.server j)).part keep mine = w.part keep mine := by
  simp only [part, setSession]
  cases w.server with
  | none => rfl
  | some v => simp [Server.part, pick_setIfInBounds, hj]

theorem part_apply_of_not (h : w.Split keep mine) (hj : mine j = false) (e : Effect) :
    (w.apply (.server j) e).part keep mine = w.part keep mine := by
  have hwires : (pick keep (w.wires.map (Wire.apply (.server j) e))).map (·.renumber mine) =
      (pick keep w.wires).map (·.renumber mine) := by
    rw [pick_map, Array.map_map]
    refine Array.map_congr_left fun wire hw => ?_
    have hne : (Owner.server j).kept mine ≠ true := by simp [Owner.kept, hj]
    simp only [Function.comp_apply, (h.concerns_of_mem hw).apply_eq hne]
  cases e with
  | transmit c x taken | close c forced => simp only [part, apply, hwires]
  | deliver payload | notify n => simp [part, apply, tell, hwires, pick_modify, hj]
  | sent ticket r => simp [part, apply, hwires, Owner.kept, hj]

theorem Split.apply (h : w.Split keep mine) (o : Owner) (e : Effect) :
    (w.apply o e).Split keep mine := by
  have hwires : (w.apply o e).wires = w.wires.map (Wire.apply o e) := (foldl_apply w o [e]).2.2
  refine h.of_stage? ?_ (foldl_apply w o [e]).1 ?_
  · cases e <;> cases o <;> rfl
  · intro i side
    simp only [stage?, hwires, Array.getElem?_map, Option.map_map, Function.comp_def,
      Wire.apply_stage]

theorem Split.setSession (h : w.Split keep mine) (o : Owner) (s : Session) :
    (w.setSession s o).Split keep mine := by
  cases o with
  | client =>
    refine h.of_stage? rfl ?_ fun _ _ => rfl
    rw [World.setSession, h.client]
    rfl
  | server j => exact h.of_stage? rfl rfl fun _ _ => rfl

theorem Split.become (h : w.Split keep mine) (o : Owner) (r : Session × List Effect) :
    (w.become o r).Split keep mine := by
  have hfold : ∀ (effects : List Effect) (w : World), w.Split keep mine →
      (effects.foldl (World.apply o) w).Split keep mine := by
    intro effects
    induction effects with
    | nil => exact fun _ h => h
    | cons e effects ih => exact fun _ h => ih _ (h.apply o e)
  exact hfold r.2 _ (h.setSession o r.1)

theorem Split.act (h : w.Split keep mine) (o : Owner)
    (f : Moment → Session → Session × List Effect) : (w.act o f).Split keep mine := by
  unfold World.act
  split
  · exact h
  · exact h.become o _

theorem part_become_of_not (h : w.Split keep mine) (hj : mine j = false)
    (r : Session × List Effect) : (w.become (.server j) r).part keep mine = w.part keep mine := by
  have hfold : ∀ (effects : List Effect) (w : World), w.Split keep mine →
      (effects.foldl (World.apply (.server j)) w).part keep mine = w.part keep mine := by
    intro effects
    induction effects with
    | nil => exact fun _ _ => rfl
    | cons e effects ih =>
      intro w h
      exact (ih _ (h.apply _ e)).trans (part_apply_of_not h hj e)
  rw [World.become, hfold _ _ (h.setSession _ _), part_setSession_of_not hj]

/-- **What is left out does as it likes.** -/
theorem part_act_of_not (h : w.Split keep mine) (hj : mine j = false)
    (f : Moment → Session → Session × List Effect) :
    (w.act (.server j) f).part keep mine = w.part keep mine := by
  unfold World.act
  split
  · rfl
  · exact part_become_of_not h hj _

/-! ### What is kept -/

theorem part_modifyWire (hi : keep i) {f f' : Wire → Wire}
    (hf : ∀ wire, (f wire).renumber mine = f' (wire.renumber mine)) :
    (w.modifyWire i f).part keep mine = (w.part keep mine).modifyWire (place keep i) f' := by
  have hwires : ((pick keep w.wires).modify (place keep i) f).map (·.renumber mine) =
      ((pick keep w.wires).map (·.renumber mine)).modify (place keep i) f' := by
    refine Array.ext_getElem? fun k => ?_
    simp only [Array.getElem?_map, Array.getElem?_modify]
    split
    · simp only [Option.map_map, Function.comp_def, hf]
    · rfl
  simp [part, modifyWire, pick_modify, hi, hwires]

theorem part_finish (hi : keep i) (w : World) :
    (w.modifyWire i (·.finish .acceptor)).part keep mine =
      (w.part keep mine).modifyWire (place keep i) (·.finish .acceptor) :=
  part_modifyWire hi fun wire => Wire.renumber_finish wire .acceptor

theorem part_close (hi : keep i) (w : World) :
    (w.modifyWire i (·.close .acceptor false)).part keep mine =
      (w.part keep mine).modifyWire (place keep i) (·.close .acceptor false) :=
  part_modifyWire hi fun wire => Wire.renumber_close wire .acceptor false

theorem part_setInbound (hi : keep i) (w : World) (rest : Pipe) :
    (w.modifyWire i fun wire => wire.setInbound rest .acceptor).part keep mine =
      (w.part keep mine).modifyWire (place keep i) fun wire => wire.setInbound rest .acceptor :=
  part_modifyWire hi fun wire => Wire.renumber_setInbound wire rest .acceptor

theorem part_wire (hi : keep i) :
    (w.part keep mine).wires[place keep i]? = (w.wires[i]?).map (·.renumber mine) := by
  simp [part, pick_getElem? hi]

theorem part_stage? (hi : keep i) (side : Side) :
    (w.part keep mine).stage? (place keep i) side = (w.stage? i side).map (·.renumber mine) := by
  simp only [stage?, part_wire hi, Option.map_map, Function.comp_def, Wire.renumber_socket]
  rfl

theorem part_session? (ho : o.kept mine) :
    (w.part keep mine).session? (o.renumber mine) = w.session? o := by
  cases o with
  | client => rfl
  | server j =>
    have hj : mine j = true := ho
    cases hv : w.server with
    | none => simp [session?, part, Owner.renumber, hv]
    | some v => simp [session?, part, Owner.renumber, hv, Server.part, pick_getElem? hj]

theorem part_log? (ho : o.kept mine) :
    (w.part keep mine).log? (o.renumber mine) = w.log? o := by
  cases o with
  | client => rfl
  | server j =>
    have hj : mine j = true := ho
    simp [log?, part, Owner.renumber, pick_getElem? hj]

theorem part_setSession (ho : o.kept mine) (s : Session) :
    (w.setSession s o).part keep mine = (w.part keep mine).setSession s (o.renumber mine) := by
  cases o with
  | client => rfl
  | server j =>
    have hj : mine j = true := ho
    cases hv : w.server with
    | none => simp [part, setSession, Owner.renumber, hv]
    | some v => simp [part, setSession, Owner.renumber, hv, Server.part, pick_setIfInBounds, hj]

theorem part_moment (h : w.Split keep mine) (ho : o.kept mine) :
    (w.part keep mine).moment (o.renumber mine) = w.moment o := by
  have htakes : (fun (c : ConnectionId) (_ : Message) =>
      (w.part keep mine).wires.any (·.takes (o.renumber mine) c)) =
        fun c _ => w.wires.any (·.takes o c) := by
    funext c _
    rw [Bool.eq_iff_iff, Array.any_eq_true', Array.any_eq_true']
    constructor
    · rintro ⟨wire', hw', ht⟩
      obtain ⟨wire, hw, rfl⟩ := Array.mem_map.mp hw'
      obtain ⟨i, -, hwire⟩ := mem_pick.mp hw
      rw [Wire.takes_renumber (h.concerns_of_mem hw) ho] at ht
      exact ⟨wire, Array.mem_of_getElem? hwire, ht⟩
    · rintro ⟨wire, hw, ht⟩
      obtain ⟨i, hwire⟩ := Array.mem_iff_getElem?.mp hw
      have hi : keep i = true := by
        by_contra hi
        have hne : o.kept mine ≠ keep i := by
          rw [ho]
          exact fun heq => hi heq.symm
        rw [(h.concerns hwire).takes_eq hne] at ht
        cases ht
      have hpick : wire ∈ pick keep w.wires := mem_pick.mpr ⟨i, hi, hwire⟩
      refine ⟨wire.renumber mine, Array.mem_map_of_mem hpick, ?_⟩
      rwa [Wire.takes_renumber (h.concerns_of_mem hpick) ho]
  exact congrArg (Moment.mk w.now) htakes

theorem part_apply (h : w.Split keep mine) (ho : o.kept mine) (e : Effect) :
    (w.apply o e).part keep mine = (w.part keep mine).apply (o.renumber mine) e := by
  have hwires : (pick keep (w.wires.map (Wire.apply o e))).map (·.renumber mine) =
      ((pick keep w.wires).map (·.renumber mine)).map (Wire.apply (o.renumber mine) e) := by
    rw [pick_map, Array.map_map, Array.map_map]
    refine Array.map_congr_left fun wire hw => ?_
    exact Wire.apply_renumber (h.concerns_of_mem hw) ho
  cases e with
  | transmit c x taken | close c forced => simp only [part, apply, hwires]
  | deliver payload | notify n =>
    cases o with
    | client => simp only [part, apply, tell, hwires, Owner.renumber]
    | server j =>
      have hj : mine j = true := ho
      simp [part, apply, tell, hwires, Owner.renumber, pick_modify, hj]
  | sent ticket r => simp [part, apply, hwires, ho]

theorem part_become (h : w.Split keep mine) (ho : o.kept mine) (r : Session × List Effect) :
    (w.become o r).part keep mine = (w.part keep mine).become (o.renumber mine) r := by
  have hfold : ∀ (effects : List Effect) (w : World), w.Split keep mine →
      (effects.foldl (World.apply o) w).part keep mine =
        effects.foldl (World.apply (o.renumber mine)) (w.part keep mine) := by
    intro effects
    induction effects with
    | nil => exact fun _ _ => rfl
    | cons e effects ih =>
      intro w h
      rw [List.foldl_cons, List.foldl_cons, ih _ (h.apply _ e), part_apply h ho]
  rw [World.become, World.become, hfold _ _ (h.setSession o r.1), part_setSession ho]

/-- **What is kept does the same in the part.** -/
theorem part_act (h : w.Split keep mine) (ho : o.kept mine)
    (f : Moment → Session → Session × List Effect) :
    (w.act o f).part keep mine = (w.part keep mine).act (o.renumber mine) f := by
  unfold World.act
  rw [part_session? ho, part_moment h ho]
  cases w.session? o with
  | none => rfl
  | some s => exact part_become h ho _

/-! ### Connections to the server -/

theorem bind_of_none (i : Nat) (side : Side) (hs : w.session? o = none) : w.bind i side o = w := by
  unfold World.bind
  rw [hs]

/-- A session refuses a connection, or takes it. -/
theorem bind_of_session {s : Session} (i : Nat) (side : Side) (hs : w.session? o = some s) :
    let assigned := w.modifyWire i (Wire.assign o s.nextConnection s.handshakes side)
    let outcome := s.connect (assigned.moment o)
    (¬ outcome.answer.isOk ∧ w.bind i side o = assigned.modifyWire i (·.finish side)) ∨
      (outcome.answer.isOk ∧
        w.bind i side o = assigned.become o (outcome.session, outcome.effects)) := by
  intro assigned outcome
  unfold World.bind
  rw [hs]
  dsimp only
  split
  · next e he =>
    have he : outcome.answer = .error e := he
    exact .inl ⟨by simp [he, Except.isOk, Except.toBool], rfl⟩
  · next c hc =>
    have hc : outcome.answer = .ok c := hc
    exact .inr ⟨by simp [hc, Except.isOk, Except.toBool], rfl⟩

/-- A connection changes, and a session runs over the server's end only if it is kept with it. -/
theorem Split.modifyWire (h : w.Split keep mine) (i : Nat) {f : Wire → Wire}
    (hd : ∀ wire, (f wire).dialer.stage = wire.dialer.stage)
    (ha : ∀ wire o c n, (f wire).acceptor.stage = .bound o c n →
      wire.acceptor.stage = .bound o c n ∨ o.kept mine = keep i) :
    (w.modifyWire i f).Split keep mine where
  reachable := h.reachable
  client := h.client
  dialer := by
    intro k stage hk
    simp only [stage?, World.modifyWire, Array.getElem?_modify] at hk
    refine h.dialer k stage ?_
    split at hk
    · simpa [stage?, Function.comp_def, Wire.socket, hd] using hk
    · exact hk
  acceptor := by
    intro k o c n hk
    simp only [stage?, World.modifyWire, Array.getElem?_modify] at hk
    split at hk
    · next hik =>
      subst hik
      obtain ⟨wire', hwire', hb⟩ := Option.map_eq_some_iff.mp hk
      obtain ⟨wire, hwire, rfl⟩ := Option.map_eq_some_iff.mp hwire'
      rcases ha wire o c n hb with hb | ho
      · exact h.acceptor i o c n (by simp [stage?, hwire, Wire.socket, hb])
      · exact ho
    · exact h.acceptor k o c n hk

theorem Split.setInbound (h : w.Split keep mine) (i : Nat) (p : Pipe) (side : Side) :
    (w.modifyWire i fun wire => wire.setInbound p side).Split keep mine :=
  h.modifyWire i (fun wire => by cases side <;> rfl) fun wire o c n hb => by
    cases side <;> exact .inl hb

theorem Split.finish (h : w.Split keep mine) (i : Nat) :
    (w.modifyWire i (·.finish .acceptor)).Split keep mine :=
  h.modifyWire i (fun _ => rfl) fun _ _ _ _ hb => by cases hb

theorem Split.close (h : w.Split keep mine) (i : Nat) (forced : Bool) :
    (w.modifyWire i (·.close .acceptor forced)).Split keep mine :=
  h.modifyWire i (fun _ => rfl) fun _ _ _ _ hb => .inl hb

/-- The server's end of a connection is that of a session from now on. -/
theorem Split.assign (h : w.Split keep mine) (ho : o.kept mine = keep i) (c : ConnectionId)
    (n : Nat) : (w.modifyWire i (Wire.assign o c n .acceptor)).Split keep mine := by
  refine h.modifyWire i (fun _ => rfl) fun wire o' c' n' hb => ?_
  cases hb
  exact .inr ho

theorem Split.bind (h : w.Split keep mine) (ho : o.kept mine = keep i) :
    (w.bind i .acceptor o).Split keep mine := by
  cases hs : w.session? o with
  | none =>
    rw [bind_of_none i .acceptor hs]
    exact h
  | some s =>
    have hassign := h.assign ho s.nextConnection s.handshakes
    rcases bind_of_session i .acceptor hs with ⟨-, heq⟩ | ⟨-, heq⟩ <;> rw [heq]
    · exact hassign.finish i
    · exact hassign.become o _

theorem part_bind (h : w.Split keep mine) (hi : keep i) (ho : o.kept mine) :
    (w.bind i .acceptor o).part keep mine =
      (w.part keep mine).bind (place keep i) .acceptor (o.renumber mine) := by
  have hs' : (w.part keep mine).session? (o.renumber mine) = w.session? o := part_session? ho
  cases hs : w.session? o with
  | none =>
    rw [hs] at hs'
    rw [bind_of_none i .acceptor hs, bind_of_none _ .acceptor hs']
  | some s =>
    rw [hs] at hs'
    have hassign := h.assign (ho.trans hi.symm) s.nextConnection s.handshakes
    have hpart : (w.modifyWire i
          (Wire.assign o s.nextConnection s.handshakes .acceptor)).part keep mine =
        (w.part keep mine).modifyWire (place keep i)
          (Wire.assign (o.renumber mine) s.nextConnection s.handshakes .acceptor) :=
      part_modifyWire hi fun wire => rfl
    have hbind := bind_of_session (place keep i) .acceptor hs'
    simp only [← hpart, part_moment hassign ho] at hbind
    rcases bind_of_session i .acceptor hs with ⟨hanswer, heq⟩ | ⟨hanswer, heq⟩
    · obtain ⟨-, heq'⟩ := hbind.resolve_right fun h => hanswer h.1
      rw [heq, heq']
      exact part_finish hi _
    · obtain ⟨-, heq'⟩ := hbind.resolve_left fun h => h.1 hanswer
      rw [heq, heq']
      exact part_become hassign ho _

theorem part_bind_of_not (h : w.Split keep mine) (hi : keep i = false) (hj : mine j = false) :
    (w.bind i .acceptor (.server j)).part keep mine = w.part keep mine := by
  cases hs : w.session? (.server j) with
  | none => rw [bind_of_none i .acceptor hs]
  | some s =>
    have hassign := h.assign (o := .server j) (hj.trans hi.symm) s.nextConnection s.handshakes
    rcases bind_of_session i .acceptor hs with ⟨-, heq⟩ | ⟨-, heq⟩ <;> rw [heq]
    · rw [part_modifyWire_of_not hi, part_modifyWire_of_not hi]
    · rw [part_become_of_not hassign hj, part_modifyWire_of_not hi]

theorem Split.receive (h : w.Split keep mine) (i : Nat) (o : Owner) (c : ConnectionId)
    (frame : Bytes) : (w.receive i .acceptor o c frame).Split keep mine := by
  unfold World.receive
  split
  · exact h
  · dsimp only
    split
    · exact (h.become o _).close i false
    · exact h.become o _

theorem part_receive (h : w.Split keep mine) (hi : keep i) (ho : o.kept mine) (c : ConnectionId)
    (frame : Bytes) : (w.receive i .acceptor o c frame).part keep mine =
      (w.part keep mine).receive (place keep i) .acceptor (o.renumber mine) c frame := by
  unfold World.receive
  rw [part_session? ho, part_moment h ho]
  cases w.session? o with
  | none => rfl
  | some s =>
    dsimp only
    rw [← part_become h ho]
    split
    · exact part_close hi _
    · rfl

theorem part_receive_of_not (h : w.Split keep mine) (hi : keep i = false) (hj : mine j = false)
    (c : ConnectionId) (frame : Bytes) :
    (w.receive i .acceptor (.server j) c frame).part keep mine = w.part keep mine := by
  unfold World.receive
  split
  · rfl
  · dsimp only
    split
    · rw [part_modifyWire_of_not hi, part_become_of_not h hj]
    · exact part_become_of_not h hj _

end World

end Tether.Net
