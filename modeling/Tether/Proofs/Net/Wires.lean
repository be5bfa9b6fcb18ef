import Tether.Net.World
import Tether.Proofs.Net.Frames
import Tether.Proofs.Session.Effects

/-!
# What happens to connections

A host writes only into the direction that leads away from it, and only while its
session runs over its end (`Wire.carries_applyAll`). Everything else that a host does
to a connection makes it less: an end is done with, or something was read (`Wanes`).
-/

namespace Tether.Net

namespace Side

theorem eq_or_eq_other (side side' : Side) : side' = side ∨ side' = side.other := by
  cases side <;> cases side' <;> simp [other]

end Side

namespace Wire

variable (w : Wire) (side : Side)

/-! ### Ends and directions -/

@[simp] theorem socket_setSocket (s : Socket) : (w.setSocket s side).socket side = s := by
  cases side <;> rfl

@[simp] theorem socket_setSocket_other (s : Socket) :
    (w.setSocket s side).socket side.other = w.socket side.other := by
  cases side <;> rfl

@[simp] theorem inbound_setSocket (s : Socket) (side' : Side) :
    (w.setSocket s side).inbound side' = w.inbound side' := by
  cases side <;> cases side' <;> rfl

@[simp] theorem socket_setInbound (p : Pipe) (side' : Side) :
    (w.setInbound p side).socket side' = w.socket side' := by
  cases side <;> cases side' <;> rfl

@[simp] theorem inbound_setInbound (p : Pipe) : (w.setInbound p side).inbound side = p := by
  cases side <;> rfl

@[simp] theorem inbound_setInbound_other (p : Pipe) :
    (w.setInbound p side).inbound side.other = w.inbound side.other := by
  cases side <;> rfl

/-- What is written at one end does not come to it. -/
@[simp] theorem inbound_write (bs : Bytes) : (w.write side bs).inbound side = w.inbound side := by
  cases side <;> rfl

@[simp] theorem inbound_write_other (bs : Bytes) :
    (w.write side bs).inbound side.other =
      { w.inbound side.other with bytes := (w.inbound side.other).bytes ++ bs } := by
  cases side <;> rfl

@[simp] theorem socket_write (bs : Bytes) (side' : Side) :
    (w.write side bs).socket side' = w.socket side' := by
  cases side <;> cases side' <;> rfl

/-! ### Effects -/

/-- What effects of a session do to a connection. -/
def applyAll (o : Owner) (effects : List Effect) (w : Wire) : Wire :=
  effects.foldl (fun w e => apply o e w) w

variable {w side} {o : Owner} {P : Message → Prop}

theorem applyAt_stage (e : Effect) (side side' : Side) :
    ((applyAt o e w side).socket side').stage = (w.socket side').stage := by
  unfold applyAt
  split
  · split
    · rw [socket_write]
    · rfl
  · split
    · rcases side.eq_or_eq_other side' with rfl | rfl
      · rw [close, socket_setSocket]
      · rw [close, socket_setSocket_other]
    · rfl
  · rfl

theorem applyAt_inbound (e : Effect) (side : Side) :
    (applyAt o e w side).inbound side = w.inbound side := by
  unfold applyAt
  split
  · split
    · rw [inbound_write]
    · rfl
  · split
    · rw [close, inbound_setSocket]
    · rfl
  · rfl

theorem carries_applyAt {e : Effect} (side : Side) (h : (w.inbound side.other).Carries P)
    (he : ∀ τ ∈ e.transmission?, w.Bound side o τ.conn → Short τ.message ∧ P τ.message) :
    ((applyAt o e w side).inbound side.other).Carries P := by
  unfold applyAt
  split
  · split
    · next hb =>
      obtain ⟨hs, hx⟩ := he _ rfl hb
      rw [inbound_write_other]
      exact h.write hs hx _
    · exact h
  · split
    · rw [close, inbound_setSocket]
      exact h
    · exact h
  · exact h

/-- An effect leaves the stages of the ends as they are. -/
@[simp] theorem apply_stage (e : Effect) (side : Side) :
    ((apply o e w).socket side).stage = (w.socket side).stage := by
  rw [apply, applyAt_stage, applyAt_stage]

theorem bound_iff_of_stage {w' : Wire} (h : (w'.socket side).stage = (w.socket side).stage)
    (c : ConnectionId) : w'.Bound side o c ↔ w.Bound side o c := by
  unfold Bound
  rw [h]

theorem carries_apply {e : Effect} (h : (w.inbound side.other).Carries P)
    (he : ∀ τ ∈ e.transmission?, w.Bound side o τ.conn → Short τ.message ∧ P τ.message) :
    ((apply o e w).inbound side.other).Carries P := by
  unfold apply
  cases side with
  | dialer =>
    have hd : ((applyAt o e w .dialer).inbound .acceptor).Carries P :=
      carries_applyAt .dialer h he
    show ((applyAt o e (applyAt o e w .dialer) .acceptor).inbound .acceptor).Carries P
    rw [applyAt_inbound]
    exact hd
  | acceptor =>
    have hd : (applyAt o e w .dialer).inbound .dialer = w.inbound .dialer := applyAt_inbound e .dialer
    refine carries_applyAt .acceptor ?_ fun τ hτ hb =>
      he τ hτ ((bound_iff_of_stage (applyAt_stage e .dialer .acceptor) τ.conn).mp hb)
    show ((applyAt o e w .dialer).inbound .dialer).Carries P
    rw [hd]
    exact h

@[simp] theorem applyAll_stage (effects : List Effect) (side : Side) :
    ((applyAll o effects w).socket side).stage = (w.socket side).stage := by
  induction effects generalizing w with
  | nil => rfl
  | cons e effects ih => exact ih.trans (apply_stage e side)

/-- **A session writes only over its own connections**, and into the direction that leads
away from it. -/
theorem carries_applyAll {effects : List Effect} (side : Side)
    (h : (w.inbound side.other).Carries P)
    (he : ∀ τ ∈ Effect.transmitted effects, w.Bound side o τ.conn → Short τ.message ∧ P τ.message) :
    ((applyAll o effects w).inbound side.other).Carries P := by
  induction effects generalizing w with
  | nil => exact h
  | cons e effects ih =>
    refine ih (carries_apply h fun τ hτ => he τ ?_) fun τ hτ hb => he τ ?_ ?_
    · exact List.mem_filterMap.mpr ⟨e, List.mem_cons_self, hτ⟩
    · obtain ⟨e', he', hτ⟩ := List.mem_filterMap.mp hτ
      exact List.mem_filterMap.mpr ⟨e', List.mem_cons_of_mem e he', hτ⟩
    · exact (bound_iff_of_stage (apply_stage e side) τ.conn).mp hb

/-! ### Less -/

/-- A connection becomes less. -/
structure Wanes (w w' : Wire) : Prop where
  stage : ∀ side, (w'.socket side).stage = (w.socket side).stage ∨ (w'.socket side).stage = .done
  carries : ∀ side P, (w.inbound side).Carries P → (w'.inbound side).Carries P

theorem Wanes.bound {w' : Wire} {c : ConnectionId} (hw : w.Wanes w')
    (hb : w'.Bound side o c) : w.Bound side o c := by
  obtain ⟨n, hb⟩ := hb
  rcases hw.stage side with hs | hs <;> rw [hs] at hb
  · exact ⟨n, hb⟩
  · cases hb

/-- Whatever an end was to become, it is done with. -/
theorem wanes_setSocket_finish (w : Wire) (side : Side) (s : Socket) :
    w.Wanes ((w.setSocket s side).finish side) where
  stage := fun side' => by
    rcases side.eq_or_eq_other side' with rfl | rfl
    · exact .inr (by simp [finish, shut])
    · exact .inl (by simp [finish, shut])
  carries := fun side' P h => by cases side <;> cases side' <;> exact h

theorem wanes_finish (w : Wire) (side : Side) : w.Wanes (w.finish side) := by
  have h := w.wanes_setSocket_finish side (w.socket side)
  cases side <;> exact h

theorem wanes_close (w : Wire) (side : Side) (forced : Bool) : w.Wanes (w.close side forced) where
  stage := fun side' => by
    rcases side.eq_or_eq_other side' with rfl | rfl
    · exact .inl (by simp [close])
    · exact .inl (by simp [close])
  carries := fun side' P h => by
    rw [close, inbound_setSocket]
    exact h

/-- A frame was read. -/
theorem wanes_read {bytes : Bytes} {rest : Pipe} {max : Nat}
    (hn : (w.inbound side).next max = .frame bytes rest) : w.Wanes (w.setInbound rest side) where
  stage := fun side' => .inl (by rw [socket_setInbound])
  carries := fun side' P h => by
    rcases side.eq_or_eq_other side' with rfl | rfl
    · rw [inbound_setInbound]
      exact (h.next hn).2
    · rw [inbound_setInbound_other]
      exact h

end Wire

/-! ### Changing one connection -/

theorem Wire.modify_modify (wires : Array Wire) (i : Nat) (f g : Wire → Wire) :
    (wires.modify i f).modify i g = wires.modify i (g ∘ f) := by
  refine Array.ext_getElem? fun k => ?_
  simp only [Array.getElem?_modify]
  split
  · rw [Option.map_map]
  · rfl

theorem Wire.mem_modify {wires : Array Wire} {i : Nat} {w : Wire} (hw : w ∈ wires[i]?)
    (f : Wire → Wire) : f w ∈ (wires.modify i f)[i]? := by
  rw [Array.getElem?_modify, if_pos rfl]
  exact Option.mem_map_of_mem f hw

/-- The latest connection changes. -/
theorem Wire.push_modify (wires : Array Wire) (w : Wire) (f : Wire → Wire) :
    (wires.push w).modify wires.size f = wires.push (f w) := by
  refine Array.ext_getElem? fun k => ?_
  simp only [Array.getElem?_modify, Array.getElem?_push]
  split
  · next hk => rw [if_pos hk.symm, if_pos hk.symm]; rfl
  · next hk => rw [if_neg (Ne.symm hk), if_neg (Ne.symm hk)]

/-! ### Sessions in a world -/

namespace World

variable (w : World) (o : Owner) (r : Session × List Effect)

/-- The effects of a session change nothing but the connections and what was told. -/
theorem foldl_apply (effects : List Effect) :
    (effects.foldl (apply o) w).client = w.client ∧ (effects.foldl (apply o) w).server = w.server ∧
      (effects.foldl (apply o) w).wires = w.wires.map (Wire.applyAll o effects) := by
  induction effects generalizing w with
  | nil => exact ⟨rfl, rfl, (Array.map_id w.wires).symm⟩
  | cons e effects ih =>
    have hone : (apply o w e).client = w.client ∧ (apply o w e).server = w.server ∧
        (apply o w e).wires = w.wires.map (Wire.apply o e) := by
      unfold apply
      cases e <;> cases o <;> exact ⟨rfl, rfl, rfl⟩
    obtain ⟨hc, hs, hw⟩ := ih (apply o w e)
    refine ⟨hc.trans hone.1, hs.trans hone.2.1, hw.trans ?_⟩
    rw [hone.2.2, Array.map_map]
    rfl

@[simp] theorem become_client : (w.become o r).client = (w.setSession r.1 o).client :=
  (foldl_apply _ o r.2).1

@[simp] theorem become_server : (w.become o r).server = (w.setSession r.1 o).server :=
  (foldl_apply _ o r.2).2.1

@[simp] theorem become_wires : (w.become o r).wires = w.wires.map (Wire.applyAll o r.2) := by
  rw [become, (foldl_apply _ o r.2).2.2]
  cases o <;> rfl

theorem modifyWire_modifyWire (i : Nat) (f g : Wire → Wire) :
    (w.modifyWire i f).modifyWire i g = w.modifyWire i (g ∘ f) :=
  congrArg (fun wires => { w with wires }) (Wire.modify_modify w.wires i f g)

/-- How far an end is does not depend on what the sessions do. -/
@[simp] theorem become_stage? (i : Nat) (side : Side) :
    (w.become o r).stage? i side = w.stage? i side := by
  simp only [stage?, become_wires, Array.getElem?_map, Option.map_map, Function.comp_def,
    Wire.applyAll_stage]

variable {w} in
theorem modifyWire_stage? {f : Wire → Wire} {side : Side}
    (hf : ∀ wire, ((f wire).socket side).stage = (wire.socket side).stage) (i i' : Nat) :
    (w.modifyWire i f).stage? i' side = w.stage? i' side := by
  unfold stage? modifyWire
  rw [Array.getElem?_modify]
  split
  · rw [Option.map_map]
    simp only [Function.comp_def, hf]
  · rfl

/-- Nor does it depend on the frames that come. -/
theorem receive_stage? (i : Nat) (side : Side) (c : ConnectionId) (frame : Bytes) (i' : Nat)
    (side' : Side) : (w.receive i side o c frame).stage? i' side' = w.stage? i' side' := by
  unfold receive
  split
  · rfl
  · dsimp only
    split
    · rw [modifyWire_stage? (fun wire => ?_), become_stage?]
      rw [Wire.close]
      rcases side.eq_or_eq_other side' with rfl | rfl
      · rw [Wire.socket_setSocket]
      · rw [Wire.socket_setSocket_other]
    · exact become_stage? w o _ i' side'

end World

end Tether.Net
