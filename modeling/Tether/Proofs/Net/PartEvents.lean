import Tether.Proofs.Net.Handling

/-!
# What happens in a part of a network

Each event is about a connection, or about a session, or about all of them. In a part of a network
the events are to happen that are about what is kept (`World.part_happen`). What happens to the rest
is not to be seen there (`World.part_happen_of_not`).
-/

namespace Tether.Net

namespace World

namespace Event

/-- The event is about what is kept, if `n` connections came before. -/
def kept (keep mine : Nat → Bool) (n : Nat) : Event → Bool
  | .visit => keep n
  | .write i _ _ | .shut i _ | .handle i _ => keep i
  | .use o _ | .resume o => o.kept mine
  | .remove j => mine j
  | .dial | .tick => true

/-- The event as it is when the rest is left out. -/
def renumber (keep mine : Nat → Bool) : Event → Event
  | .visit => .visit
  | .write i side bytes => .write (place keep i) side bytes
  | .shut i side => .shut (place keep i) side
  | .use o request => .use (o.renumber mine) request
  | .handle i side => .handle (place keep i) side
  | .dial => .dial
  | .remove j => .remove (place mine j)
  | .resume o => .resume (o.renumber mine)
  | .tick => .tick

end Event

variable {keep mine : Nat → Bool} {w w' : World} {o : Owner} {i j : Nat} {side : Side}
  {config : Config} {y : SessionId} {e : Event}

/-! ### What can happen -/

/-- Someone connects to the server. -/
def visited (w : World) : World :=
  { w with wires := w.wires.push { dialer := {}, acceptor := w.acceptor } }

/-- What an event does to a server, and to nobody else. -/
inductive Happens (w : World) : Event → World → Prop
  | visit : Happens w .visit w.visited
  | write {i : Nat} {side : Side} (bytes : Bytes) (h : w.stage? i side = some .outside) :
    Happens w (.write i side bytes) (w.modifyWire i (·.write side bytes))
  | shut {i : Nat} {side : Side} (h : w.stage? i side = some .outside) :
    Happens w (.shut i side) (w.modifyWire i (·.shut side))
  | use (o : Owner) (request : Request) :
    Happens w (.use o request) (w.act o fun m s => s.step m request.input)
  | handle {i : Nat} {side : Side} {w' : World} (h : w.handle? i side = some w') :
    Happens w (.handle i side) w'
  | remove {v : Server} {j : Nat} (hv : w.server = some v) :
    Happens w (.remove j) { w with server := some (v.remove j) }
  | resume (o : Owner) : Happens w (.resume o) (w.act o fun m s => s.resume m)
  | tick : Happens w .tick w.tick

/-- Nobody dials but the client. -/
theorem dial_of_none (h : w.client = none) : w.dial? = none := by
  simp only [dial?, h]
  rfl

/-- A session is removed that is over, if it was not yet. -/
theorem happen_remove {v : Server} (hv : w.server = some v) (j : Nat) : w.happen? (.remove j) =
    if j ∈ v.removals ∧ v.Ended j then some { w with server := some (v.remove j) } else none := by
  simp only [happen?, hv, Option.bind_eq_bind, Option.bind_some]

theorem Split.happens (h : w.Split keep mine) (hw' : w.happen? e = some w') : w.Happens e w' := by
  cases e with
  | visit =>
    simp only [happen?, visit?] at hw'
    split at hw'
    · cases hw'
      exact .visit
    · cases hw'
  | write i side bytes =>
    simp only [happen?, write?] at hw'
    split at hw'
    · next hout =>
      cases hw'
      exact .write bytes hout
    · cases hw'
  | shut i side =>
    simp only [happen?, shut?] at hw'
    split at hw'
    · next hout =>
      cases hw'
      exact .shut hout
    · cases hw'
  | use o request =>
    obtain ⟨_, -, rfl⟩ := Option.map_eq_some_iff.mp hw'
    exact .use o request
  | handle i side => exact .handle hw'
  | dial => cases (dial_of_none h.client).symm.trans hw'
  | remove j =>
    obtain ⟨v, hv, hremove⟩ := Option.bind_eq_some_iff.mp hw'
    split at hremove
    · cases hremove
      exact .remove hv
    · cases hremove
  | resume o =>
    obtain ⟨s, -, hresume⟩ := Option.bind_eq_some_iff.mp hw'
    split at hresume
    · cases hresume
      exact .resume o
    · cases hresume
  | tick =>
    cases hw'
    exact .tick

/-- Someone connects, and no session runs over the connection. -/
theorem Split.visit (h : w.Split keep mine) :
    w.visited.Split keep mine where
  reachable := h.reachable
  client := h.client
  dialer := by
    intro i stage hi
    simp only [visited, stage?, Array.getElem?_push] at hi
    split at hi
    · exact (Option.some.inj hi).symm
    · exact h.dialer i stage hi
  acceptor := by
    intro i o c n hi
    simp only [visited, stage?, Array.getElem?_push] at hi
    split at hi
    · unfold World.acceptor at hi
      split at hi <;> cases hi
    · exact h.acceptor i o c n hi

theorem Split.happen (h : w.Split keep mine) (hw : w.Hosted config) (hm : w'.Mine mine y)
    (hframe : ∀ i frame, w.Opens i frame → (keep i = true ↔ Asks y frame))
    (hw' : w.happen? e = some w') : w'.Split keep mine := by
  cases h.happens hw' with
  | visit => exact h.visit
  | @write i side bytes hout =>
    refine h.modifyWire i (fun wire => ?_) fun wire o c n hb => ?_
    · cases side <;> rfl
    · cases side <;> exact .inl hb
  | @shut i side hout =>
    refine h.modifyWire i (fun wire => ?_) fun wire o c n hb => ?_
    · cases side <;> rfl
    · cases side <;> exact .inl hb
  | use o request => exact h.act o _
  | handle hhandle => exact h.handle hw hm (hframe _) hhandle
  | remove hv => exact h.of_stage? rfl rfl fun _ _ => rfl
  | resume o => exact h.act o _
  | tick => exact h.tick

/-! ### Events about what is kept -/

theorem part_visit (hn : keep w.wires.size) :
    (w.part keep mine).happen? .visit = (w.happen? .visit).map (·.part keep mine) := by
  have hacceptor : (w.part keep mine).acceptor = w.acceptor := by
    unfold acceptor part
    cases w.server <;> rfl
  have hsocket : w.acceptor.renumber mine = w.acceptor := by
    unfold acceptor
    cases w.server <;> rfl
  have hwires : (pick keep (w.wires.push { dialer := {}, acceptor := w.acceptor })).map
      (·.renumber mine) = ((pick keep w.wires).map (·.renumber mine)).push
        { dialer := {}, acceptor := w.acceptor } := by
    rw [pick_push, if_pos hn, Array.map_push]
    simp only [Wire.renumber, hsocket]
    rfl
  have hserver : (w.part keep mine).server.isSome = w.server.isSome := by simp [part]
  simp only [happen?, visit?, hacceptor, hserver]
  by_cases hvisit : w.reachable = true ∧ w.server.isSome = true
  · rw [if_pos hvisit, if_pos (show (w.part keep mine).reachable = true ∧ _ from hvisit)]
    simp only [Option.map_some, part, hwires]
  · rw [if_neg hvisit, if_neg (show ¬ ((w.part keep mine).reachable = true ∧ _) from hvisit)]
    rfl

theorem part_outside_iff (hi : keep i) : (w.part keep mine).stage? (place keep i) side =
    some .outside ↔ w.stage? i side = some .outside := by
  rw [part_stage? hi]
  cases w.stage? i side with
  | none => simp
  | some stage => cases stage <;> simp [Stage.renumber]

theorem part_write (hi : keep i) (bytes : Bytes) :
    (w.part keep mine).write? (place keep i) side bytes =
      (w.write? i side bytes).map (·.part keep mine) := by
  have hwrite : (w.modifyWire i (·.write side bytes)).part keep mine =
      (w.part keep mine).modifyWire (place keep i) (·.write side bytes) :=
    part_modifyWire hi fun wire => Wire.renumber_write wire side bytes
  simp only [write?, part_outside_iff hi]
  split
  · exact congrArg some hwrite.symm
  · rfl

theorem part_shut (hi : keep i) : (w.part keep mine).shut? (place keep i) side =
    (w.shut? i side).map (·.part keep mine) := by
  have hshut : (w.modifyWire i (·.shut side)).part keep mine =
      (w.part keep mine).modifyWire (place keep i) (·.shut side) :=
    part_modifyWire hi fun wire => Wire.renumber_shut wire side
  simp only [shut?, part_outside_iff hi]
  split
  · exact congrArg some hshut.symm
  · rfl

theorem part_remove (hw : w.Hosted config) (hm : w.Mine mine y) (hj : mine j) :
    (w.part keep mine).happen? (.remove (place mine j)) =
      (w.happen? (.remove j)).map (·.part keep mine) := by
  obtain ⟨v, hv⟩ := hw.server
  have hv' : (w.part keep mine).server = some (v.part mine) := by simp [part, hv]
  have hid : ∀ s ∈ v.hosted[j]?, s.id = y := by
    intro s hs
    exact (hm j s ((session?_server hv j).trans hs)).mp hj
  rw [happen_remove hv, happen_remove hv', ← (hm.serves hw hv).part_remove hj hid]
  simp only [Server.mem_part_removals hj, Server.part_ended hj]
  split <;> rfl

/-- **What happens to what is kept** happens in the part. -/
theorem part_happen (h : w.Split keep mine) (hw : w.Hosted config)
    (hm : ((w.happen? e).getD w).Mine mine y)
    (hframe : ∀ i frame, w.Opens i frame → (keep i = true ↔ Asks y frame))
    (he : e.kept keep mine w.wires.size) :
    (w.part keep mine).happen? (e.renumber keep mine) = (w.happen? e).map (·.part keep mine) := by
  cases e with
  | visit => exact part_visit he
  | write i side bytes => exact part_write he bytes
  | shut i side => exact part_shut he
  | use o request =>
    have ho : o.kept mine = true := he
    simp only [happen?, Event.renumber, part_session? ho, ← part_act h ho, Option.map_map]
    rfl
  | handle i side =>
    refine part_handle h hw ?_ (hframe i) he
    intro w' hw'
    have hhappen : w.happen? (.handle i side) = some w' := hw'
    rwa [hhappen] at hm
  | dial =>
    show (w.part keep mine).dial? = w.dial?.map _
    rw [dial_of_none h.client, dial_of_none (w := w.part keep mine) h.client]
    rfl
  | remove j => exact part_remove hw (hm.of_turns hw (.event w _)) he
  | resume o =>
    have ho : o.kept mine = true := he
    simp only [happen?, Event.renumber, part_session? ho, ← part_act h ho]
    cases w.session? o with
    | none => rfl
    | some s =>
      simp only [Option.bind_eq_bind, Option.bind_some]
      split <;> rfl
  | tick => exact congrArg some (part_tick h).symm

/-! ### Events about the rest -/

/-- A session that is left out is one of the server's. -/
theorem part_act_of_not_kept (h : w.Split keep mine) (ho : o.kept mine = false)
    (f : Moment → Session → Session × List Effect) :
    (w.act o f).part keep mine = w.part keep mine := by
  cases o with
  | client => cases ho
  | server j => exact part_act_of_not h ho f

theorem part_remove_of_not (hw : w.Hosted config) (hm : w.Mine mine y) (hj : mine j = false)
    {v : Server} (hv : w.server = some v) :
    ({ w with server := some (v.remove j) } : World).part keep mine = w.part keep mine := by
  have hid : ∀ s ∈ v.hosted[j]?, s.id ≠ y := by
    intro s hs heq
    have hmine := (hm j s ((session?_server hv j).trans hs)).mpr heq
    rw [hj] at hmine
    cases hmine
  simp only [part, hv, Option.map_some, (hm.serves hw hv).part_remove_of_not hj hid]

/-- What happens to the rest is not to be seen in the part. -/
theorem part_happen_of_not (h : w.Split keep mine) (hw : w.Hosted config) (hm : w'.Mine mine y)
    (hframe : ∀ i frame, w.Opens i frame → (keep i = true ↔ Asks y frame))
    (he : e.kept keep mine w.wires.size = false) (hw' : w.happen? e = some w') :
    w'.part keep mine = w.part keep mine := by
  cases h.happens hw' with
  | visit =>
    have hn : keep w.wires.size = false := he
    simp [part, visited, pick_push, hn]
  | write bytes hout => exact part_modifyWire_of_not he _
  | shut hout => exact part_modifyWire_of_not he _
  | use o request => exact part_act_of_not_kept h he _
  | handle hhandle => exact part_handle_of_not h hw hm (hframe _) he hhandle
  | remove hv => exact part_remove_of_not hw (hm.of_turns hw (.happen hw')) he hv
  | resume o => exact part_act_of_not_kept h he _
  | tick => cases he

end World

end Tether.Net
