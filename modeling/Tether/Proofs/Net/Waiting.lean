import Tether.Proofs.Net.PartEvents

/-!
# What a server waits for

On a connection that waits for its first frame there is what others wrote to it (`World.waiting`),
and nothing that the server does makes it more or less: if a connection is touched at all, then it
does not wait any longer (`Settles.handle`).
-/

namespace Tether.Net

namespace Wire

/-- What came on a connection that waits for its first frame. -/
def awaited (wire : Wire) : Option Bytes :=
  match wire.acceptor.stage with
  | .greeting _ => some wire.toAcceptor.bytes
  | .outside | .bound _ _ _ | .done => none

variable {o : Owner} {w w' : Wire} {bs : Bytes}

theorem awaited_eq_some_iff : w.awaited = some bs ↔
    (∃ deadline, w.acceptor.stage = .greeting deadline) ∧ w.toAcceptor.bytes = bs := by
  unfold awaited
  cases w.acceptor.stage <;> simp

theorem awaited_eq_none (h : ∀ deadline, w.acceptor.stage ≠ .greeting deadline) :
    w.awaited = none := by
  unfold awaited
  cases hs : w.acceptor.stage with
  | greeting deadline => exact absurd hs (h deadline)
  | outside => rfl
  | bound o c n => rfl
  | done => rfl

theorem awaited_congr (hs : (w'.socket .acceptor).stage = (w.socket .acceptor).stage)
    (hb : w'.inbound .acceptor = w.inbound .acceptor) : w'.awaited = w.awaited := by
  have hs : w'.acceptor.stage = w.acceptor.stage := hs
  have hb : w'.toAcceptor = w.toAcceptor := hb
  unfold awaited
  rw [hs, hb]

/-- A session writes nothing to the server. -/
theorem apply_awaited (hd : (w.socket .dialer).stage = .outside) (e : Effect) :
    (apply o e w).awaited = w.awaited := by
  have hnot : ∀ c, ¬ w.Bound .dialer o c := by
    rintro c ⟨n, hb⟩
    cases hb.symm.trans hd
  refine awaited_congr (apply_stage e .acceptor) ?_
  rw [apply, applyAt_inbound, applyAt_of_not_bound hnot]

end Wire

namespace World

variable {keep mine : Nat → Bool} {w w' : World} {o : Owner} {i j : Nat} {side : Side}
  {frame : Bytes} {config : Config} {y : SessionId}

/-- What came on the connections that wait for their first frames. -/
def waiting (w : World) : Array (Option Bytes) := w.wires.map Wire.awaited

@[simp] theorem size_waiting (w : World) : w.waiting.size = w.wires.size := Array.size_map ..

/-- A connection goes on waiting. -/
theorem waiting_modifyWire (i : Nat) {f : Wire → Wire}
    (hf : ∀ wire ∈ w.wires[i]?, (f wire).awaited = wire.awaited) :
    (w.modifyWire i f).waiting = w.waiting := by
  refine Array.ext_getElem? fun k => ?_
  simp only [waiting, modifyWire, Array.getElem?_map, Array.getElem?_modify]
  split
  · next hik =>
    subst hik
    rw [Option.map_map]
    exact Option.map_congr fun wire hwire => hf wire hwire
  · rfl

/-- A connection waits no longer. -/
theorem waiting_modifyWire_none (i : Nat) {f : Wire → Wire} (hf : ∀ wire, (f wire).awaited = none) :
    (w.modifyWire i f).waiting = w.waiting.setIfInBounds i none := by
  refine Array.ext_getElem? fun k => ?_
  simp only [waiting, modifyWire, Array.getElem?_map, Array.getElem?_modify,
    Array.getElem?_setIfInBounds, Array.size_map]
  split
  · next hik =>
    subst hik
    split
    · next hlt => simp [hf, hlt]
    · next hlt => simp [hlt]
  · rfl

theorem waiting_finish (w : World) (i : Nat) :
    (w.modifyWire i (·.finish .acceptor)).waiting = w.waiting.setIfInBounds i none :=
  waiting_modifyWire_none i fun _ => rfl

theorem waiting_close (w : World) (i : Nat) (forced : Bool) :
    (w.modifyWire i (·.close .acceptor forced)).waiting = w.waiting :=
  waiting_modifyWire i fun _ _ => rfl

/-- What a session does is nothing to the connections that wait. -/
theorem waiting_become (h : w.Split keep mine) (o : Owner) (r : Session × List Effect) :
    (w.become o r).waiting = w.waiting := by
  have hfold : ∀ (effects : List Effect) (w : World), w.Split keep mine →
      (effects.foldl (World.apply o) w).waiting = w.waiting := by
    intro effects
    induction effects with
    | nil => exact fun _ _ => rfl
    | cons e effects ih =>
      intro w h
      refine (ih _ (h.apply o e)).trans ?_
      have hwires : (w.apply o e).wires = w.wires.map (Wire.apply o e) := (foldl_apply w o [e]).2.2
      unfold waiting
      rw [hwires, Array.map_map]
      refine Array.map_congr_left fun wire hwire => ?_
      obtain ⟨i, hi⟩ := Array.mem_iff_getElem?.mp hwire
      exact Wire.apply_awaited (h.dialer i _ (by rw [stage?, hi]; rfl)) e
  rw [become, hfold r.2 _ (h.setSession o r.1)]
  cases o <;> rfl

theorem waiting_act (h : w.Split keep mine) (o : Owner)
    (f : Moment → Session → Session × List Effect) : (w.act o f).waiting = w.waiting := by
  unfold act
  split
  · rfl
  · exact waiting_become h o _

theorem waiting_receive (h : w.Split keep mine) (i : Nat) (o : Owner) (c : ConnectionId)
    (frame : Bytes) : (w.receive i .acceptor o c frame).waiting = w.waiting := by
  unfold receive
  split
  · rfl
  · dsimp only
    split
    · exact (waiting_close _ i false).trans (waiting_become h o _)
    · exact waiting_become h o _

/-- A connection that a session is asked to take waits no longer. -/
theorem waiting_bind (h : w.Split keep mine) (ho : o.kept mine = keep i)
    (hs : (w.session? o).isSome) :
    (w.bind i .acceptor o).waiting = w.waiting.setIfInBounds i none := by
  obtain ⟨s, hs⟩ := Option.isSome_iff_exists.mp hs
  have hassign : (w.modifyWire i (Wire.assign o s.nextConnection s.handshakes .acceptor)).waiting =
      w.waiting.setIfInBounds i none := waiting_modifyWire_none i fun _ => rfl
  rcases bind_of_session i .acceptor hs with ⟨-, heq⟩ | ⟨-, heq⟩ <;> rw [heq]
  · rw [waiting_finish, hassign, Array.setIfInBounds_setIfInBounds]
  · rw [waiting_become (h.assign ho _ _), hassign]

theorem waiting_welcome (h : w.Split keep mine) (hj : mine j = keep i)
    (hs : (w.session? (.server j)).isSome) (frame : Bytes) :
    (greet.welcome i frame w j).waiting = w.waiting.setIfInBounds i none := by
  have hbind := waiting_bind (o := .server j) h hj hs
  unfold greet.welcome
  dsimp only
  split
  · exact (waiting_receive (h.bind (o := .server j) hj) i _ _ frame).trans hbind
  · exact hbind

theorem waiting_answer {a : Admission} (h : w.Split keep mine)
    (hj : ∀ j ∈ a.session?, mine j = keep i)
    (hs : ∀ j ∈ a.session?, (w.session? (.server j)).isSome) (frame : Bytes) (id : SessionId) :
    (w.answer i frame id a).waiting = w.waiting.setIfInBounds i none := by
  cases a with
  | known j | created j => exact waiting_welcome h (hj j rfl) (hs j rfl) frame
  | unknown => exact waiting_modifyWire_none i fun _ => rfl

/-- A connection on which a first frame came waits no longer. -/
theorem waiting_greet (h : w.Split keep mine) (hw : w.Hosted config)
    (hm : (w.greet i frame).Mine mine y) (hframe : keep i = true ↔ Asks y frame) :
    (w.greet i frame).waiting = w.waiting.setIfInBounds i none := by
  obtain ⟨v, hv⟩ := hw.server
  by_cases hasks : ∃ id, Asks id frame
  · obtain ⟨id, hid⟩ := hasks
    obtain ⟨previous, hgreet⟩ := greet_of_asks hid
    have hj := Mine.asked hw hv hm hframe hid previous (hgreet w v i hv)
    have hs : ∀ j ∈ (v.resolve w.now id previous).1.session?,
        ((w.admitted (v.resolve w.now id previous)).session? (.server j)).isSome := by
      intro j hj
      obtain ⟨s, hs, -⟩ := (hw.shows hv).1.session_resolve w.now id previous j hj
      rw [admitted_session?]
      exact Option.isSome_of_mem hs
    have hsame : (w.admitted (v.resolve w.now id previous)).waiting = w.waiting := by
      rcases v.resolve w.now id previous with ⟨a, v'⟩
      cases a <;> rfl
    rw [hgreet w v i hv, waiting_answer (h.admitted _) hj hs frame id, hsame]
  · rw [greet_of_not i (not_exists.mp hasks)]
    exact waiting_finish w i

/-! ### What happens -/

/-- No connection came, and one at most waits no longer. -/
def Settles (w w' : World) : Prop :=
  w'.waiting = w.waiting ∨ ∃ i, w'.waiting = w.waiting.setIfInBounds i none

theorem Settles.size (h : w.Settles w') : w'.wires.size = w.wires.size := by
  rw [← size_waiting, ← size_waiting]
  rcases h with h | ⟨i, h⟩ <;> rw [h]
  exact Array.size_setIfInBounds

theorem Settles.waiting (h : w.Settles w') {bs : Bytes} (hi : w'.waiting[i]? = some (some bs)) :
    w.waiting[i]? = some (some bs) := by
  rcases h with h | ⟨k, h⟩
  · exact h ▸ hi
  · rw [h, Array.getElem?_setIfInBounds] at hi
    split at hi
    · split at hi <;> cases hi
    · exact hi

theorem Settles.lose (h : w.Split keep mine) (i : Nat) (o : Owner) (c : ConnectionId) (before : Nat)
    (forced : Bool) : w.Settles (w.lose i .acceptor o c before forced) := by
  have hlose : ((w.act o fun m s => s.disconnected m c forced).modifyWire i
      (·.finish .acceptor)).waiting = w.waiting.setIfInBounds i none := by
    rw [waiting_finish, waiting_act h]
  unfold World.lose
  cases o <;> exact .inr ⟨i, hlose⟩

theorem Settles.handle (h : w.Split keep mine) (hw : w.Hosted config) (hm : w'.Mine mine y)
    (hframe : ∀ frame, w.Opens i frame → (keep i = true ↔ Asks y frame))
    (hhandle : w.handle? i side = some w') : w.Settles w' := by
  cases h.handles hhandle with
  | greet rest hopens =>
    refine .inr ⟨i, ?_⟩
    rw [waiting_greet (h.setInbound i rest .acceptor) (hw.turns (.modifyWire w i _)) hm
      (hframe _ hopens)]
    refine Array.ext_getElem? fun k => ?_
    simp only [World.waiting, modifyWire, Array.getElem?_setIfInBounds, Array.getElem?_map,
      Array.getElem?_modify, Array.size_map, Array.size_modify]
    split <;> rfl
  | finish => exact .inr ⟨i, waiting_finish w i⟩
  | lose hstage forced => exact .lose h i _ _ _ forced
  | @receive o c before hstage frame rest =>
    refine .inl ((waiting_receive (h.setInbound i rest .acceptor) i o c frame).trans ?_)
    refine waiting_modifyWire i fun wire hwire => ?_
    have hbound : wire.acceptor.stage = .bound o c before := by
      rw [stage?, Option.mem_def.mp hwire] at hstage
      exact Option.some.inj hstage
    have hnot : ∀ deadline, wire.acceptor.stage ≠ .greeting deadline := by
      intro deadline
      simp [hbound]
    rw [Wire.awaited_eq_none hnot]
    exact Wire.awaited_eq_none hnot
  | close hstage => exact .inl (waiting_close w i false)

theorem Settles.tick (h : w.Split keep mine) : w.Settles w.tick := by
  have hacts : ∀ (owners : List Owner) (w : World), w.Split keep mine →
      (owners.foldl (fun w o => w.act o fun m s => s.advance m.takes w.now (w.now + 1)) w).waiting =
        w.waiting := by
    intro owners
    induction owners with
    | nil => exact fun _ _ => rfl
    | cons o owners ih =>
      intro w h
      exact (ih _ (h.act o _)).trans (waiting_act h o _)
  exact .inl (hacts _ w h)

/-- Nobody connects in an event, and nothing is written to the server. -/
def Event.Quiet : Event → Prop
  | .visit | .write _ .dialer _ => False
  | .write _ .acceptor _ | .shut .. | .use .. | .handle .. | .dial | .remove _ | .resume _ | .tick =>
    True

theorem Settles.happen {e : Event} (h : w.Split keep mine) (hw : w.Hosted config)
    (hm : w'.Mine mine y)
    (hframe : ∀ i frame, w.Opens i frame → (keep i = true ↔ Asks y frame)) (hquiet : e.Quiet)
    (hw' : w.happen? e = some w') : w.Settles w' := by
  cases h.happens hw' with
  | visit => exact hquiet.elim
  | @write i side bytes hout =>
    cases side with
    | dialer => exact hquiet.elim
    | acceptor => exact .inl (waiting_modifyWire i fun _ _ => rfl)
  | @shut i side hout =>
    refine .inl (waiting_modifyWire i fun wire _ => ?_)
    cases side <;> rfl
  | use o request => exact .inl (waiting_act h o _)
  | handle hhandle => exact .handle h hw hm (hframe _) hhandle
  | remove hv => exact .inl rfl
  | resume o => exact .inl (waiting_act h o _)
  | tick => exact .tick h

end World

end Tether.Net
