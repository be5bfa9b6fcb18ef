import Tether.Proofs.Net.Waiting

/-!
# Noninterference between the sessions of a server

Anybody connects to a server, and writes what they please. Take away from a run all connections
whose first frames are not handshakes for one session, and the sessions of others with them
(`World.without`). Then what happens is what happened to that session in the run, at every moment of
it (`World.noninterference`): the session is created, found, changed and removed alike, the same
frames are written to it, and its listener is told the same.
-/

namespace Tether

/-- More bytes behind a frame make no difference to it. -/
theorem Framing.read_append {max : Nat} {breaks : Bool} {bs frame : Bytes} {rest : List Bytes}
    (h : read max breaks [bs] = .frame frame rest) (more : Bytes) :
    ∃ rest', read max breaks [bs ++ more] = .frame frame rest' := by
  obtain ⟨frames, e, hholds⟩ := exists_holds max breaks bs
  cases hholds with
  | nil hends =>
    have hends : Ends max breaks [bs].flatten e := by simpa using hends
    have hread := read_of_ends hends
    rw [h] at hread
    cases e <;> cases hread
  | @cons first behind _ _ hmax hfit _ =>
    have hbefore : [encode first ++ behind].flatten = encode first ++ behind :=
      List.flatten_singleton ..
    have hafter : [encode first ++ behind ++ more].flatten = encode first ++ (behind ++ more) := by
      simp
    obtain ⟨left, hleft, -⟩ := read_frame breaks hbefore hmax hfit
    obtain ⟨left', hleft', -⟩ := read_frame breaks hafter hmax hfit
    cases h.symm.trans hleft
    exact ⟨left', hleft'⟩

namespace Net

namespace World

/-! ### Runs without some connections -/

namespace Event

/-- How many connections came, if `n` did before the event. -/
def arrivals (n : Nat) : Event → Nat
  | .visit => n + 1
  | _ => n

/-- What is written to the server on connection `i`, if `n` connections came before. -/
def written (n i : Nat) : Event → Bytes
  | .write k .dialer bytes => if k = i ∧ i < n then bytes else []
  | _ => []

end Event

/-- **A run without** some of the connections and some of the sessions, if `n` connections came
before. -/
def without (keep mine : Nat → Bool) : Nat → List Event → List Event
  | _, [] => []
  | n, e :: events =>
    if e.kept keep mine n then e.renumber keep mine :: without keep mine (e.arrivals n) events
    else without keep mine (e.arrivals n) events

/-- What is written to the server on connection `i` in a run, if `n` connections came before. -/
def written (i : Nat) : Nat → List Event → Bytes
  | _, [] => []
  | n, e :: events => e.written n i ++ written i (e.arrivals n) events

/-- The first frame of a stream. -/
def opening (max : Nat) (bs : Bytes) : Option Bytes :=
  match Framing.read max false [bs] with
  | .frame frame _ => some frame
  | .ended | .failed _ => none

/-- The first frame of a stream asks for the session with an id. -/
def Opening (config : Config) (id : SessionId) (bs : Bytes) : Prop :=
  ∃ frame ∈ opening config.maxFrameLength bs, Asks id frame

instance (config : Config) (id : SessionId) (bs : Bytes) : Decidable (Opening config id bs) :=
  inferInstanceAs (Decidable (∃ frame ∈ opening config.maxFrameLength bs, Asks id frame))

variable {keep mine : Nat → Bool} {w w' : World} {o : Owner} {i j : Nat} {side : Side}
  {config : Config} {y : SessionId} {e : Event} {events : List Event} {before : Nat → Bytes}

/-! ### What came -/

/-- What came on a connection that waits for its first frame is what was written to it. -/
structure Heard (before : Nat → Bytes) (w : World) : Prop where
  waiting : ∀ i bs, w.waiting[i]? = some (some bs) → bs = before i
  /-- Nothing was written to connections that did not come yet. -/
  fresh : ∀ i, w.wires.size ≤ i → before i = []

theorem Heard.settles (hb : w.Heard before) (hs : w.Settles w') : w'.Heard before where
  waiting := by
    intro i bs hi
    exact hb.waiting i bs (hs.waiting hi)
  fresh := by
    intro i hi
    exact hb.fresh i (hs.size ▸ hi)

theorem Heard.visit (hb : w.Heard before) : w.visited.Heard before where
  waiting := by
    intro i bs hi
    simp only [World.waiting, visited, Array.map_push, Array.getElem?_push, Array.size_map] at hi
    split at hi
    · next heq =>
      have hbs := (Wire.awaited_eq_some_iff.mp (Option.some.inj hi)).2
      rw [hb.fresh i heq.ge, ← hbs]
    · exact hb.waiting i bs hi
  fresh := by
    intro i hi
    simp only [visited, Array.size_push] at hi
    exact hb.fresh i (by omega)

/-- Someone writes to the server. -/
theorem Heard.write (hb : w.Heard before) (k : Nat) (bytes : Bytes) (hk : k < w.wires.size) :
    (w.modifyWire k (·.write .dialer bytes)).Heard fun i =>
      before i ++ if k = i ∧ i < w.wires.size then bytes else [] where
  waiting := by
    intro i bs hi
    simp only [World.waiting, modifyWire, Array.getElem?_map, Array.getElem?_modify] at hi
    by_cases hki : k = i
    · subst hki
      simp only [if_true, Option.map_map, Option.map_eq_some_iff] at hi
      obtain ⟨wire, hwire, hawaited⟩ := hi
      obtain ⟨hgreeting, hbs⟩ := Wire.awaited_eq_some_iff.mp hawaited
      have hbefore : wire.toAcceptor.bytes = before k := by
        refine hb.waiting k _ ?_
        rw [World.waiting, Array.getElem?_map, hwire]
        exact congrArg some (Wire.awaited_eq_some_iff.mpr ⟨hgreeting, rfl⟩)
      rw [← hbs, ← hbefore, if_pos ⟨rfl, hk⟩]
      rfl
    · rw [if_neg hki] at hi
      rw [if_neg fun h => hki h.1, List.append_nil]
      refine hb.waiting i bs ?_
      rwa [World.waiting, Array.getElem?_map]
  fresh := by
    intro i hi
    simp only [modifyWire, Array.size_modify] at hi
    rw [hb.fresh i hi, if_neg fun h => absurd h.2 (not_lt.mpr hi)]
    rfl

/-- Nothing came in an event but what was written. -/
theorem Heard.happen (hb : w.Heard before) (h : w.Split keep mine) (hw : w.Hosted config)
    (hm : ((w.happen? e).getD w).Mine mine y)
    (hframe : ∀ i frame, w.Opens i frame → (keep i = true ↔ Asks y frame)) :
    ((w.happen? e).getD w).Heard (fun i => before i ++ e.written w.wires.size i) ∧
      ((w.happen? e).getD w).wires.size = e.arrivals w.wires.size := by
  have hquiet (hq : e.Quiet) : w.Settles ((w.happen? e).getD w) := by
    cases hw' : w.happen? e with
    | none => exact .inl rfl
    | some w' =>
      rw [hw'] at hm
      exact .happen h hw hm hframe hq hw'
  have hsame : (fun i => before i ++ []) = before := funext fun i => List.append_nil _
  cases e with
  | visit =>
    obtain ⟨v, hv⟩ := hw.server
    have hvisit : w.happen? .visit = some w.visited := by
      simp [happen?, visit?, h.reachable, hv, visited]
    simp only [hvisit, Option.getD_some, Event.written, Event.arrivals, hsame]
    exact ⟨hb.visit, Array.size_push _⟩
  | write k side bytes =>
    cases side with
    | acceptor =>
      simp only [Event.written, Event.arrivals, hsame]
      exact ⟨hb.settles (hquiet trivial), (hquiet trivial).size⟩
    | dialer =>
      by_cases hk : k < w.wires.size
      · have hstage : w.stage? k .dialer = some (w.wires[k].socket .dialer).stage := by
          rw [stage?, Array.getElem?_eq_getElem hk]
          rfl
        have hout := hstage.trans (congrArg some (h.dialer k _ hstage))
        simp only [happen?, write?, if_pos hout, Option.getD_some]
        exact ⟨hb.write k bytes hk, Array.size_modify⟩
      · have hnone : w.happen? (.write k .dialer bytes) = none := by
          simp [happen?, write?, stage?, Array.getElem?_eq_none (not_lt.mp hk)]
        have hnot (i : Nat) : ¬ (k = i ∧ i < w.wires.size) := by
          rintro ⟨rfl, hi⟩
          exact hk hi
        simp only [hnone, Option.getD_none, Event.written, Event.arrivals, hnot, if_false, hsame]
        exact ⟨hb, trivial⟩
  | _ =>
    simp only [Event.written, Event.arrivals, hsame]
    exact ⟨hb.settles (hquiet trivial), (hquiet trivial).size⟩

/-! ### Runs -/

/-- The first frame that comes on a connection is the first of all that is written to it. -/
theorem Heard.opening (hb : w.Heard before) (hw : w.Hosted config) {frame : Bytes}
    (hopens : w.Opens i frame) (more : Bytes) :
    World.opening config.maxFrameLength (before i ++ more) = some frame := by
  obtain ⟨v, hv⟩ := hw.server
  have hmax : w.maxFrame .acceptor = config.maxFrameLength := by
    rw [maxFrame, hv, ← (hw.shows hv).2.1]
    rfl
  obtain ⟨wire, hwire, hgreeting, rest, hnext⟩ := hopens
  have hbytes : wire.toAcceptor.bytes = before i := by
    refine hb.waiting i _ ?_
    rw [World.waiting, Array.getElem?_map, Option.mem_def.mp hwire]
    exact congrArg some (Wire.awaited_eq_some_iff.mpr ⟨hgreeting, rfl⟩)
  rw [Pipe.next, hmax, hbytes] at hnext
  unfold World.opening
  split at hnext
  · next bytes left hread =>
    cases hnext
    obtain ⟨left', hread'⟩ := Framing.read_append hread more
    rw [hread']
  · cases hnext
  · split at hnext <;> cases hnext
  · split at hnext <;> cases hnext

/-- **What happens in the part of a run** is what happens to what is kept in the run. -/
theorem part_run (h : w.Split keep mine) (hw : w.Hosted config) (hb : w.Heard before)
    (hm : (w.run events).Mine mine y)
    (hkeep : ∀ i, keep i = true ↔
      Opening config y (before i ++ written i w.wires.size events)) {done : List Event}
    (hdone : done <+: events) :
    (w.part keep mine).run (without keep mine w.wires.size done) = (w.run done).part keep mine ∧
      (w.run done).Split keep mine := by
  induction events generalizing w before done with
  | nil =>
    rw [List.prefix_nil.mp hdone]
    exact ⟨rfl, h⟩
  | cons e events ih =>
    cases done with
    | nil => exact ⟨rfl, h⟩
    | cons d done =>
    obtain ⟨rfl, hmore⟩ := List.cons_prefix_cons.mp hdone
    have hevent := Turns.event w d
    have hm' : ((w.happen? d).getD w).Mine mine y :=
      Mine.of_turns hm (hw.turns hevent) (.run _ events)
    have hframe : ∀ i frame, w.Opens i frame → (keep i = true ↔ Asks y frame) := by
      intro i frame hopens
      rw [hkeep i, Opening, hb.opening hw hopens]
      simp
    have hsplit : ((w.happen? d).getD w).Split keep mine := by
      cases hw' : w.happen? d with
      | none => exact h
      | some w' =>
        rw [hw'] at hm'
        exact h.happen hw hm' hframe hw'
    obtain ⟨hb', hsize⟩ := hb.happen h hw hm' hframe
    have hkeep' : ∀ i, keep i = true ↔ Opening config y (before i ++ d.written w.wires.size i ++
        written i ((w.happen? d).getD w).wires.size events) := by
      intro i
      rw [hkeep i, hsize, List.append_assoc]
      rfl
    obtain ⟨hrest, hlast⟩ := ih hsplit (hw.turns hevent) hb' hm hkeep' hmore
    refine ⟨?_, hlast⟩
    have hrun : w.run (d :: done) = ((w.happen? d).getD w).run done := rfl
    rw [hsize] at hrest
    rw [hrun, ← hrest, without]
    by_cases he : d.kept keep mine w.wires.size = true
    · have hcons (events : List Event) :
          (w.part keep mine).run (d.renumber keep mine :: events) =
            (((w.part keep mine).happen? (d.renumber keep mine)).getD (w.part keep mine)).run
              events := rfl
      rw [if_pos he, hcons, part_happen h hw hm' hframe he, Option.getD_map]
    · have hsame : ((w.happen? d).getD w).part keep mine = w.part keep mine := by
        cases hw' : w.happen? d with
        | none => rfl
        | some w' =>
          rw [hw'] at hm'
          exact part_happen_of_not h hw hm' hframe (by simpa using he) hw'
      rw [if_neg he, hsame]

/-! ### A server that anybody may connect to -/

/-- A server, and nobody who connected yet. -/
def serving (v : Server) : World := { reachable := true, server := some v }

/-- The first frame that is written to connection `i` in a run asks for the session with an id. -/
def meant (config : Config) (y : SessionId) (events : List Event) (i : Nat) : Bool :=
  decide (Opening config y (written i 0 events))

/-- Session number `j` of the server has an id. -/
def named (w : World) (y : SessionId) (j : Nat) : Bool :=
  (w.session? (.server j)).any fun s => s.id = y

theorem mine_named (w : World) (y : SessionId) : w.Mine (w.named y) y := by
  intro j s hs
  simp [named, hs]

theorem Split.serving (keep mine : Nat → Bool) (v : Server) : (serving v).Split keep mine := by
  constructor <;> simp [World.serving, stage?]

theorem Heard.serving (v : Server) : (serving v).Heard fun _ => [] := by
  constructor <;> simp [World.serving, World.waiting]

/-- Before anything happens there is nothing to leave out. -/
theorem part_serving {v : Server} (hv : Server.create config = .ok v) :
    (serving v).part keep mine = serving v := by
  have hempty : v.part mine = v := by
    unfold Server.create at hv
    split at hv
    · cases hv
    · cases hv
      rfl
  simp [part, serving, hempty, pick, pickList]

/-- **No session can tell what others do.** Whatever connections come to a server, and whatever is
written on them, take away those whose first frames are not handshakes for one id. Then at every
moment:

- all is as in the run, but for what is left out;
- each session with that id is there, in the same state, and its listener was told the same; and
  there are no other sessions;
- the one that is found under the id is the same;
- the connections that run over a session with that id are among those that were kept, and the same
  was written on each of them. -/
theorem noninterference {config : Config} {v : Server} (hv : Server.create config = .ok v)
    (events : List Event) (y : SessionId) :
    let keep := meant config y events
    let mine := ((serving v).run events).named y
    ∀ done, done <+: events →
      let whole := (serving v).run done
      let alone := (serving v).run (without keep mine 0 done)
      alone = whole.part keep mine ∧
      ((∀ j s, whole.session? (.server j) = some s → s.id = y →
          alone.session? (.server (place mine j)) = some s ∧
            alone.log? (.server (place mine j)) = whole.log? (.server j)) ∧
        ∀ k s, alone.session? (.server k) = some s →
          s.id = y ∧ ∃ j, k = place mine j ∧ whole.session? (.server j) = some s) ∧
      alone.server.bind (·.find? y) = (whole.server.bind (·.find? y)).map (place mine) ∧
      ((∀ i j c n s, whole.stage? i .acceptor = some (.bound (.server j) c n) →
          whole.session? (.server j) = some s → s.id = y → keep i) ∧
        ∀ i, keep i → (alone.wires[place keep i]?).map (·.toDialer) =
          (whole.wires[i]?).map (·.toDialer)) := by
  intro keep mine done hdone whole alone
  have hbegin : (serving v).Hosted config := .begin hv true
  have hkeep : ∀ i, keep i = true ↔
      Opening config y ([] ++ written i (serving v).wires.size events) := by
    intro i
    exact decide_eq_true_iff
  obtain ⟨hrun, hsplit⟩ :=
    part_run (.serving keep mine v) hbegin (.serving v) (mine_named _ y) hkeep hdone
  rw [part_serving hv] at hrun
  have halone : alone = whole.part keep mine := hrun
  have hhosted : whole.Hosted config := hbegin.turns (.run _ done)
  -- what is to become of the sessions tells which are left out
  have hmine : whole.Mine mine y := by
    obtain ⟨rest, rfl⟩ := hdone
    have hmore : whole.Turns ((serving v).run (done ++ rest)) := by
      rw [run, List.foldl_append]
      exact .run whole rest
    exact (mine_named _ y).of_turns hhosted hmore
  refine ⟨halone, ⟨?_, ?_⟩, ?_, ?_, ?_⟩
  · intro j s hs hid
    have hj : (Owner.server j).kept mine = true := (hmine j s hs).mpr hid
    rw [halone]
    exact ⟨(part_session? hj).trans hs, part_log? hj⟩
  · intro k s hs
    obtain ⟨u, hu⟩ := hhosted.server
    have hu' : alone.server = some (u.part mine) := by rw [halone]; simp [part, hu]
    rw [session?_server hu'] at hs
    obtain ⟨j, hj, hk, hj'⟩ := exists_of_pick_getElem? hs
    have hwhole : whole.session? (.server j) = some s := (session?_server hu j).trans hj'
    exact ⟨(hmine j s hwhole).mp hj, j, hk, hwhole⟩
  · obtain ⟨u, hu⟩ := hhosted.server
    have hu' : alone.server = some (u.part mine) := by rw [halone]; simp [part, hu]
    rw [hu, hu']
    exact (hmine.serves hhosted hu).part_find?
  · intro i j c n s hi hs hid
    rw [← hsplit.acceptor i (.server j) c n hi]
    exact (hmine j s hs).mpr hid
  · intro i hi
    rw [halone, part_wire hi, Option.map_map]
    rfl

/-- Three connections come: the first asks for session 8 and goes on with messages of session 7, the
second asks for session 7 and sends a payload, and the third begins with no handshake. -/
def crowd : List Event :=
  let frame (x : Message) : Bytes := Framing.encode x.encode
  [.visit, .visit, .visit,
    .write 0 .dialer (frame (.handshake (.ofNat 8) 0 noSequence)),
    .write 0 .dialer (frame (.send (.ofNat 7) 0 noSequence [5])),
    .write 1 .dialer (frame (.handshake (.ofNat 7) 0 noSequence)),
    .write 2 .dialer (frame (.send (.ofNat 7) 0 noSequence [5])),
    .handle 0 .acceptor, .handle 1 .acceptor, .handle 2 .acceptor, .handle 0 .acceptor,
    .write 1 .dialer (frame (.send (.ofNat 7) 0 noSequence [6])), .handle 1 .acceptor,
    .use (.server 0) .close, .use (.server 1) (.trySend [4]), .handle 0 .acceptor, .tick, .remove 0]

/-- Session 7 is the second that the server creates, and would be the only one without the others:
it is in the same state, and got the one payload that was meant for it. -/
theorem noninterference_crowd :
    let whole := (serving { config := {} }).run crowd
    let alone := (serving { config := {} }).run
      (without (meant {} (.ofNat 7) crowd) (whole.named (.ofNat 7)) 0 crowd)
    Server.create {} = .ok { config := {} } ∧
      (whole.wires.size = 3 ∧ alone.wires.size = 1 ∧ (whole.session? (.server 1)).isSome) ∧
      alone.session? (.server 0) = whole.session? (.server 1) ∧
      (alone.log? (.server 0)).map (·.messages) = some [[6]] := by
  intro whole alone
  have hcreate : Server.create {} = .ok { config := {} } := rfl
  have hplace : place (whole.named (.ofNat 7)) 1 = 0 := by decide +kernel
  have hsome : (whole.session? (.server 1)).any (·.id = .ofNat 7) = true := by decide +kernel
  obtain ⟨s, hs, hid⟩ := (Option.any_eq_true _ _).mp hsome
  obtain ⟨hsession, hlog⟩ := (noninterference hcreate crowd (.ofNat 7) crowd
    List.prefix_rfl).2.1.1 1 s hs (of_decide_eq_true hid)
  rw [hplace] at hsession hlog
  refine ⟨hcreate, ⟨by decide +kernel, by decide +kernel, Option.isSome_of_mem hs⟩,
    hsession.trans hs.symm, ?_⟩
  rw [show alone.log? (.server 0) = whole.log? (.server 1) from hlog]
  decide +kernel

end World

end Net

end Tether
