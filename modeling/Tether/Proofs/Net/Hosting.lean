import Tether.Proofs.Net.Directory
import Tether.Proofs.Net.Wires
import Tether.Proofs.Session.Clock

/-!
# What a server does on a network

Whatever happens on a network, the server in it does one turn after the other: a first handshake
comes, something happens to a session, or a session is removed (`World.Turns.run`). So the
directory of the server is in order, and each session keeps its place and its id.
-/

namespace Tether.Net

namespace Server

variable {v : Server}

theorem run_append (v : Server) (l l' : List Turn) : v.run (l ++ l') = (v.run l).run l' :=
  List.foldl_append

theorem run_cons (v : Server) (turn : Turn) (turns : List Turn) :
    v.run (turn :: turns) = (v.step turn).run turns := rfl

theorem listeners_step (v : Server) (turn : Turn) : v.listeners <+: (v.step turn).listeners := by
  cases turn with
  | greet now id previous =>
    show v.listeners <+: (v.resolve now id previous).2.listeners
    rcases v.resolve_cases now id previous with ⟨n, hr, -⟩ | hr | hr
    · exact hr ▸ List.prefix_rfl
    · exact hr ▸ List.prefix_rfl
    · exact hr ▸ List.prefix_append _ _
  | act i m input => exact (v.listeners_act i m input).symm ▸ List.prefix_rfl
  | remove i => exact (v.step_remove_same i).2.symm ▸ List.prefix_rfl

/-- Nobody is forgotten of those for whom a listener was asked for. -/
theorem listeners_run (v : Server) (turns : List Turn) :
    v.listeners <+: (v.run turns).listeners := by
  induction turns generalizing v with
  | nil => exact List.prefix_rfl
  | cons turn turns ih => exact (v.listeners_step turn).trans (ih _)

/-- Something happens to a session, one thing after the other. -/
theorem run_acts {i : Nat} {s : Session} (hs : v.hosted[i]? = some s)
    (inputs : List (Moment × Session.Input)) :
    v.run (inputs.map fun x => .act i x.1 x.2) =
      { v with hosted := v.hosted.setIfInBounds i (s.run inputs).1 } := by
  have hlt : i < v.hosted.size := (Array.getElem?_eq_some_iff.mp hs).1
  induction inputs generalizing v s with
  | nil =>
    have hsame : v.hosted.setIfInBounds i s = v.hosted := by
      refine Array.ext_getElem? fun k => ?_
      by_cases hk : i = k
      · subst hk
        rw [Array.getElem?_setIfInBounds_self_of_lt hlt, hs]
      · rw [Array.getElem?_setIfInBounds_ne hk]
    show v = _
    simp only [Session.run, hsame]
  | cons x inputs ih =>
    rw [List.map_cons, run_cons]
    have hstep : v.step (.act i x.1 x.2) =
        { v with hosted := v.hosted.setIfInBounds i (s.step x.1 x.2).1 } := by
      simp only [step, hs]
    rw [hstep, ih (Array.getElem?_setIfInBounds_self_of_lt hlt) (by simpa using hlt)]
    simp only [Array.setIfInBounds_setIfInBounds, Session.run]

end Server

namespace World

variable {w w' : World} {v : Server} {o : Owner} {s : Session}

/-- The world has a server in it, and tells a listener for each session what happens. -/
structure Shows (w : World) (v : Server) : Prop where
  server : w.server = some v
  logs : w.serverLogs.size = v.listeners.length

/-- The server does some turns. -/
def Turns (w w' : World) : Prop := ∀ v, w.Shows v → ∃ turns, w'.Shows (v.run turns)

theorem Turns.refl (w : World) : w.Turns w := fun _ hw => ⟨[], hw⟩

theorem Turns.trans {w'' : World} (h : w.Turns w') (h' : w'.Turns w'') : w.Turns w'' := by
  intro v hv
  obtain ⟨l, hl⟩ := h v hv
  obtain ⟨l', hl'⟩ := h' _ hl
  exact ⟨l ++ l', by rwa [Server.run_append]⟩

/-- What the server has nothing to do with. -/
theorem Turns.of_eq (hserver : w'.server = w.server) (hlogs : w'.serverLogs.size = w.serverLogs.size) :
    w.Turns w' := fun _ hw => ⟨[], hserver.trans hw.server, hlogs.trans hw.logs⟩

theorem Turns.modifyWire (w : World) (i : Nat) (f : Wire → Wire) : w.Turns (w.modifyWire i f) :=
  .of_eq rfl rfl

theorem size_serverLogs_apply (w : World) (o : Owner) (e : Effect) :
    (w.apply o e).serverLogs.size = w.serverLogs.size := by
  unfold apply
  cases e <;> cases o <;> simp [tell]

theorem size_serverLogs_become (r : Session × List Effect) :
    (w.become o r).serverLogs.size = w.serverLogs.size := by
  have hfold : ∀ (effects : List Effect) (w : World),
      (effects.foldl (apply o) w).serverLogs.size = w.serverLogs.size := by
    intro effects
    induction effects with
    | nil => exact fun _ => rfl
    | cons e effects ih =>
      intro w
      exact (ih _).trans (size_serverLogs_apply w o e)
  rw [become, hfold]
  cases o <;> rfl

/-- A session goes on. -/
theorem Turns.become (hs : w.session? o = some s) (inputs : List (Moment × Session.Input))
    {s' : Session} (hs' : s' = (s.run inputs).1) (effects : List Effect) :
    w.Turns (w.become o (s', effects)) := by
  subst hs'
  cases o with
  | client => exact .of_eq (become_server w .client _) (size_serverLogs_become _)
  | server i =>
    intro v hw
    rw [session?, hw.server] at hs
    refine ⟨inputs.map fun x => .act i x.1 x.2, ?_⟩
    rw [Server.run_acts hs]
    refine ⟨?_, (size_serverLogs_become _).trans hw.logs⟩
    rw [become_server, setSession, hw.server]
    rfl

/-- A session does something that is a run of inputs. -/
theorem Turns.act (w : World) (o : Owner) {f : Moment → Session → Session × List Effect}
    (hf : ∀ m s, ∃ inputs, (f m s).1 = (s.run inputs).1) : w.Turns (w.act o f) := by
  unfold World.act
  split
  · exact .refl w
  · next s hs =>
    obtain ⟨inputs, heq⟩ := hf (w.moment o) s
    exact .become hs inputs heq _

theorem Turns.step (w : World) (o : Owner) (input : Session.Input) :
    w.Turns (w.act o fun m s => s.step m input) :=
  .act w o fun m _ => ⟨[(m, input)], rfl⟩

theorem Turns.bind (w : World) (i : Nat) (side : Side) (o : Owner) : w.Turns (w.bind i side o) := by
  unfold World.bind
  split
  · exact .refl w
  · next s hs =>
    dsimp only
    split
    · exact .of_eq rfl rfl
    · refine (Turns.modifyWire w i _).trans (Turns.become ?_ [(_, .connect)] rfl _)
      exact hs

theorem Turns.receive (w : World) (i : Nat) (side : Side) (o : Owner) (c : ConnectionId)
    (frame : Bytes) : w.Turns (w.receive i side o c frame) := by
  unfold World.receive
  split
  · exact .refl w
  · next s hs =>
    have hbecome := Turns.become hs [(w.moment o, .frame c frame)] rfl
      (s.receive (w.moment o) c frame).effects
    dsimp only
    split
    · exact hbecome.trans (.modifyWire _ i _)
    · exact hbecome

/-! ### First frames -/

/-- A frame is a handshake for the session with an id. -/
def Asks (id : SessionId) (frame : Bytes) : Prop :=
  ∃ x ∈ (Message.decode frame).toOption, x.kind = .handshake ∧ x.session = id

instance (id : SessionId) (frame : Bytes) : Decidable (Asks id frame) :=
  inferInstanceAs
    (Decidable (∃ x ∈ (Message.decode frame).toOption, x.kind = .handshake ∧ x.session = id))

/-- The server found the session for a first handshake, or created one. -/
def admitted (w : World) (r : Admission × Server) : World :=
  match r.1 with
  | .created _ => { w with server := some r.2, serverLogs := w.serverLogs.push {} }
  | .known _ | .unknown => { w with server := some r.2 }

/-- The connection is for the session that was found, or it is refused. -/
def answer (w : World) (i : Nat) (frame : Bytes) (id : SessionId) (a : Admission) : World :=
  match a with
  | .known n | .created n => greet.welcome i frame w n
  | .unknown => w.modifyWire i fun wire =>
    (wire.write .acceptor (Framing.encode (Message.handshakeFail id).encode)).finish .acceptor

/-- A first frame that is no handshake is the last. -/
theorem greet_of_not (i : Nat) {frame : Bytes} (h : ∀ id, ¬ Asks id frame) :
    w.greet i frame = w.modifyWire i (·.finish .acceptor) := by
  unfold greet
  dsimp only
  split
  · next v x hv hx =>
    have hkind : x.kind ≠ .handshake := fun hk => h x.session ⟨x, by rw [hx]; rfl, hk, rfl⟩
    rw [if_pos hkind]
  · rfl

/-- A handshake is for one session. -/
theorem Asks.unique {id id' : SessionId} {frame : Bytes} (h : Asks id frame) (h' : Asks id' frame) :
    id = id' := by
  obtain ⟨x, hx, -, rfl⟩ := h
  obtain ⟨x', hx', -, rfl⟩ := h'
  cases Option.mem_unique hx hx'
  rfl

/-- A first handshake is answered. -/
theorem greet_of_asks {id : SessionId} {frame : Bytes} (h : Asks id frame) :
    ∃ previous, ∀ (w : World) (v : Server) (i : Nat), w.server = some v → w.greet i frame =
      (w.admitted (v.resolve w.now id previous)).answer i frame id
        (v.resolve w.now id previous).1 := by
  obtain ⟨x, hx, hk, rfl⟩ := h
  refine ⟨x.seq, ?_⟩
  intro w v i hv
  unfold greet
  cases hd : Message.decode frame with
  | error e =>
    rw [hd] at hx
    cases hx
  | ok x' =>
    rw [hd] at hx
    cases hx
    rw [hv]
    simp only [hk, ne_eq, not_true, if_false]
    rcases v.resolve w.now x.session x.seq with ⟨a, v'⟩
    cases a <;> rfl

theorem Turns.admitted (hv : w.server = some v) (id : SessionId) (previous : Int) :
    w.Turns (w.admitted (v.resolve w.now id previous)) := by
  intro v' hw
  obtain rfl : v = v' := Option.some.inj (hv.symm.trans hw.server)
  refine ⟨[.greet w.now id previous], ?_⟩
  show World.Shows _ (v.resolve w.now id previous).2
  rcases v.resolve_cases w.now id previous with ⟨n, hr, -⟩ | hr | hr <;> rw [hr]
  · exact ⟨rfl, hw.logs⟩
  · exact ⟨rfl, hw.logs⟩
  · exact ⟨rfl, by simp [World.admitted, Server.host, Server.forget, hw.logs]⟩

theorem Turns.welcome (w : World) (i : Nat) (frame : Bytes) (n : Nat) :
    w.Turns (greet.welcome i frame w n) := by
  have hbind := Turns.bind w i .acceptor (.server n)
  unfold greet.welcome
  dsimp only
  split
  · exact hbind.trans (.receive _ i _ _ _ _)
  · exact hbind

theorem Turns.answer (w : World) (i : Nat) (frame : Bytes) (id : SessionId) (a : Admission) :
    w.Turns (w.answer i frame id a) := by
  cases a with
  | known n => exact .welcome w i frame n
  | created n => exact .welcome w i frame n
  | unknown => exact .modifyWire w i _

/-- The first frame comes on a connection. -/
theorem Turns.greet (w : World) (i : Nat) (frame : Bytes) : w.Turns (w.greet i frame) := by
  by_cases h : ∃ id, Asks id frame
  · obtain ⟨id, h⟩ := h
    obtain ⟨previous, heq⟩ := greet_of_asks h
    intro v hv
    rw [heq w v i hv.server]
    exact (Turns.admitted hv.server id previous).trans (.answer _ i frame id _) v hv
  · rw [greet_of_not i (not_exists.mp h)]
    exact .modifyWire w i _

/-! ### What happens -/

theorem Turns.lose (w : World) (i : Nat) (side : Side) (o : Owner) (c : ConnectionId) (before : Nat)
    (forced : Bool) : w.Turns (w.lose i side o c before forced) := by
  have hact := (Turns.step w o (.disconnected c forced)).trans (.modifyWire _ i (·.finish side))
  unfold World.lose
  cases o with
  | client => exact hact.trans (.of_eq rfl rfl)
  | server j => exact hact

theorem Turns.handle {i : Nat} {side : Side} (h : w.handle? i side = some w') : w.Turns w' := by
  have hread := fun rest : Pipe => Turns.modifyWire w i fun wire => wire.setInbound rest side
  unfold handle? at h
  cases hwire : w.wires[i]? with
  | none =>
    rw [hwire] at h
    cases h
  | some wire =>
  simp only [hwire, Option.bind_eq_bind, Option.bind_some] at h
  split at h
  · cases h
  · cases h
  · split at h
    · cases h
      exact (hread _).trans (.greet _ i _)
    · cases h
      exact .modifyWire w i _
    · split at h
      · cases h
        exact .modifyWire w i _
      · cases h
  · split at h
    · cases h
      exact .lose w i side _ _ _ _
    · split at h
      · cases h
        exact (hread _).trans (.receive _ i side _ _ _)
      · cases h
        exact .modifyWire w i _
      · cases h

theorem Turns.dial (h : w.dial? = some w') : w.Turns w' := by
  unfold dial? at h
  cases hc : w.client with
  | none =>
    rw [hc] at h
    cases h
  | some c =>
  simp only [hc, Option.bind_eq_bind, Option.bind_some] at h
  split at h
  · cases h
  · split at h
    · cases h
      exact .of_eq rfl rfl
    · split at h
      · cases h
        exact .of_eq rfl rfl
      · cases h
        have hdial : w.Turns { w with
            wires := w.wires.push { dialer := {}, acceptor := w.acceptor }
            client := some { c with dialing := .connected } } := .of_eq rfl rfl
        exact hdial.trans (.bind _ _ .dialer .client)

theorem Turns.tick (w : World) : w.Turns w.tick := by
  have hfold : ∀ (owners : List Owner) (w : World), w.Turns
      (owners.foldl (fun w o => w.act o fun m s => s.advance m.takes w.now (w.now + 1)) w) := by
    intro owners
    induction owners with
    | nil => exact fun w => .refl w
    | cons o owners ih =>
      intro w
      refine Turns.trans (.act w o ?_) (ih _)
      intro m s
      refine ⟨s.due m.takes (w.now + 1) Session.maxAlarms w.now, ?_⟩
      rw [Session.run_due, Session.advance]
  exact (hfold _ w).trans (.of_eq rfl rfl)

/-- **Whatever happens, the server does some turns.** -/
theorem Turns.happen {e : Event} (h : w.happen? e = some w') : w.Turns w' := by
  cases e with
  | visit =>
    simp only [happen?, visit?] at h
    split at h
    · cases h
      exact .of_eq rfl rfl
    · cases h
  | write i side bytes =>
    simp only [happen?, write?] at h
    split at h
    · cases h
      exact .modifyWire w i _
    · cases h
  | shut i side =>
    simp only [happen?, shut?] at h
    split at h
    · cases h
      exact .modifyWire w i _
    · cases h
  | use o request =>
    obtain ⟨_, -, rfl⟩ := Option.map_eq_some_iff.mp h
    exact .step w o request.input
  | handle i side => exact .handle h
  | dial => exact .dial h
  | remove j =>
    obtain ⟨v, hv, h⟩ := Option.bind_eq_some_iff.mp h
    split at h
    · next hj =>
      cases h
      intro v' hw
      cases hw.server.symm.trans hv
      refine ⟨[.remove j], ?_⟩
      simp only [Server.run, List.foldl, Server.step, if_pos hj]
      exact ⟨rfl, hw.logs.trans (congrArg _ (v.remove_same j).2.2.symm)⟩
    · cases h
  | resume o =>
    obtain ⟨s, -, h⟩ := Option.bind_eq_some_iff.mp h
    split at h
    · cases h
      exact .step w o .resume
    · cases h
  | tick =>
    cases h
    exact .tick w

theorem Turns.event (w : World) (e : Event) : w.Turns ((w.happen? e).getD w) := by
  cases h : w.happen? e with
  | none => exact .refl w
  | some w' => exact .happen h

theorem Turns.run (w : World) (events : List Event) : w.Turns (w.run events) := by
  induction events generalizing w with
  | nil => exact .refl w
  | cons e events ih => exact (Turns.event w e).trans (ih _)

/-! ### The directory of the server -/

/-- The directory of the server is in order. -/
def Hosted (config : Config) (w : World) : Prop :=
  ∃ v, w.Shows v ∧ v.Orderly ∧ v.config = config

variable {config : Config}

/-- It is so before anything happens. -/
theorem Hosted.begin (hv : Server.create config = .ok v) (reachable : Bool) :
    Hosted config { reachable, server := some v } := by
  refine ⟨v, ⟨rfl, ?_⟩, .create hv, ?_⟩ <;> rw [Server.eq_of_create hv]
  rfl

/-- It stays so. -/
theorem Hosted.turns (hw : w.Hosted config) (ht : w.Turns w') : w'.Hosted config := by
  obtain ⟨v, hshows, ho, hconfig⟩ := hw
  obtain ⟨turns, hshows'⟩ := ht v hshows
  exact ⟨_, hshows', ho.run turns, (v.config_run turns).trans hconfig⟩

theorem Hosted.server (hw : w.Hosted config) : ∃ v, w.server = some v := by
  obtain ⟨v, hshows, -⟩ := hw
  exact ⟨v, hshows.server⟩

theorem Hosted.shows (hw : w.Hosted config) (hv : w.server = some v) :
    v.Orderly ∧ v.config = config ∧ w.serverLogs.size = v.hosted.size := by
  obtain ⟨v', hshows, ho, hconfig⟩ := hw
  cases hv.symm.trans hshows.server
  exact ⟨ho, hconfig, hshows.logs.trans ho.length_listeners⟩

/-- **A session keeps its place and its id.** -/
theorem Hosted.session_turns (hw : w.Hosted config) (ht : w.Turns w') {j : Nat}
    (hs : w.session? (.server j) = some s) :
    ∃ s', w'.session? (.server j) = some s' ∧ s'.id = s.id := by
  obtain ⟨v, hshows, ho, -⟩ := hw
  obtain ⟨turns, hshows'⟩ := ht v hshows
  have hs : v.hosted[j]? = some s := by
    rw [session?, hshows.server] at hs
    exact hs
  have hid : v.listeners[j]? = some s.id := by simp [ho.listeners, hs]
  have hid' : (v.run turns).listeners[j]? = some s.id := by
    obtain ⟨more, hmore⟩ := v.listeners_run turns
    rw [← hmore, List.getElem?_append_left (List.getElem?_eq_some_iff.mp hid).1]
    exact hid
  rw [(ho.run turns).listeners, List.getElem?_map, Option.map_eq_some_iff] at hid'
  obtain ⟨s', hs', hsame⟩ := hid'
  refine ⟨s', ?_, hsame⟩
  rw [session?, hshows'.server]
  exact Array.getElem?_toList.symm.trans hs'

end World

end Tether.Net
