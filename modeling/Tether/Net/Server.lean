import Tether.Session.Step

/-!
# A server

A server keeps its sessions in a directory, by their ids. The first handshake on a
connection says which session it is for. If the directory has none with that id
that is still alive, a new one is created, but only for a client that says it never
completed a handshake for it: another client would find none of what it exchanged.
For each session that it creates, the server asks the layer above for a listener.

A session that is over leaves the directory by a removal of its own, some time
later. By then another session may stand under its id, which has to stay.
-/

namespace Tether.Net

/-- A server. -/
structure Server where
  config : Config
  /-- Every session that was created, oldest first. -/
  hosted : Array Session := #[]
  /-- Where the session with an id is among them. -/
  directory : List (SessionId × Nat) := []
  /-- The sessions whose removal did not take place yet. -/
  removals : List Nat := []
  /-- The ids for which the layer above was asked for a listener, in order. -/
  listeners : List SessionId := []

/-- What a first handshake leads to. -/
inductive Admission where
  /-- The session is alive. -/
  | known (i : Nat)
  /-- The session is new. -/
  | created (i : Nat)
  /-- There is no such session, though the client had one. -/
  | unknown
  deriving DecidableEq, Repr

namespace Server

/-- A server without sessions, if its configuration is acceptable. -/
def create (config : Config) : Except ConfigError Server :=
  match config.validate with
  | .error e => .error e
  | .ok () => .ok { config }

/-- Where the session is that the directory has under an id. -/
def find? (v : Server) (id : SessionId) : Option Nat := v.directory.lookup id

/-- A session is over. -/
def Ended (v : Server) (i : Nat) : Prop := (v.hosted[i]?).any (·.terminated) = true

instance (v : Server) (i : Nat) : Decidable (v.Ended i) := inferInstanceAs (Decidable (_ = _))

/-- The directory has nothing under an id any more. -/
def forget (v : Server) (id : SessionId) : Server :=
  { v with directory := v.directory.filter (·.1 ≠ id) }

/-- A new session under an id, with a listener of its own. -/
def host (v : Server) (now : Nat) (id : SessionId) : Nat × Server :=
  let i := v.hosted.size
  (i, { v with
    listeners := v.listeners ++ [id]
    hosted := v.hosted.push (.start .server id v.config now)
    directory := (id, i) :: v.directory
    removals := v.removals ++ [i] })

/-- Find the session for a first handshake, after so many handshakes that the client
completed before. -/
def resolve (v : Server) (now : Nat) (id : SessionId) (previous : Int) : Admission × Server :=
  match (v.find? id).filter fun i => ¬ v.Ended i with
  | some i => (.known i, v)
  | none =>
    let v := v.forget id
    if previous ≠ 0 then (.unknown, v)
    else
      let r := v.host now id
      (.created r.1, r.2)

/-- The session that the directory has, a refusal, or a new session. -/
theorem resolve_cases (v : Server) (now : Nat) (id : SessionId) (previous : Int) :
    (∃ n, v.resolve now id previous = (.known n, v) ∧ (id, n) ∈ v.directory) ∨
      v.resolve now id previous = (.unknown, v.forget id) ∨
      v.resolve now id previous = (.created v.hosted.size, ((v.forget id).host now id).2) := by
  unfold resolve
  split
  · next n hn =>
    obtain ⟨hfind, -⟩ := Option.filter_eq_some_iff.mp hn
    obtain ⟨l, l', hl, -⟩ := List.lookup_eq_some_iff.mp hfind
    exact .inl ⟨n, rfl, hl ▸ List.mem_append_right l List.mem_cons_self⟩
  · dsimp only
    split
    · exact .inr (.inl rfl)
    · exact .inr (.inr rfl)

/-- The removal of a session that is over: the directory forgets its id, unless the
session under it is alive. -/
def remove (v : Server) (i : Nat) : Server :=
  match v.hosted[i]? with
  | none => v
  | some s =>
    if s.terminated then
      let v := { v with removals := v.removals.erase i }
      match v.find? s.id with
      | some j => if v.Ended j then v.forget s.id else v
      | none => v
    else v

/-- A removal changes what is found, and leaves the sessions and their listeners as they are. -/
theorem remove_same (v : Server) (i : Nat) :
    (v.remove i).config = v.config ∧ (v.remove i).hosted = v.hosted ∧
      (v.remove i).listeners = v.listeners := by
  unfold remove
  dsimp only
  repeat' split
  all_goals exact ⟨rfl, rfl, rfl⟩

/-- The ids of the sessions in the directory that are alive, in order. -/
def ids (v : Server) : List SessionId :=
  ((v.directory.filter fun entry => ¬ v.Ended entry.2).map (·.1)).mergeSort
    fun a b => a.toNat ≤ b.toNat

/-- The newest session that was ever created under an id. -/
def newest? (v : Server) (id : SessionId) : Option Nat :=
  (v.hosted.toList.zipIdx.reverse.find? fun entry => entry.1.id = id).map (·.2)

end Server

end Tether.Net
