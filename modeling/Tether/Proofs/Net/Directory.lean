import Tether.Net.Server
import Tether.Proofs.Session.Lifetime
import Tether.Proofs.Session.Transport

/-!
# The directory of a server

First handshakes, ends of sessions and removals come to a server in any order, and a removal
may be as late as it likes (`Server.run`). Whatever comes, the directory is in order
(`Server.Orderly`): a session that is alive is found under its id and is the only one alive
with it, and what else is found is a session that is over and that a removal is still to take
away (`one_session_per_id`).
-/

namespace Tether

/-- A session that is over stays so. -/
theorem Session.Sound.terminated_step {s : Session} (hs : s.Sound) (h : s.terminated = true)
    (m : Moment) (input : Session.Input) : (s.step m input).1.terminated = true := by
  have hgone := hs.gone (hs.2.terminated.mp h)
  obtain ⟨⟨waiting, nextTicket, hsame⟩, -⟩ := hgone.step m input
  rw [hsame]
  exact h

namespace Net

namespace Server

variable {v : Server} {id : SessionId} {i j now : Nat} {previous : Int} {s s' : Session}

/-- Session number `i` has an id, and is alive. -/
def Lives (v : Server) (id : SessionId) (i : Nat) : Prop :=
  ∃ s ∈ v.hosted[i]?, s.id = id ∧ s.terminated = false

instance (v : Server) (id : SessionId) (i : Nat) : Decidable (v.Lives id i) :=
  inferInstanceAs (Decidable (∃ s ∈ v.hosted[i]?, s.id = id ∧ s.terminated = false))

/-- **The directory is in order.** -/
structure Orderly (v : Server) : Prop where
  config : v.config.validate = .ok ()
  sound : ∀ (i : Nat), ∀ s ∈ v.hosted[i]?, s.Sound
  /-- What is found under an id is a session with it. -/
  listed : ∀ (id : SessionId) (i : Nat), (id, i) ∈ v.directory → ∃ s ∈ v.hosted[i]?, s.id = id
  /-- One session at most is found under an id. -/
  keys : (v.directory.map Prod.fst).Nodup
  /-- A session that is alive is found. -/
  alive : ∀ id i, v.Lives id i → (id, i) ∈ v.directory
  /-- An older session with the same id is over. -/
  older : ∀ i j : Nat, i < j → ∀ s ∈ v.hosted[i]?, ∀ t ∈ v.hosted[j]?, s.id = t.id →
    s.terminated = true
  /-- What is found is still to be removed. -/
  owed : ∀ id i, (id, i) ∈ v.directory → i ∈ v.removals
  /-- Every session is removed once. -/
  once : v.removals.Nodup
  removals_lt : ∀ i ∈ v.removals, i < v.hosted.size
  /-- A listener was asked for once for each session. -/
  listeners : v.listeners = v.hosted.toList.map (·.id)

theorem ended_iff : v.Ended i ↔ ∃ s ∈ v.hosted[i]?, s.terminated = true := by
  simp [Ended, Option.any_eq_true]

/-- A session that is alive is not over. -/
theorem Lives.not_ended (h : v.Lives id i) : ¬ v.Ended i := by
  obtain ⟨s, hs, -, halive⟩ := h
  rw [ended_iff]
  rintro ⟨t, ht, hover⟩
  cases Option.mem_unique hs ht
  rw [halive] at hover
  cases hover

/-! ### Finding -/

theorem find?_eq_some_iff (h : (v.directory.map Prod.fst).Nodup) :
    v.find? id = some i ↔ (id, i) ∈ v.directory := by
  unfold find?
  generalize v.directory = l at h
  induction l with
  | nil => simp
  | cons entry l ih =>
    obtain ⟨id', i'⟩ := entry
    rw [List.map_cons, List.nodup_cons] at h
    by_cases hid : id = id'
    · subst hid
      have hnot : (id, i) ∉ l := by
        intro hi
        exact h.1 (List.mem_map.mpr ⟨(id, i), hi, rfl⟩)
      simp [hnot, eq_comm]
    · have hne : (id == id') = false := beq_eq_false_iff_ne.mpr hid
      simp [List.lookup_cons, hne, hid, ih h.2]

/-- The session that is alive under an id is found. -/
theorem Orderly.find?_of_lives (h : v.Orderly) (hi : v.Lives id i) : v.find? id = some i :=
  (find?_eq_some_iff h.keys).mpr (h.alive id i hi)

/-- There is one at most. -/
theorem Orderly.lives_unique (h : v.Orderly) (hi : v.Lives id i) (hj : v.Lives id j) : i = j :=
  Option.some.inj ((h.find?_of_lives hi).symm.trans (h.find?_of_lives hj))

/-- What is found under an id is alive, or over. -/
theorem Orderly.lives_of_find? (h : v.Orderly) (hi : v.find? id = some i) (he : ¬ v.Ended i) :
    v.Lives id i := by
  obtain ⟨s, hs, hid⟩ := h.listed id i ((find?_eq_some_iff h.keys).mp hi)
  refine ⟨s, hs, hid, ?_⟩
  by_contra hover
  exact he (ended_iff.mpr ⟨s, hs, by simpa using hover⟩)

/-- A session that is alive is known. -/
theorem Orderly.resolve_of_lives (h : v.Orderly) (hi : v.Lives id i) (now : Nat) (previous : Int) :
    v.resolve now id previous = (.known i, v) := by
  have hfound : (v.find? id).filter (fun i => ¬ v.Ended i) = some i := by
    simp [h.find?_of_lives hi, hi.not_ended]
  simp only [resolve, hfound]

/-- If there is none, the id is forgotten, and a new session created unless the client had one. -/
theorem Orderly.resolve_of_not_lives (h : v.Orderly) (hi : ∀ i, ¬ v.Lives id i) (now : Nat)
    (previous : Int) : v.resolve now id previous =
      if previous ≠ 0 then (.unknown, v.forget id)
      else (.created v.hosted.size, ((v.forget id).host now id).2) := by
  have hfound : (v.find? id).filter (fun i => ¬ v.Ended i) = none := by
    rw [Option.filter_eq_none_iff]
    intro i hfind
    simpa using fun he => hi i (h.lives_of_find? hfind he)
  simp only [resolve, hfound]
  rfl

/-! ### What keeps the directory in order -/

/-- Nothing is alive under an id that is forgotten. -/
theorem Orderly.forget (h : v.Orderly) (hid : ∀ i, ¬ v.Lives id i) : (v.forget id).Orderly where
  config := h.config
  sound := h.sound
  listed := by
    intro id' i hi
    exact h.listed id' i (List.mem_filter.mp hi).1
  keys := h.keys.sublist (List.filter_sublist.map _)
  alive := by
    intro id' i hi
    have hne : id' ≠ id := by
      rintro rfl
      exact hid i hi
    simp only [Server.forget, List.mem_filter]
    exact ⟨h.alive id' i hi, by simpa using hne⟩
  older := h.older
  owed := by
    intro id' i hi
    exact h.owed id' i (List.mem_filter.mp hi).1
  once := h.once
  removals_lt := h.removals_lt
  listeners := h.listeners

/-- A session is created under an id that is not in use. -/
theorem Orderly.host (h : v.Orderly) (hid : ∀ i, ¬ v.Lives id i) (hnone : ∀ i, (id, i) ∉ v.directory)
    (now : Nat) : (v.host now id).2.Orderly := by
  have hnew : Session.create .server id v.config now = .ok (.start .server id v.config now) := by
    unfold Session.create
    rw [h.config]
  have hold {k : Nat} {t : Session} (ht : t ∈ v.hosted[k]?) :
      t ∈ (v.host now id).2.hosted[k]? := by
    have hlt : k < v.hosted.size := (Array.getElem?_eq_some_iff.mp ht).1
    simp only [Server.host, Array.getElem?_push, if_neg hlt.ne]
    exact ht
  have hcases {k : Nat} {t : Session} (ht : t ∈ (v.host now id).2.hosted[k]?) :
      t ∈ v.hosted[k]? ∨ k = v.hosted.size ∧ t = .start .server id v.config now := by
    simp only [Server.host, Array.getElem?_push] at ht
    split at ht
    · next hk => exact .inr ⟨hk, (Option.some.inj ht).symm⟩
    · exact .inl ht
  have hlatest : Session.start .server id v.config now ∈
      (v.host now id).2.hosted[v.hosted.size]? := by simp [Server.host]
  constructor
  case config => exact h.config
  case sound =>
    intro k t ht
    rcases hcases ht with ht | ⟨-, rfl⟩
    · exact h.sound k t ht
    · exact Session.Sound.start hnew
  case listed =>
    intro id' k hk
    rcases List.mem_cons.mp hk with heq | hk
    · cases heq
      exact ⟨_, hlatest, rfl⟩
    · obtain ⟨t, ht, hid'⟩ := h.listed id' k hk
      exact ⟨t, hold ht, hid'⟩
  case keys =>
    simp only [Server.host, List.map_cons, List.nodup_cons]
    refine ⟨?_, h.keys⟩
    intro hmem
    obtain ⟨entry, hentry, heq⟩ := List.mem_map.mp hmem
    exact hnone entry.2 (heq ▸ hentry)
  case alive =>
    rintro id' k ⟨t, ht, hid', halive⟩
    rcases hcases ht with ht | ⟨rfl, rfl⟩
    · exact List.mem_cons_of_mem _ (h.alive id' k ⟨t, ht, hid', halive⟩)
    · cases hid'
      exact List.mem_cons_self
  case older =>
    intro k l hkl t ht u hu hsame
    rcases hcases hu with hu | ⟨rfl, rfl⟩
    · have hlt : l < v.hosted.size := (Array.getElem?_eq_some_iff.mp hu).1
      rcases hcases ht with ht | ⟨rfl, -⟩
      · exact h.older k l hkl t ht u hu hsame
      · omega
    · rcases hcases ht with ht | ⟨rfl, -⟩
      · by_contra halive
        exact hid k ⟨t, ht, hsame, by simpa using halive⟩
      · omega
  case owed =>
    intro id' k hk
    simp only [Server.host, List.mem_append, List.mem_singleton]
    rcases List.mem_cons.mp hk with heq | hk
    · cases heq
      exact .inr rfl
    · exact .inl (h.owed id' k hk)
  case once =>
    simp only [Server.host, List.nodup_append]
    refine ⟨h.once, by simp, ?_⟩
    intro k hk l hl
    have hlt := h.removals_lt k hk
    have hl := List.mem_singleton.mp hl
    omega
  case removals_lt =>
    intro k hk
    simp only [Server.host, List.mem_append, List.mem_singleton, Array.size_push] at hk ⊢
    rcases hk with hk | rfl
    · exact Nat.lt_succ_of_lt (h.removals_lt k hk)
    · exact Nat.lt_succ_self _
  case listeners => simp [Server.host, h.listeners, Session.start]

/-- A session goes on, and is not alive again once it is over. -/
theorem Orderly.become (h : v.Orderly) (hs : s ∈ v.hosted[i]?) (hsound : s'.Sound)
    (hid : s'.id = s.id) (hover : s.terminated = true → s'.terminated = true) :
    Orderly { v with hosted := v.hosted.setIfInBounds i s' } := by
  -- what is hosted at a place was hosted there before, with the same id, and is not alive again
  have hbefore {k : Nat} {t : Session} (ht : t ∈ (v.hosted.setIfInBounds i s')[k]?) :
      ∃ u ∈ v.hosted[k]?, t.id = u.id ∧ (u.terminated = true → t.terminated = true) ∧ t.Sound := by
    by_cases hk : i = k
    · subst hk
      have hlt : i < v.hosted.size := (Array.getElem?_eq_some_iff.mp hs).1
      rw [Array.getElem?_setIfInBounds_self_of_lt hlt] at ht
      cases ht
      exact ⟨s, hs, hid, hover, hsound⟩
    · rw [Array.getElem?_setIfInBounds_ne hk] at ht
      exact ⟨t, ht, rfl, id, h.sound k t ht⟩
  have hafter {k : Nat} {u : Session} (hu : u ∈ v.hosted[k]?) :
      ∃ t ∈ (v.hosted.setIfInBounds i s')[k]?, t.id = u.id := by
    by_cases hk : i = k
    · subst hk
      have hlt : i < v.hosted.size := (Array.getElem?_eq_some_iff.mp hs).1
      cases Option.mem_unique hs hu
      exact ⟨s', Array.getElem?_setIfInBounds_self_of_lt hlt, hid⟩
    · exact ⟨u, (Array.getElem?_setIfInBounds_ne hk).trans hu, rfl⟩
  constructor
  case config => exact h.config
  case sound =>
    intro k t ht
    obtain ⟨-, -, -, -, hsound⟩ := hbefore ht
    exact hsound
  case listed =>
    intro id' k hk
    obtain ⟨u, hu, rfl⟩ := h.listed id' k hk
    exact hafter hu
  case keys => exact h.keys
  case alive =>
    rintro id' k ⟨t, ht, rfl, halive⟩
    obtain ⟨u, hu, hsame, hover, -⟩ := hbefore ht
    refine h.alive t.id k ⟨u, hu, hsame.symm, ?_⟩
    by_contra hu
    rw [hover (by simpa using hu)] at halive
    cases halive
  case older =>
    intro k l hkl t ht u hu hsame
    obtain ⟨t', ht', htid, htover, -⟩ := hbefore ht
    obtain ⟨u', hu', huid, -, -⟩ := hbefore hu
    exact htover (h.older k l hkl t' ht' u' hu' (by rw [← htid, ← huid, hsame]))
  case owed => exact h.owed
  case once => exact h.once
  case removals_lt =>
    intro k hk
    simpa using h.removals_lt k hk
  case listeners =>
    rw [h.listeners]
    refine List.ext_getElem? fun k => ?_
    simp only [List.getElem?_map, Array.getElem?_toList]
    by_cases hk : i = k
    · subst hk
      rw [Array.getElem?_setIfInBounds_self_of_lt (Array.getElem?_eq_some_iff.mp hs).1,
        Option.mem_def.mp hs]
      exact congrArg some hid.symm
    · rw [Array.getElem?_setIfInBounds_ne hk]

/-- The removal took place of a session that is not found any more. -/
theorem Orderly.removed (h : v.Orderly) (i : Nat) (hi : ∀ id, (id, i) ∉ v.directory) :
    Orderly { v with removals := v.removals.erase i } where
  config := h.config
  sound := h.sound
  listed := h.listed
  keys := h.keys
  alive := h.alive
  older := h.older
  owed := by
    intro id k hk
    have hne : k ≠ i := by
      rintro rfl
      exact hi id hk
    exact (List.mem_erase_of_ne hne).mpr (h.owed id k hk)
  once := h.once.erase i
  removals_lt := by
    intro k hk
    exact h.removals_lt k (List.mem_of_mem_erase hk)
  listeners := h.listeners

/-- What a removal does. -/
theorem remove_eq {s : Session} (hs : v.hosted[i]? = some s) :
    v.remove i = if s.terminated then
      { (if ∃ k ∈ v.find? s.id, v.Ended k then v.forget s.id else v) with
        removals := v.removals.erase i }
    else v := by
  have hfind : Server.find? { v with removals := v.removals.erase i } s.id = v.find? s.id := rfl
  have hended (k : Nat) :
      Server.Ended { v with removals := v.removals.erase i } k ↔ v.Ended k := Iff.rfl
  unfold remove
  simp only [hs, hfind, hended]
  cases v.find? s.id with
  | none => simp
  | some k =>
    by_cases hk : v.Ended k
    · simp only [hk, if_true, Option.mem_def, Option.some.injEq, exists_eq_left']
      rfl
    · simp only [hk, if_false, Option.mem_def, Option.some.injEq, exists_eq_left']

/-- A removal takes the session that is over, or nothing, from the directory. -/
theorem Orderly.remove_cases (h : v.Orderly) (hi : v.Ended i) :
    ∃ v' : Server, v.remove i = { v' with removals := v.removals.erase i } ∧
      (v' = v ∨ ∃ id, (∀ k, ¬ v.Lives id k) ∧ v' = v.forget id) ∧ ∀ id, (id, i) ∉ v'.directory := by
  obtain ⟨s, hs, hover⟩ := ended_iff.mp hi
  -- under the id of the session the session itself is found, or another one, or nothing
  have hself {id : SessionId} (hid : (id, i) ∈ v.directory) : id = s.id ∧ v.find? s.id = some i := by
    obtain ⟨t, ht, rfl⟩ := h.listed id i hid
    cases Option.mem_unique hs ht
    exact ⟨rfl, (find?_eq_some_iff h.keys).mpr hid⟩
  rw [remove_eq hs, if_pos hover]
  by_cases hk : ∃ k ∈ v.find? s.id, v.Ended k
  · obtain ⟨k, hk, hek⟩ := hk
    rw [if_pos ⟨k, hk, hek⟩]
    refine ⟨v.forget s.id, rfl, .inr ⟨s.id, ?_, rfl⟩, ?_⟩
    · intro l hl
      cases Option.mem_unique hk (h.find?_of_lives hl)
      exact hl.not_ended hek
    · intro id hid
      obtain ⟨hid, hne⟩ := List.mem_filter.mp hid
      simp [(hself hid).1] at hne
  · rw [if_neg hk]
    refine ⟨v, rfl, .inl rfl, ?_⟩
    intro id hid
    exact hk ⟨i, (hself hid).2, hi⟩

theorem Orderly.remove (h : v.Orderly) (hi : v.Ended i) : (v.remove i).Orderly := by
  obtain ⟨v', heq, hv', hgone⟩ := h.remove_cases hi
  rw [heq]
  rcases hv' with rfl | ⟨id, hid, rfl⟩
  · exact h.removed i hgone
  · exact (h.forget hid).removed i hgone

/-- A removal happens once. -/
theorem Orderly.removals_remove (h : v.Orderly) (hi : v.Ended i) :
    (v.remove i).removals = v.removals.erase i := by
  obtain ⟨v', heq, hv', -⟩ := h.remove_cases hi
  rw [heq]

/-- There are as many listeners as sessions. -/
theorem Orderly.length_listeners (h : v.Orderly) : v.listeners.length = v.hosted.size := by
  simp [h.listeners]

theorem eq_of_create {config : Config} (h : Server.create config = .ok v) : v = { config } := by
  unfold Server.create at h
  split at h
  · cases h
  · exact (Except.ok.inj h).symm

/-- A server begins so. -/
theorem Orderly.create {config : Config} (h : Server.create config = .ok v) : v.Orderly := by
  unfold Server.create at h
  split at h
  · cases h
  · next hconfig =>
    cases h
    exact {
      config := hconfig
      sound := by simp
      listed := by simp
      keys := List.nodup_nil
      alive := by simp [Lives]
      older := by simp
      owed := by simp
      once := List.nodup_nil
      removals_lt := by simp
      listeners := rfl }

/-! ### Runs -/

/-- What can happen to a server. -/
inductive Turn where
  /-- The first handshake comes on a connection. -/
  | greet (now : Nat) (id : SessionId) (previous : Int)
  /-- Something happens to a session. -/
  | act (i : Nat) (m : Moment) (input : Session.Input)
  /-- A session that is over is removed. -/
  | remove (i : Nat)

/-- What a turn leads to. A removal waits until the session is over, and happens once. -/
def step (v : Server) : Turn → Server
  | .greet now id previous => (v.resolve now id previous).2
  | .act i m input =>
    match v.hosted[i]? with
    | none => v
    | some s => { v with hosted := v.hosted.setIfInBounds i (s.step m input).1 }
  | .remove i => if i ∈ v.removals ∧ v.Ended i then v.remove i else v

/-- What a run of turns leads to. -/
def run (v : Server) (turns : List Turn) : Server := turns.foldl step v

/-- What happens to a session asks for no listener. -/
theorem listeners_act (v : Server) (i : Nat) (m : Moment) (input : Session.Input) :
    (v.step (.act i m input)).listeners = v.listeners := by
  simp only [step]
  split <;> rfl

/-- A removal leaves the sessions and their listeners as they are. -/
theorem step_remove_same (v : Server) (i : Nat) :
    (v.step (.remove i)).hosted = v.hosted ∧ (v.step (.remove i)).listeners = v.listeners := by
  simp only [step]
  split
  · exact (v.remove_same i).2
  · exact ⟨rfl, rfl⟩

/-- A removal that can take place is done. -/
theorem Orderly.not_mem_removals (h : v.Orderly) (hi : v.Ended i) :
    i ∉ (v.step (.remove i)).removals := by
  simp only [Server.step]
  split
  · rw [h.removals_remove hi]
    exact h.once.not_mem_erase
  · next hnot => exact fun hmem => hnot ⟨hmem, hi⟩

/-- **Whatever comes, the directory stays in order.** -/
theorem Orderly.step (h : v.Orderly) (turn : Turn) : (v.step turn).Orderly := by
  cases turn with
  | greet now id previous =>
    show (v.resolve now id previous).2.Orderly
    by_cases hi : ∃ i, v.Lives id i
    · obtain ⟨i, hi⟩ := hi
      rw [h.resolve_of_lives hi]
      exact h
    · rw [not_exists] at hi
      rw [h.resolve_of_not_lives hi]
      split
      · exact h.forget hi
      · refine (h.forget hi).host hi (fun i hmem => ?_) now
        simp [Server.forget] at hmem
  | act i m input =>
    simp only [Server.step]
    cases hs : v.hosted[i]? with
    | none => exact h
    | some s =>
      have hsound := h.sound i s hs
      have hid := (hsound.1.step_grows m input).id
      exact h.become hs (hsound.step m input) hid fun hover => hsound.terminated_step hover m input
  | remove i =>
    simp only [Server.step]
    split
    · next hi => exact h.remove hi.2
    · exact h

theorem Orderly.run (h : v.Orderly) (turns : List Turn) : (v.run turns).Orderly := by
  induction turns generalizing v with
  | nil => exact h
  | cons turn turns ih => exact ih (h.step turn)

theorem config_step (v : Server) (turn : Turn) : (v.step turn).config = v.config := by
  cases turn with
  | greet now id previous =>
    show (v.resolve now id previous).2.config = v.config
    rcases v.resolve_cases now id previous with ⟨n, hr, -⟩ | hr | hr <;> rw [hr] <;> rfl
  | act i m input =>
    simp only [Server.step]
    split <;> rfl
  | remove i =>
    simp only [Server.step]
    split
    · exact (v.remove_same i).1
    · rfl

theorem config_run (v : Server) (turns : List Turn) : (v.run turns).config = v.config := by
  induction turns generalizing v with
  | nil => rfl
  | cons turn turns ih => exact (ih (v.step turn)).trans (v.config_step turn)

/-- **The sessions of a server**, whatever first handshakes, ends of sessions and removals come, in
any order:

- a session that is alive is the only one with its id, and found under it;
- a first handshake is for the session that is alive under its id, if there is one, and changes
  nothing; otherwise it is refused and leaves the sessions as they are if the client says that it
  completed handshakes before, and creates one if it did not, which does not fail;
- a listener is asked for when a session is created, and at no other time, so once for each in the
  order of their creation, and an older session with the same id is over;
- a removal happens once, and never takes away a session that is alive;
- when every session that is over was removed, those found are exactly those alive. -/
theorem one_session_per_id {config : Config} {v₀ : Server} (hv₀ : Server.create config = .ok v₀)
    (turns : List Turn) :
    let v := v₀.run turns
    (∀ id i, v.Lives id i → v.find? id = some i ∧ ∀ j, v.Lives id j → j = i) ∧
    (∀ now id previous, let r := v.resolve now id previous
      (∀ i, v.Lives id i → r = (.known i, v)) ∧
      ((∀ i, ¬ v.Lives id i) → previous ≠ 0 →
        r.1 = .unknown ∧ r.2.hosted = v.hosted ∧ r.2.listeners = v.listeners) ∧
      ((∀ i, ¬ v.Lives id i) → previous = 0 →
        r.1 = .created v.hosted.size ∧ ∃ s, Session.create .server id config now = .ok s ∧
          r.2.hosted = v.hosted.push s ∧ r.2.listeners = v.listeners ++ [id])) ∧
    ((∀ i m input, (v.step (.act i m input)).listeners = v.listeners) ∧
      (∀ i, (v.step (.remove i)).listeners = v.listeners) ∧
      v.listeners = v.hosted.toList.map (·.id) ∧
      ∀ i j : Nat, i < j → ∀ s ∈ v.hosted[i]?, ∀ t ∈ v.hosted[j]?, s.id = t.id →
        s.terminated = true) ∧
    (∀ i, let v' := v.step (.remove i)
      (v.Ended i → i ∉ v'.removals) ∧
        ∀ id k, v.Lives id k → v'.Lives id k ∧ v'.find? id = some k) ∧
    ((∀ i ∈ v.removals, ¬ v.Ended i) → ∀ id i, v.find? id = some i ↔ v.Lives id i) := by
  intro v
  have hv : v.Orderly := (Orderly.create hv₀).run turns
  have hconfig : v.config = config := (v₀.config_run turns).trans (congrArg _ (eq_of_create hv₀))
  refine ⟨fun id i hi => ⟨hv.find?_of_lives hi, fun j hj => hv.lives_unique hj hi⟩,
    fun now id previous => ⟨fun i hi => hv.resolve_of_lives hi now previous, ?refused, ?created⟩,
    ⟨v.listeners_act, fun i => (v.step_remove_same i).2, hv.listeners, hv.older⟩,
    fun i => ⟨hv.not_mem_removals, fun id k hk => ?removed⟩,
    fun hremoved id i => ⟨fun hi => ?found, fun hi => hv.find?_of_lives hi⟩⟩
  case refused =>
    intro hi hprevious
    simp only [hv.resolve_of_not_lives hi, if_pos hprevious]
    exact ⟨trivial, rfl, rfl⟩
  case created =>
    intro hi hprevious
    simp only [hv.resolve_of_not_lives hi, if_neg (not_not.mpr hprevious)]
    refine ⟨trivial, .start .server id config now, ?_, ?_, rfl⟩
    · unfold Session.create
      rw [← hconfig, hv.config]
    · rw [← hconfig]
      rfl
  case removed =>
    have hk' : (v.step (.remove i)).Lives id k := by
      unfold Server.Lives
      rw [(v.step_remove_same i).1]
      exact hk
    exact ⟨hk', (hv.step (.remove i)).find?_of_lives hk'⟩
  case found =>
    have hmem := (find?_eq_some_iff hv.keys).mp hi
    exact hv.lives_of_find? hi (hremoved i (hv.owed id i hmem))

/-- A session ends, and another one is created under its id before it is removed. A client that
never had that id is refused another one. -/
def succession (m : Moment) : List Turn :=
  [.greet 3 (.ofNat 7) 0, .act 0 m .close, .greet 4 (.ofNat 7) 0, .greet 4 (.ofNat 8) (-1)]

/-- The removal comes late, and takes nothing away: the second session is found, and is all that
is found when it took place. -/
theorem one_session_per_id_succession :
    let m : Moment := ⟨3, fun _ _ => true⟩
    let v := Server.run { config := {} } (succession m)
    let late := v.step (.remove 0)
    v.removals = [0, 1] ∧ v.Ended 0 ∧ v.listeners = [.ofNat 7, .ofNat 7] ∧
      late.find? (.ofNat 7) = some 1 ∧
      ∀ id i, late.find? id = some i ↔ late.Lives id i := by
  intro m v late
  have hcreate : Server.create {} = .ok { config := {} } := rfl
  have hlives : v.Lives (.ofNat 7) 1 := by decide +kernel
  obtain ⟨-, -, -, hremove, -⟩ := one_session_per_id hcreate (succession m)
  have hlate : late = Server.run { config := {} } (succession m ++ [.remove 0]) := by
    simp [late, v, Server.run, List.foldl_append]
  have hexact := (one_session_per_id hcreate (succession m ++ [.remove 0])).2.2.2.2
  rw [← hlate] at hexact
  refine ⟨by decide +kernel, by decide +kernel, by decide +kernel,
    ((hremove 0).2 _ _ hlives).2, hexact (by decide +kernel)⟩

end Server

end Net

end Tether
