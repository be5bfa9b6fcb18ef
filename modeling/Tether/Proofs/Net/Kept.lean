import Mathlib.Data.Nat.Count
import Tether.Proofs.Net.Directory
import Tether.Proofs.Net.Steps

/-!
# Some sessions of a server

Of the sessions that a server created some are kept and the others left out (`Server.part`), and
what is kept moves up to the places that become free (`place`). If all that the directory has
under one id is kept and nothing else (`Server.Serves`), then a first handshake or a removal for
that id leads to the same in the part, and one for another id does not show there.
-/

namespace Tether.Net

/-! ### Arrays with places left out -/

section pick

variable {α β : Type} {keep : Nat → Bool} {i j : Nat}

/-- The place at which what is kept stands when the rest is left out. -/
def place (keep : Nat → Bool) (i : Nat) : Nat := Nat.count (fun k => keep k = true) i

/-- What a list has at the places that are kept. -/
def pickList (keep : Nat → Bool) : List α → List α
  | [] => []
  | a :: l =>
    if keep 0 then a :: pickList (fun k => keep (k + 1)) l else pickList (fun k => keep (k + 1)) l

/-- What an array has at the places that are kept. -/
def pick (keep : Nat → Bool) (a : Array α) : Array α := (pickList keep a.toList).toArray

theorem place_succ (keep : Nat → Bool) (i : Nat) :
    place keep (i + 1) = place (fun k => keep (k + 1)) i + if keep 0 then 1 else 0 :=
  Nat.count_succ' ..

/-- No two things that are kept come to the same place. -/
theorem place_inj (hi : keep i) (hj : keep j) : place keep i = place keep j ↔ i = j := by
  constructor
  · intro h
    exact Nat.count_injective hi hj h
  · rintro rfl
    rfl

theorem length_pickList (keep : Nat → Bool) (l : List α) :
    (pickList keep l).length = place keep l.length := by
  induction l generalizing keep with
  | nil => rfl
  | cons a l ih =>
    rw [pickList, List.length_cons, place_succ]
    split
    · rw [List.length_cons, ih]
    · rw [ih, add_zero]

theorem pickList_getElem? (h : keep i) (l : List α) : (pickList keep l)[place keep i]? = l[i]? := by
  induction l generalizing keep i with
  | nil => rfl
  | cons a l ih =>
    cases i with
    | zero => simp [pickList, h, place]
    | succ i =>
      rw [pickList, place_succ]
      by_cases h0 : keep 0 = true
      · simp only [h0, if_true, List.getElem?_cons_succ]
        exact ih h
      · simp only [h0, List.getElem?_cons_succ]
        exact ih h

theorem pickList_concat (keep : Nat → Bool) (l : List α) (a : α) :
    pickList keep (l ++ [a]) = pickList keep l ++ if keep l.length then [a] else [] := by
  induction l generalizing keep with
  | nil => simp [pickList]
  | cons b l ih =>
    rw [List.cons_append, pickList, pickList, ih, List.length_cons]
    split
    · rw [List.cons_append]
    · rfl

theorem pickList_map (keep : Nat → Bool) (l : List α) (f : α → β) :
    pickList keep (l.map f) = (pickList keep l).map f := by
  induction l generalizing keep with
  | nil => rfl
  | cons a l ih =>
    rw [List.map_cons, pickList, pickList, ih]
    split
    · rw [List.map_cons]
    · rfl

/-- Whatever is left was kept. -/
theorem exists_of_pickList_getElem? {k : Nat} {l : List α} {a : α}
    (h : (pickList keep l)[k]? = some a) : ∃ i, keep i ∧ k = place keep i ∧ l[i]? = some a := by
  induction l generalizing keep k with
  | nil => cases h
  | cons b l ih =>
    rw [pickList] at h
    split at h
    · next h0 =>
      cases k with
      | zero => exact ⟨0, h0, rfl, h⟩
      | succ k =>
        obtain ⟨i, hi, rfl, hl⟩ := ih h
        exact ⟨i + 1, hi, by rw [place_succ, if_pos h0], hl⟩
    · next h0 =>
      obtain ⟨i, hi, rfl, hl⟩ := ih h
      exact ⟨i + 1, hi, by rw [place_succ, if_neg h0, add_zero], hl⟩

theorem pickList_modify (keep : Nat → Bool) (l : List α) (i : Nat) (f : α → α) :
    pickList keep (l.modify i f) =
      if keep i then (pickList keep l).modify (place keep i) f else pickList keep l := by
  induction l generalizing keep i with
  | nil => simp [pickList]
  | cons a l ih =>
    cases i with
    | zero =>
      rw [List.modify_zero_cons, pickList, pickList]
      by_cases h0 : keep 0 = true
      · simp [h0, place]
      · simp [h0]
    | succ i =>
      rw [List.modify_succ_cons, pickList, pickList, ih, place_succ]
      by_cases h0 : keep 0 = true
      · simp only [h0, if_true, List.modify_succ_cons]
        split <;> rfl
      · simp only [h0]
        rfl

@[simp] theorem size_pick (keep : Nat → Bool) (a : Array α) :
    (pick keep a).size = place keep a.size := by
  simp [pick, length_pickList]

theorem pick_getElem? (h : keep i) (a : Array α) : (pick keep a)[place keep i]? = a[i]? := by
  simp [pick, pickList_getElem? h]

theorem pick_push (keep : Nat → Bool) (a : Array α) (x : α) :
    pick keep (a.push x) = if keep a.size then (pick keep a).push x else pick keep a := by
  simp only [pick, Array.toList_push, pickList_concat, Array.length_toList]
  split <;> simp

theorem pick_map (keep : Nat → Bool) (a : Array α) (f : α → β) :
    pick keep (a.map f) = (pick keep a).map f := by
  simp [pick, pickList_map]

theorem exists_of_pick_getElem? {k : Nat} {a : Array α} {x : α} (h : (pick keep a)[k]? = some x) :
    ∃ i, keep i ∧ k = place keep i ∧ a[i]? = some x := by
  have hlist : (pickList keep a.toList)[k]? = some x := by simpa [pick] using h
  simpa using exists_of_pickList_getElem? hlist

theorem mem_pick {a : Array α} {x : α} : x ∈ pick keep a ↔ ∃ i, keep i ∧ a[i]? = some x := by
  constructor
  · intro hx
    obtain ⟨k, hk⟩ := Array.mem_iff_getElem?.mp hx
    obtain ⟨i, hi, -, ha⟩ := exists_of_pick_getElem? hk
    exact ⟨i, hi, ha⟩
  · rintro ⟨i, hi, ha⟩
    rw [← pick_getElem? hi] at ha
    exact Array.mem_of_getElem? ha

theorem pick_modify (keep : Nat → Bool) (a : Array α) (i : Nat) (f : α → α) :
    pick keep (a.modify i f) =
      if keep i then (pick keep a).modify (place keep i) f else pick keep a := by
  simp only [pick, Array.toList_modify, pickList_modify]
  split <;> simp

theorem pick_setIfInBounds (keep : Nat → Bool) (a : Array α) (i : Nat) (x : α) :
    pick keep (a.setIfInBounds i x) =
      if keep i then (pick keep a).setIfInBounds (place keep i) x else pick keep a := by
  simp only [pick, Array.toList_setIfInBounds, List.set_eq_modify, pickList_modify]
  split <;> simp [← List.set_eq_modify]

end pick

/-! ### Connections -/

section renumber

variable {mine : Nat → Bool} {o o' : Owner} {e : Effect} {c : ConnectionId} {w : Wire} {side : Side}

/-- The owner's session is kept. -/
def Owner.kept (mine : Nat → Bool) : Owner → Bool
  | .client => true
  | .server j => mine j

/-- An owner whose session is kept has it at another place. -/
def Owner.renumber (mine : Nat → Bool) : Owner → Owner
  | .client => .client
  | .server j => .server (place mine j)

def Stage.renumber (mine : Nat → Bool) : Stage → Stage
  | .bound o c n => .bound (o.renumber mine) c n
  | .outside => .outside
  | .greeting deadline => .greeting deadline
  | .done => .done

def Socket.renumber (mine : Nat → Bool) (s : Socket) : Socket :=
  { s with stage := s.stage.renumber mine }

def Wire.renumber (mine : Nat → Bool) (w : Wire) : Wire :=
  { w with dialer := w.dialer.renumber mine, acceptor := w.acceptor.renumber mine }

theorem Owner.renumber_inj (ho : o.kept mine) (ho' : o'.kept mine) :
    o.renumber mine = o'.renumber mine ↔ o = o' := by
  cases o with
  | client => cases o' <;> simp [renumber]
  | server j =>
    cases o' with
    | client => simp [renumber]
    | server j' =>
      simp only [renumber, Owner.server.injEq]
      exact place_inj ho ho'

namespace Wire

/-- The sessions that run over a connection are kept if `b`, and are not otherwise. -/
def Concerns (mine : Nat → Bool) (b : Bool) (w : Wire) : Prop :=
  ∀ side o c n, (w.socket side).stage = .bound o c n → o.kept mine = b

/-- A session runs over one end from now on. -/
def assign (o : Owner) (c : ConnectionId) (n : Nat) (side : Side) (w : Wire) : Wire :=
  w.setSocket { w.socket side with stage := .bound o c n } side

@[simp] theorem renumber_socket (w : Wire) (side : Side) :
    (w.renumber mine).socket side = (w.socket side).renumber mine := by
  cases side <;> rfl

@[simp] theorem renumber_inbound (w : Wire) (side : Side) :
    (w.renumber mine).inbound side = w.inbound side := by
  cases side <;> rfl

@[simp] theorem renumber_setInbound (w : Wire) (p : Pipe) (side : Side) :
    (w.setInbound p side).renumber mine = (w.renumber mine).setInbound p side := by
  cases side <;> rfl

@[simp] theorem renumber_write (w : Wire) (side : Side) (bs : Bytes) :
    (w.write side bs).renumber mine = (w.renumber mine).write side bs := by
  cases side <;> rfl

@[simp] theorem renumber_shut (w : Wire) (side : Side) :
    (w.shut side).renumber mine = (w.renumber mine).shut side := by
  cases side <;> rfl

@[simp] theorem renumber_finish (w : Wire) (side : Side) :
    (w.finish side).renumber mine = (w.renumber mine).finish side := by
  cases side <;> rfl

@[simp] theorem renumber_close (w : Wire) (side : Side) (forced : Bool) :
    (w.close side forced).renumber mine = (w.renumber mine).close side forced := by
  cases side <;> rfl

theorem Concerns.of_stage {b : Bool} {w' : Wire} (h : w.Concerns mine b)
    (hs : ∀ side, (w'.socket side).stage = (w.socket side).stage) : w'.Concerns mine b := by
  intro side o c n hb
  exact h side o c n ((hs side).symm.trans hb)

/-- A session that is kept runs over what is kept, and nowhere else. -/
theorem bound_renumber (h : w.Concerns mine true) (ho : o.kept mine) :
    (w.renumber mine).Bound side (o.renumber mine) c ↔ w.Bound side o c := by
  unfold Bound
  rw [renumber_socket]
  unfold Socket.renumber
  cases hs : (w.socket side).stage with
  | outside => simp [Stage.renumber]
  | greeting deadline => simp [Stage.renumber]
  | done => simp [Stage.renumber]
  | bound o' c' n =>
    simp [Stage.renumber, Owner.renumber_inj (h side o' c' n hs) ho]

theorem Concerns.not_bound {b : Bool} (h : w.Concerns mine b) (ho : o.kept mine ≠ b) :
    ¬ w.Bound side o c := by
  rintro ⟨n, hb⟩
  exact ho (h side o c n hb)

theorem applyAt_renumber (h : w.Concerns mine true) (ho : o.kept mine) :
    (applyAt o e w side).renumber mine =
      applyAt (o.renumber mine) e (w.renumber mine) side := by
  unfold applyAt
  split
  · simp only [bound_renumber h ho]
    split
    · exact renumber_write ..
    · rfl
  · simp only [bound_renumber h ho]
    split
    · exact renumber_close ..
    · rfl
  · rfl

theorem apply_renumber (h : w.Concerns mine true) (ho : o.kept mine) :
    (apply o e w).renumber mine = apply (o.renumber mine) e (w.renumber mine) := by
  have h' : (applyAt o e w .dialer).Concerns mine true := h.of_stage (applyAt_stage e .dialer)
  rw [apply, apply, applyAt_renumber h' ho, applyAt_renumber h ho]

/-- A session does nothing to a connection that it does not run over. -/
theorem applyAt_of_not_bound (h : ∀ c, ¬ w.Bound side o c) : applyAt o e w side = w := by
  unfold applyAt
  split
  · exact if_neg (h _)
  · exact if_neg (h _)
  · rfl

theorem Concerns.apply_eq {b : Bool} (h : w.Concerns mine b) (ho : o.kept mine ≠ b) :
    apply o e w = w := by
  have hnot (side : Side) : ∀ c, ¬ w.Bound side o c := fun c => h.not_bound ho
  rw [apply, applyAt_of_not_bound (hnot .dialer), applyAt_of_not_bound (hnot .acceptor)]

theorem takesAt_renumber (h : w.Concerns mine true) (ho : o.kept mine) :
    (w.renumber mine).takesAt (o.renumber mine) c side = w.takesAt o c side := by
  unfold takesAt
  simp only [bound_renumber h ho, renumber_socket]
  rfl

theorem takes_renumber (h : w.Concerns mine true) (ho : o.kept mine) :
    (w.renumber mine).takes (o.renumber mine) c = w.takes o c := by
  simp only [takes, takesAt_renumber h ho]

theorem Concerns.takes_eq {b : Bool} (h : w.Concerns mine b) (ho : o.kept mine ≠ b) :
    w.takes o c = false := by
  simp [takes, takesAt, h.not_bound ho]

end Wire

end renumber

/-! ### Servers -/

/-- A session that is kept is at another place. -/
def Admission.renumber (mine : Nat → Bool) : Admission → Admission
  | .known j => .known (place mine j)
  | .created j => .created (place mine j)
  | .unknown => .unknown

/-- The session that a first handshake is for. -/
def Admission.session? : Admission → Option Nat
  | .known j | .created j => some j
  | .unknown => none

namespace Server

variable {mine : Nat → Bool} {v : Server} {y id : SessionId} {j now : Nat} {previous : Int}

/-- A server with some of its sessions. -/
def part (mine : Nat → Bool) (v : Server) : Server where
  config := v.config
  hosted := pick mine v.hosted
  directory := (v.directory.filter fun entry => mine entry.2).map fun entry =>
    (entry.1, place mine entry.2)
  removals := (v.removals.filter mine).map (place mine)
  listeners := pickList mine v.listeners

/-- What is found under one id is kept, and nothing else. -/
def Serves (mine : Nat → Bool) (y : SessionId) (v : Server) : Prop :=
  ∀ id j, (id, j) ∈ v.directory → (mine j = true ↔ id = y)

theorem part_hosted (hj : mine j) : (v.part mine).hosted[place mine j]? = v.hosted[j]? :=
  pick_getElem? hj v.hosted

theorem part_ended (hj : mine j) : (v.part mine).Ended (place mine j) ↔ v.Ended j := by
  unfold Ended
  rw [part_hosted hj]

theorem Serves.mine_of_find? (h : v.Serves mine y) (hj : v.find? y = some j) : mine j := by
  obtain ⟨l, l', hl, -⟩ := List.lookup_eq_some_iff.mp hj
  have hmem : (y, j) ∈ v.directory := hl ▸ List.mem_append_right l List.mem_cons_self
  exact (h y j hmem).mpr rfl

theorem Serves.part_find? (h : v.Serves mine y) :
    (v.part mine).find? y = (v.find? y).map (place mine) := by
  have hlookup : ∀ l : List (SessionId × Nat), (∀ id j, (id, j) ∈ l → (mine j = true ↔ id = y)) →
      ((l.filter fun entry => mine entry.2).map fun entry => (entry.1, place mine entry.2)).lookup y =
        (l.lookup y).map (place mine) := by
    intro l
    induction l with
    | nil => exact fun _ => rfl
    | cons entry l ih =>
      obtain ⟨id, j⟩ := entry
      intro hl
      have hentry := hl id j List.mem_cons_self
      have ih := ih fun id j hmem => hl id j (List.mem_cons_of_mem _ hmem)
      by_cases hid : id = y
      · subst hid
        simp [hentry.mpr rfl]
      · have hj : mine j = false := by simpa [hid] using hentry
        have hne : (y == id) = false := beq_eq_false_iff_ne.mpr (Ne.symm hid)
        simp [hj, List.lookup_cons, hne, ih]
  exact hlookup v.directory h

theorem part_forget (v : Server) (id : SessionId) :
    (v.forget id).part mine = (v.part mine).forget id := by
  simp only [part, forget, List.filter_map, List.filter_filter, Function.comp_def, Bool.and_comm]

theorem Serves.part_forget_of_ne (h : v.Serves mine y) (hid : id ≠ y) :
    (v.forget id).part mine = v.part mine := by
  have hfilter : (v.directory.filter (·.1 ≠ id)).filter (fun entry => mine entry.2) =
      v.directory.filter fun entry => mine entry.2 := by
    rw [List.filter_filter]
    refine List.filter_congr fun entry hentry => ?_
    have hserves := h entry.1 entry.2 hentry
    cases hmine : mine entry.2 with
    | false => rfl
    | true =>
      have hne : entry.1 ≠ id := fun heq => hid (heq ▸ hserves.mp hmine)
      simpa using hne
  simp only [part, forget, hfilter]

theorem part_host (hlisteners : v.listeners.length = v.hosted.size) (hsize : mine v.hosted.size)
    (now : Nat) (id : SessionId) :
    (v.part mine).host now id = (place mine v.hosted.size, (v.host now id).2.part mine) := by
  simp [part, host, pick_push, pickList_concat, hlisteners, hsize]

theorem part_host_of_not (hlisteners : v.listeners.length = v.hosted.size)
    (hsize : mine v.hosted.size = false) (now : Nat) (id : SessionId) :
    (v.host now id).2.part mine = v.part mine := by
  simp [part, host, pick_push, pickList_concat, hlisteners, hsize]

/-- **A first handshake for what is kept** leads to the same in the part. -/
theorem Serves.part_resolve (h : v.Serves mine y)
    (hlisteners : v.listeners.length = v.hosted.size) (now : Nat) (previous : Int)
    (hmine : ∀ j ∈ (v.resolve now y previous).1.session?, mine j = true) :
    (v.part mine).resolve now y previous =
      ((v.resolve now y previous).1.renumber mine, (v.resolve now y previous).2.part mine) := by
  have hfound : ((v.part mine).find? y).filter (fun j => ¬ (v.part mine).Ended j) =
      ((v.find? y).filter fun j => ¬ v.Ended j).map (place mine) := by
    rw [h.part_find?]
    cases hj : v.find? y with
    | none => rfl
    | some j =>
      have hended := part_ended (v := v) (h.mine_of_find? hj)
      by_cases he : v.Ended j
      · simp [Option.filter, he, hended.mpr he]
      · simp [Option.filter, he, mt hended.mp he]
  unfold resolve at hmine ⊢
  rw [hfound]
  cases hj : (v.find? y).filter fun j => ¬ v.Ended j with
  | some j => rfl
  | none =>
    simp only [hj, Option.map_none, ← part_forget] at hmine ⊢
    by_cases hprevious : previous = 0
    · simp only [hprevious, ne_eq, not_true, if_false] at hmine ⊢
      have hsize : mine (v.forget y).hosted.size := hmine _ rfl
      rw [part_host (v := v.forget y) hlisteners hsize now y]
      rfl
    · simp only [ne_eq, hprevious, not_false_eq_true, if_true]
      rfl

/-- A first handshake for anything else does not show there. -/
theorem Serves.part_resolve_of_ne (h : v.Serves mine y) (hid : id ≠ y)
    (hlisteners : v.listeners.length = v.hosted.size) (now : Nat) (previous : Int)
    (hmine : ∀ j ∈ (v.resolve now id previous).1.session?, mine j = false) :
    (v.resolve now id previous).2.part mine = v.part mine := by
  rcases v.resolve_cases now id previous with ⟨n, hr, -⟩ | hr | hr
  · rw [hr]
  · rw [hr]
    exact h.part_forget_of_ne hid
  · rw [hr] at hmine ⊢
    have hsize : mine (v.forget id).hosted.size = false := hmine _ rfl
    have hhost := part_host_of_not (v := v.forget id) hlisteners hsize now id
    exact hhost.trans (h.part_forget_of_ne hid)

/-- A first handshake is for a session with its id. -/
theorem Orderly.session_resolve (h : v.Orderly) (now : Nat) (id : SessionId) (previous : Int) :
    ∀ j ∈ (v.resolve now id previous).1.session?,
      ∃ s ∈ (v.resolve now id previous).2.hosted[j]?, s.id = id := by
  by_cases hi : ∃ i, v.Lives id i
  · obtain ⟨i, s, hs, hid, halive⟩ := hi
    rw [h.resolve_of_lives ⟨s, hs, hid, halive⟩]
    rintro j ⟨⟩
    exact ⟨s, hs, hid⟩
  · rw [h.resolve_of_not_lives (not_exists.mp hi)]
    split
    · rintro j ⟨⟩
    · rintro j ⟨⟩
      exact ⟨.start .server id v.config now, by simp [Server.host, Server.forget], rfl⟩

/-! ### Removals -/

theorem mem_part_removals (hj : mine j) :
    place mine j ∈ (v.part mine).removals ↔ j ∈ v.removals := by
  simp only [part, List.mem_map, List.mem_filter]
  constructor
  · rintro ⟨k, ⟨hk, hmine⟩, heq⟩
    exact (place_inj hmine hj).mp heq ▸ hk
  · intro hk
    exact ⟨j, ⟨hk, hj⟩, rfl⟩

theorem map_erase (hj : mine j) (l : List Nat) :
    ((l.erase j).filter mine).map (place mine) =
      ((l.filter mine).map (place mine)).erase (place mine j) := by
  induction l with
  | nil => rfl
  | cons k l ih =>
    by_cases hkj : k = j
    · subst hkj
      simp [hj]
    · by_cases hk : mine k = true
      · have hne : place mine k ≠ place mine j := fun heq => hkj ((place_inj hk hj).mp heq)
        simp [hkj, hk, hne, ih]
      · simp [hkj, hk, ih]

theorem filter_erase (hj : mine j = false) (l : List Nat) :
    (l.erase j).filter mine = l.filter mine := by
  induction l with
  | nil => rfl
  | cons k l ih =>
    by_cases hkj : k = j
    · subst hkj
      simp [hj]
    · simp [hkj, List.filter_cons, ih]

theorem part_removed (hj : mine j) (v : Server) :
    Server.part mine { v with removals := v.removals.erase j } =
      { v.part mine with removals := (v.part mine).removals.erase (place mine j) } := by
  simp only [part, map_erase hj]

/-- **A removal of what is kept** is one in the part. -/
theorem Serves.part_remove (h : v.Serves mine y) (hj : mine j)
    (hid : ∀ s ∈ v.hosted[j]?, s.id = y) :
    (v.remove j).part mine = (v.part mine).remove (place mine j) := by
  have hs' := part_hosted (v := v) hj
  cases hs : v.hosted[j]? with
  | none =>
    rw [hs] at hs'
    unfold remove
    rw [hs, hs']
  | some s =>
    rw [hs] at hs'
    have hfound : (∃ k ∈ (v.part mine).find? s.id, (v.part mine).Ended k) ↔
        ∃ k ∈ v.find? s.id, v.Ended k := by
      rw [hid s hs, h.part_find?]
      cases hk : v.find? y with
      | none => simp
      | some k => simp [part_ended (h.mine_of_find? hk)]
    rw [remove_eq hs, remove_eq hs']
    simp only [hfound]
    split
    · split
      · rw [← part_forget]
        exact part_removed hj (v.forget s.id)
      · exact part_removed hj v
    · rfl

/-- Another removal does not show there. -/
theorem Serves.part_remove_of_not (h : v.Serves mine y) (hj : mine j = false)
    (hid : ∀ s ∈ v.hosted[j]?, s.id ≠ y) : (v.remove j).part mine = v.part mine := by
  cases hs : v.hosted[j]? with
  | none =>
    unfold remove
    rw [hs]
  | some s =>
    have hremoved (u : Server) :
        Server.part mine { u with removals := u.removals.erase j } = u.part mine := by
      simp only [part, filter_erase hj]
    rw [remove_eq hs]
    split
    · split
      · exact (hremoved (v.forget s.id)).trans (h.part_forget_of_ne (hid s hs))
      · exact hremoved v
    · rfl

end Server

end Tether.Net
