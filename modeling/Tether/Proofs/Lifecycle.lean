import Tether.Lifecycle

/-!
# What a lifecycle reports

A lifecycle hears of lost connections, handshakes, deadlines and goodbyes, in any order and any
number of times, of deadlines that were replaced long ago and of deadlines nobody set. Whatever it
hears, it makes one of five moves (`Move`, `move_tell`), and all that follows is read off them.

Main result: over any events at most one report ends the session, the numbers of the windows grow,
and a deadline is accepted exactly if it is that of a window that is still open (`exclusive`). So
a window that was reported is settled by one report at most, a connection that came in time or a
deadline that passed.
-/

namespace Tether.Lifecycle

/-! ### Events and reports -/

/-- What a lifecycle hears. -/
inductive Event where
  /-- A connection was lost. -/
  | disconnect (forced : Bool)
  /-- A handshake was completed. -/
  | connect
  /-- The deadline with a number passed. -/
  | expire (epoch : Nat)
  /-- One side said goodbye. -/
  | goodbye
  deriving DecidableEq

/-- What a lifecycle reports. -/
inductive Report where
  /-- What the loss of a connection means. -/
  | disconnected (disconnection : Disconnection)
  /-- What a completed handshake means. -/
  | connected (handshake : Handshake)
  /-- Whether the deadline ended the session. -/
  | expired (lost : Bool)
  /-- Whether the goodbye ended the session. -/
  | parted (closed : Bool)
  deriving DecidableEq

/-- What a lifecycle reports on an event, and becomes. -/
def tell (l : Lifecycle) : Event → Report × Lifecycle
  | .disconnect forced => (.disconnected (l.disconnect forced).1, (l.disconnect forced).2)
  | .connect => (.connected l.connect.1, l.connect.2)
  | .expire epoch => (.expired (l.expire epoch).1, (l.expire epoch).2)
  | .goodbye => (.parted l.goodbye.1, l.goodbye.2)

/-- What a lifecycle becomes by some events. -/
def after (l : Lifecycle) : List Event → Lifecycle
  | [] => l
  | e :: events => (l.tell e).2.after events

/-- Some events, each with what is reported on it. -/
def history (l : Lifecycle) : List Event → List (Event × Report)
  | [] => []
  | e :: events => (e, (l.tell e).1) :: (l.tell e).2.history events

/-- The report says that the session is over from now on. -/
def Report.ends : Report → Bool
  | .disconnected (.lost _) => true
  | .expired lost => lost
  | .parted closed => closed
  | .disconnected _ | .connected _ => false

/-- The number of the window that is reported to open, if one is. -/
def Report.opened? : Report → Option Nat
  | .disconnected (.windowOpened epoch) => some epoch
  | _ => none

/-- The report says how a window came out: a connection came in time, or the deadline passed. -/
def Report.settles (r : Report) : Bool := r = .connected .restored ∨ r = .expired true

/-- A handshake, an intended loss, a goodbye, or a deadline that was accepted. -/
def Closes (x : Event × Report) : Prop :=
  x.1 = .connect ∨ x.1 = .disconnect true ∨ x.1 = .goodbye ∨ x.2 = .expired true

/-- The window that opened last has the number `epoch`, and nothing closed it since. -/
def Open (h : List (Event × Report)) (epoch : Nat) : Prop :=
  ∃ before x since, h = before ++ x :: since ∧ x.2.opened? = some epoch ∧
    ∀ y ∈ since, y.2.opened? = none ∧ ¬ Closes y

variable {l l' : Lifecycle} {e : Event} {x : Event × Report} {events : List Event}
  {before since : List (Event × Report)}

theorem Report.opened?_of_ends {r : Report} (h : r.ends = true) : r.opened? = none := by
  cases r with
  | disconnected d => cases d with
    | lost => rfl
    | windowOpened | ignored => cases h
  | connected | expired | parted => rfl

theorem after_append (events events' : List Event) :
    l.after (events ++ events') = (l.after events).after events' := by
  induction events generalizing l with
  | nil => rfl
  | cons e events ih => exact ih

/-! ### One event -/

/-- What one event does: a window opens, the first connection comes, a connection comes in time,
the session ends, or nothing happens. -/
inductive Move (l : Lifecycle) : Event × Report → Lifecycle → Prop
  | opens (hp : l.phase = .connected) (hr : l.reconnects = true) :
      Move l (.disconnect false, .disconnected (.windowOpened (l.epoch + 1)))
        { l with phase := .restoring, epoch := l.epoch + 1 }
  | establishes (hp : l.phase = .initial) :
      Move l (.connect, .connected .established) { l with phase := .connected }
  | restores (hp : l.phase = .restoring) :
      Move l (.connect, .connected .restored)
        { l with phase := .connected, epoch := l.epoch + 1 }
  | ends {x : Event × Report} {phase : Phase} (ho : ¬ l.Over) (hphase : phase.Final)
      (hends : x.2.ends = true) (hcloses : l.phase = .restoring → Closes x)
      (hexpired : x.2 = .expired true → l.phase = .restoring) : Move l x (l.finish phase)
  | stays {x : Event × Report} (hends : x.2.ends = false) (hopened : x.2.opened? = none)
      (hsettles : x.2.settles = false) (hcloses : l.phase = .restoring → ¬ Closes x) : Move l x l

theorem not_over_of_phase (h : l.phase = .initial ∨ l.phase = .connected ∨ l.phase = .restoring) :
    ¬ l.Over := by
  rintro (ho | ho) <;> simp [ho] at h

theorem move_disconnect (l : Lifecycle) (forced : Bool) :
    Move l (.disconnect forced, .disconnected (l.disconnect forced).1)
      (l.disconnect forced).2 := by
  unfold disconnect
  cases hp : l.phase with
  | connected =>
    have ho := not_over_of_phase (.inr (.inl hp))
    cases forced with
    | true => exact .ends ho (.inl rfl) rfl (fun _ => .inr (.inl rfl)) nofun
    | false =>
      dsimp only
      rw [if_neg nofun]
      split
      · next hr => exact .opens hp hr
      · exact .ends ho (.inl rfl) rfl (by simp [hp]) nofun
  | initial | restoring =>
    have ho : ¬ l.Over := not_over_of_phase (by simp [hp])
    cases forced with
    | true => exact .ends ho (.inl rfl) rfl (fun _ => .inr (.inl rfl)) nofun
    | false => exact .stays rfl rfl rfl (by simp [Closes])
  | lost | closed => exact .stays rfl rfl rfl (by simp [hp])

theorem move_connect (l : Lifecycle) : Move l (.connect, .connected l.connect.1) l.connect.2 := by
  unfold connect
  cases hp : l.phase with
  | initial => exact .establishes hp
  | restoring => exact .restores hp
  | connected | lost | closed => exact .stays rfl rfl rfl (by simp [hp])

theorem move_expire (l : Lifecycle) (epoch : Nat) :
    Move l (.expire epoch, .expired (l.expire epoch).1) (l.expire epoch).2 := by
  unfold expire
  split
  · next h =>
    exact .ends (not_over_of_phase (.inr (.inr h.1))) (.inl rfl) rfl
      (fun _ => .inr (.inr (.inr rfl))) fun _ => h.1
  · exact .stays rfl rfl rfl (by simp [Closes])

theorem move_goodbye (l : Lifecycle) : Move l (.goodbye, .parted l.goodbye.1) l.goodbye.2 := by
  unfold goodbye
  split
  · next ho => exact .stays rfl rfl rfl fun hp => absurd ho (not_over_of_phase (.inr (.inr hp)))
  · next ho => exact .ends ho (.inr rfl) rfl (fun _ => .inr (.inr (.inl rfl))) nofun

/-- Every event makes one of the moves. -/
theorem move_tell (l : Lifecycle) (e : Event) : Move l (e, (l.tell e).1) (l.tell e).2 := by
  cases e with
  | disconnect forced => exact move_disconnect l forced
  | connect => exact move_connect l
  | expire epoch => exact move_expire l epoch
  | goodbye => exact move_goodbye l

/-- The first event of a history makes its move, and the rest is what follows. -/
theorem move_of_cons (h : l.history events = x :: since) :
    ∃ l' events', Move l x l' ∧ l'.history events' = since ∧ l'.after events' = l.after events := by
  cases events with
  | nil => cases h
  | cons e events =>
    obtain ⟨rfl, rfl⟩ := List.cons.inj h
    exact ⟨_, events, move_tell l e, rfl, rfl⟩

/-- So does every other event. -/
theorem move_of_append (h : l.history events = before ++ x :: since) :
    ∃ m m' events', Move m x m' ∧ m'.history events' = since ∧
      m'.after events' = l.after events := by
  induction before generalizing l events with
  | nil => exact ⟨l, move_of_cons h⟩
  | cons y before ih =>
    obtain ⟨l', events', -, hrest, hafter⟩ := move_of_cons h
    rw [← hafter]
    exact ih hrest

/-- What leads to states from which it cannot come again comes once at most. -/
theorem countP_le_one {p : Event × Report → Bool} {past : Lifecycle → Prop}
    (quiet : Event × Report → Prop) (enters : ∀ {l x l'}, Move l x l' → p x = true → past l')
    (stays : ∀ {l x l'}, Move l x l' → quiet x → past l → past l' ∧ p x = false)
    (h : ∀ x ∈ l.history events, quiet x) :
    (l.history events).countP p ≤ 1 ∧ (past l → (l.history events).countP p = 0) := by
  induction events generalizing l with
  | nil => exact ⟨Nat.zero_le 1, fun _ => rfl⟩
  | cons e events ih =>
    obtain ⟨hx, hrest⟩ := List.forall_mem_cons.mp h
    obtain ⟨hone, hnone⟩ := ih hrest
    have hm := move_tell l e
    cases hp : p (e, (l.tell e).1) with
    | true =>
      rw [history, List.countP_cons_of_pos hp, hnone (enters hm hp)]
      exact ⟨Nat.le_refl 1, fun hpast => absurd hp (by simp [(stays hm hx hpast).2])⟩
    | false =>
      rw [history, List.countP_cons_of_neg (by simp [hp])]
      exact ⟨hone, fun hpast => hnone (stays hm hx hpast).1⟩

/-! ### The end -/

theorem Move.of_over (hm : Move l x l') (ho : l.Over) : l' = l ∧ x.2.ends = false := by
  cases hm with
  | opens hp => exact absurd ho (not_over_of_phase (.inr (.inl hp)))
  | establishes hp => exact absurd ho (not_over_of_phase (.inl hp))
  | restores hp => exact absurd ho (not_over_of_phase (.inr (.inr hp)))
  | ends hnot => exact absurd ho hnot
  | stays hends => exact ⟨rfl, hends⟩

theorem Move.over_of_ends (hm : Move l x l') (h : x.2.ends = true) : l'.Over := by
  cases hm with
  | ends _ hphase => exact hphase
  | opens | establishes | restores => cases h
  | stays hends => simp [h] at hends

theorem after_of_over (ho : l.Over) (events : List Event) : l.after events = l := by
  induction events with
  | nil => rfl
  | cons e events ih => rw [after, ((move_tell l e).of_over ho).1, ih]

/-- **One report at most ends the session.** -/
theorem ends_le_one (l : Lifecycle) (events : List Event) :
    (l.history events).countP (·.2.ends) ≤ 1 :=
  (countP_le_one (fun _ => True) Move.over_of_ends
    (fun hm _ ho => ⟨(hm.of_over ho).1 ▸ ho, (hm.of_over ho).2⟩) fun _ _ => trivial).1

/-! ### The numbers -/

theorem Move.epoch_le (hm : Move l x l') : l.epoch ≤ l'.epoch ∧ l'.epoch ≤ l.epoch + 1 := by
  cases hm with
  | opens | restores | ends => exact ⟨Nat.le_succ _, Nat.le_refl _⟩
  | establishes | stays => exact ⟨Nat.le_refl _, Nat.le_succ _⟩

/-- A window that opens gets the next number, and its deadline is awaited. -/
theorem Move.opened (hm : Move l x l') {epoch : Nat} (h : x.2.opened? = some epoch) :
    l.epoch < epoch ∧ l'.epoch = epoch ∧ l'.phase = .restoring ∧ l.phase = .connected ∧
      l.reconnects = true := by
  cases hm with
  | opens hp hr =>
    cases h
    exact ⟨Nat.lt_succ_self _, rfl, rfl, hp, hr⟩
  | establishes | restores => cases h
  | ends _ _ hends => simp [Report.opened?_of_ends hends] at h
  | stays _ hopened => simp [hopened] at h

theorem Move.reconnects (hm : Move l x l') : l'.reconnects = l.reconnects := by
  cases hm with
  | opens | establishes | restores | ends | stays => rfl

theorem epoch_after_le (l : Lifecycle) (events : List Event) :
    (l.after events).epoch ≤ l.epoch + events.length := by
  induction events generalizing l with
  | nil => exact Nat.le_refl _
  | cons e events ih =>
    have h := (move_tell l e).epoch_le.2
    have h' := ih (l.tell e).2
    simp only [after, List.length_cons]
    omega

theorem opened_gt (l : Lifecycle) (events : List Event) :
    ∀ epoch ∈ (l.history events).filterMap (·.2.opened?), l.epoch < epoch := by
  induction events generalizing l with
  | nil => simp [history]
  | cons e events ih =>
    have hm := move_tell l e
    intro epoch h
    obtain ⟨x, hx, hopened⟩ := List.mem_filterMap.mp h
    obtain rfl | hx := List.mem_cons.mp hx
    · exact (hm.opened hopened).1
    · exact Nat.lt_of_le_of_lt hm.epoch_le.1 (ih _ _ (List.mem_filterMap.mpr ⟨x, hx, hopened⟩))

/-- **The numbers of the windows grow.** -/
theorem opened_pairwise (l : Lifecycle) (events : List Event) :
    ((l.history events).filterMap (·.2.opened?)).Pairwise (· < ·) := by
  induction events generalizing l with
  | nil => exact .nil
  | cons e events ih =>
    rw [history, List.filterMap_cons]
    split
    · exact ih _
    · next epoch h =>
      refine .cons ?_ (ih _)
      rw [← ((move_tell l e).opened h).2.1]
      exact opened_gt _ events

theorem opened_of_not_reconnects (hr : l.reconnects = false) (events : List Event) :
    ∀ x ∈ l.history events, x.2.opened? = none := by
  induction events generalizing l with
  | nil => nofun
  | cons e events ih =>
    have hm := move_tell l e
    intro x hx
    obtain rfl | hx := List.mem_cons.mp hx
    · rw [Option.eq_none_iff_forall_ne_some]
      intro epoch h
      exact absurd (hm.opened h).2.2.2.2 (by simp [hr])
    · exact ih (hm.reconnects.trans hr) x hx

/-! ### One window -/

theorem Move.without_connection (hm : Move l x l') (hp : l.phase = .restoring ∨ l.Over)
    (hx : x.2 ≠ .connected .restored) : l'.phase = .restoring ∨ l'.Over := by
  cases hm with
  | opens => exact .inl rfl
  | establishes hinitial =>
    obtain hp | ho := hp
    · simp [hp] at hinitial
    · exact absurd ho (not_over_of_phase (.inl hinitial))
  | restores => exact absurd rfl hx
  | ends _ hphase => exact .inr hphase
  | stays => exact hp

/-- Without a connection, a window opens only after a connection came in time. -/
theorem exists_restored {y : Event × Report} (hp : l.phase = .restoring ∨ l.Over)
    (h : l.history events = before ++ y :: since) (hy : y.2.opened?.isSome = true) :
    ∃ z ∈ before, z.2 = .connected .restored := by
  induction before generalizing l events with
  | nil =>
    obtain ⟨l', events', hm, -⟩ := move_of_cons h
    obtain ⟨epoch, hy⟩ := Option.isSome_iff_exists.mp hy
    have hconnected := (hm.opened hy).2.2.2.1
    obtain hp | ho := hp
    · simp [hp] at hconnected
    · exact absurd ho (not_over_of_phase (.inr (.inl hconnected)))
  | cons z before ih =>
    obtain ⟨l', events', hm, hrest, -⟩ := move_of_cons h
    by_cases hz : z.2 = .connected .restored
    · exact ⟨z, List.mem_cons_self, hz⟩
    · obtain ⟨w, hw, hrestored⟩ := ih (hm.without_connection hp hz) hrest
      exact ⟨w, List.mem_cons_of_mem _ hw, hrestored⟩

/-- Outside a window nothing settles one, and only a report of a window opens one. -/
theorem Move.outside (hm : Move l x l') (hp : l.phase ≠ .restoring) (hx : x.2.opened? = none) :
    l'.phase ≠ .restoring ∧ x.2.settles = false := by
  cases hm with
  | opens => cases hx
  | establishes => exact ⟨nofun, rfl⟩
  | restores hrestoring => exact absurd hrestoring hp
  | ends _ hphase hends _ hexpired =>
    refine ⟨by obtain rfl | rfl := hphase <;> nofun, ?_⟩
    have hrestored : x.2 ≠ .connected .restored := fun h => by simp [h, Report.ends] at hends
    have hexpired' : x.2 ≠ .expired true := fun h => hp (hexpired h)
    simp [Report.settles, hrestored, hexpired']
  | stays _ _ hsettles => exact ⟨hp, hsettles⟩

/-- What settles a window leaves it. -/
theorem Move.leaves (hm : Move l x l') (h : x.2.settles = true) : l'.phase ≠ .restoring := by
  cases hm with
  | opens | establishes => cases h
  | restores => nofun
  | ends _ hphase => obtain rfl | rfl := hphase <;> nofun
  | stays _ _ hsettles => simp [hsettles] at h

/-- **A window is settled by one report at most.** -/
theorem settles_le_one (h : ∀ x ∈ l.history events, x.2.opened? = none) :
    (l.history events).countP (·.2.settles) ≤ 1 :=
  (countP_le_one (·.2.opened? = none) Move.leaves (fun hm hx hp => hm.outside hp hx) h).1

/-! ### The deadlines -/

theorem tell_expire_iff {epoch : Nat} :
    (l.tell (.expire epoch)).1 = .expired true ↔ l.phase = .restoring ∧ epoch = l.epoch := by
  simp only [tell, expire]
  split
  · next h => simp [h]
  · next h => simp [h]

/-- A window stays open as long as nothing closes it. -/
theorem Move.keeps_open (hm : Move l x l') (hp : l.phase = .restoring)
    (hx : x.2.opened? = none ∧ ¬ Closes x) : l' = l := by
  cases hm with
  | opens | establishes | restores => simp [Closes, Report.opened?] at hx
  | ends _ _ _ hcloses => exact absurd (hcloses hp) hx.2
  | stays => rfl

/-- A window that is open was opened just now, or was open before. -/
theorem Move.open_since (hm : Move l x l') (hp : l'.phase = .restoring) :
    x.2.opened? = some l'.epoch ∨ l' = l ∧ x.2.opened? = none ∧ ¬ Closes x := by
  cases hm with
  | opens => exact .inl rfl
  | establishes | restores => cases hp
  | ends _ hphase => obtain rfl | rfl := hphase <;> cases hp
  | stays _ hopened _ hcloses => exact .inr ⟨rfl, hopened, hcloses hp⟩

theorem after_of_open (hp : l.phase = .restoring)
    (h : ∀ x ∈ l.history events, x.2.opened? = none ∧ ¬ Closes x) : l.after events = l := by
  induction events with
  | nil => rfl
  | cons e events ih =>
    obtain ⟨hx, hrest⟩ := List.forall_mem_cons.mp h
    rw [(move_tell l e).keeps_open hp hx] at hrest
    rw [after, (move_tell l e).keeps_open hp hx, ih hrest]

/-- A window that is open in the end was opened among the events, and nothing closed it since, or
it was open in the beginning. -/
theorem open_or_of_after (hp : (l.after events).phase = .restoring) :
    Open (l.history events) (l.after events).epoch ∨ l.phase = .restoring ∧
      l.after events = l ∧ ∀ x ∈ l.history events, x.2.opened? = none ∧ ¬ Closes x := by
  induction events generalizing l with
  | nil => exact .inr ⟨hp, rfl, nofun⟩
  | cons e events ih =>
    obtain ⟨before, x, since, hrest, hopen⟩ | ⟨hp', hafter, hquiet⟩ := ih hp
    · exact .inl ⟨_ :: before, x, since, congrArg _ hrest, hopen⟩
    · obtain hopened | ⟨hl, hx⟩ := (move_tell l e).open_since hp'
      · exact .inl ⟨[], _, _, rfl, by rw [after, hafter]; exact hopened, hquiet⟩
      · exact .inr ⟨hl ▸ hp', hafter.trans hl, List.forall_mem_cons.mpr ⟨hx, hquiet⟩⟩

/-- **A window is open exactly if it was reported and nothing closed it since.** -/
theorem open_iff (hp : l.phase ≠ .restoring) {epoch : Nat} :
    Open (l.history events) epoch ↔
      (l.after events).phase = .restoring ∧ epoch = (l.after events).epoch := by
  constructor
  · rintro ⟨before, x, since, h, hx, hquiet⟩
    obtain ⟨m, m', events', hm, rfl, hafter⟩ := move_of_append h
    obtain ⟨-, hepoch, hopen, -⟩ := hm.opened hx
    rw [← hafter, after_of_open hopen hquiet]
    exact ⟨hopen, hepoch.symm⟩
  · rintro ⟨hopen, rfl⟩
    exact (open_or_of_after hopen).resolve_right fun h => hp h.1

/-! ### All together -/

/-- What all reports on some events have to do with each other. -/
structure Exclusive (l : Lifecycle) (events : List Event) : Prop where
  /-- One report at most ends the session. -/
  ends : (l.history events).countP (·.2.ends) ≤ 1
  /-- Nothing changes after it. -/
  final : ∀ before e since, events = before ++ e :: since →
    ((l.after before).tell e).1.ends = true → l.after events = l.after (before ++ [e])
  /-- The numbers of the windows grow, -/
  increasing : ((l.history events).filterMap (·.2.opened?)).Pairwise (· < ·)
  /-- and are no greater than the number of events. -/
  epoch_le : (l.after events).epoch ≤ events.length
  /-- Between two windows a connection came in time. -/
  restored : ∀ before x between y since,
    l.history events = before ++ x :: (between ++ y :: since) → x.2.opened?.isSome = true →
    y.2.opened?.isSome = true → ∃ z ∈ between, z.2 = .connected .restored
  /-- A deadline is accepted exactly if it is that of the last window and nothing closed it. -/
  expires : ∀ epoch, ((l.after events).tell (.expire epoch)).1 = .expired true ↔
    Open (l.history events) epoch
  /-- Until the next window opens, one report at most settles a window. -/
  settles : ∀ before x since, l.history events = before ++ x :: since →
    x.2.opened?.isSome = true → (∀ y ∈ since, y.2.opened? = none) →
    since.countP (·.2.settles) ≤ 1
  /-- If connections are not replaced, no window opens. -/
  disabled : l.reconnects = false → ∀ x ∈ l.history events, x.2.opened? = none

/-- **A session ends once, and a window is settled once**, whatever a new lifecycle hears: it
accepts the deadline of an open window only, and no other. -/
theorem exclusive (reconnects : Bool) (events : List Event) :
    Exclusive { reconnects } events where
  ends := ends_le_one _ events
  final := by
    rintro before e since rfl hends
    rw [after_append, after_append]
    exact after_of_over ((move_tell _ e).over_of_ends hends) since
  increasing := opened_pairwise _ events
  epoch_le := by simpa using epoch_after_le { reconnects } events
  restored := by
    intro before x between y since h hx hy
    obtain ⟨m, m', events', hm, hrest, -⟩ := move_of_append h
    obtain ⟨epoch, hx⟩ := Option.isSome_iff_exists.mp hx
    exact exists_restored (.inl (hm.opened hx).2.2.1) hrest hy
  expires := fun epoch => tell_expire_iff.trans (open_iff (by simp)).symm
  settles := by
    intro before x since h _ hnone
    obtain ⟨m, m', events', -, rfl, -⟩ := move_of_append h
    exact settles_le_one hnone
  disabled := fun hr => opened_of_not_reconnects hr events

/-- A second window stays open when the deadline of the first passes, and its own deadline ends the
session for good. -/
theorem exclusive_stale :
    let events : List Event := [.connect, .disconnect false, .connect, .disconnect false, .expire 1,
      .disconnect false]
    Exclusive { reconnects := true } events ∧
      (history { reconnects := true } events).filterMap (·.2.opened?) = [1, 3] ∧
      Open (history { reconnects := true } events) 3 ∧
      ((after { reconnects := true } events).tell (.expire 3)).1 = .expired true ∧
      ((after { reconnects := true } events).tell (.expire 1)).1 = .expired false ∧
      ((after { reconnects := true } (events ++ [.expire 3])).tell .goodbye).1 = .parted false := by
  intro events
  have h := exclusive true events
  exact ⟨h, rfl, (h.expires 3).mp rfl, rfl, rfl, rfl⟩

end Tether.Lifecycle
