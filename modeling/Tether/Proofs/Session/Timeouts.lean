import Tether.Proofs.Session.Shutdown
import Tether.Proofs.Session.Window

/-!
# The time for a handshake

A new connection is given some time for its handshake, and a deadline is set. Something may settle
before what becomes of it (`Session.Settles`): the handshake is completed, another connection comes,
the connection is lost, or the session ends. On a clock the connection is closed exactly at the
deadline, once, unless it was settled before (`Clocked.onTime_run`), and if it was settled the
deadline has no effect any more, whatever other connections are pending then.

Main result: all of this holds in every run (`Clocked.handshake_on_time`).
-/

namespace Tether

/-- How the effect asks a connection to close, if it does. -/
def Effect.closing? (c : ConnectionId) : Effect → Option Bool
  | close conn forced => if conn = c then some forced else none
  | transmit .. | deliver .. | notify .. | sent .. => none

namespace Session

variable {m : Moment} {s : Session} {c : ConnectionId} {p : Pending} {input : Input}
  {l rest : List (Moment × Input)} {now finish : Nat}

/-! ### What becomes of a pending connection -/

/-- There is another connection, or this one was lost. -/
def Input.Supersedes (c : ConnectionId) : Input → Prop
  | .connect => True
  | .disconnected c' _ => c' = c
  | _ => False

instance (c : ConnectionId) : (input : Input) → Decidable (input.Supersedes c)
  | .connect => inferInstanceAs (Decidable True)
  | .disconnected c' _ => inferInstanceAs (Decidable (c' = c))
  | .trySend _ | .send _ | .resume | .close | .disconnect _ | .flush | .frame _ _ | .ring _ =>
    inferInstanceAs (Decidable False)

/-- What settles what becomes of a pending connection: it completes its handshake, another one
comes, it is lost, or the session ends. -/
def Settles (m : Moment) (s : Session) (c : ConnectionId) (input : Input) : Prop :=
  (s.step m input).1.active = some c ∨ input.Supersedes c ∨ (s.step m input).1.lifecycle.Over

instance (m : Moment) (s : Session) (c : ConnectionId) (input : Input) :
    Decidable (s.Settles m c input) := inferInstanceAs (Decidable (_ ∨ _ ∨ _))

/-- It is settled in a run what becomes of a pending connection. -/
def Settled (c : ConnectionId) (s : Session) : List (Moment × Input) → Prop
  | [] => False
  | (m, input) :: rest => s.Awaits c ∧ s.Settles m c input ∨ (s.step m input).1.Settled c rest

instance decidableSettled (c : ConnectionId) :
    (s : Session) → (inputs : List (Moment × Input)) → Decidable (s.Settled c inputs)
  | _, [] => inferInstanceAs (Decidable False)
  | s, (m, input) :: rest =>
    haveI : Decidable (s.Awaits c) := decidable_of_iff _ awaits_iff
    haveI := decidableSettled c (s.step m input).1 rest
    inferInstanceAs (Decidable (s.Awaits c ∧ s.Settles m c input ∨ _))

/-- When, and how, a connection is closed because the time for a handshake is over. -/
def timeouts (c : ConnectionId) (s : Session) : List (Moment × Input) → List (Nat × Bool)
  | [] => []
  | (m, input) :: rest =>
    (match input with
      | .ring (.handshake _) => ((s.step m input).2.filterMap (Effect.closing? c)).map (m.now, ·)
      | _ => []) ++ (s.step m input).1.timeouts c rest

theorem settled_append (c : ConnectionId) (s : Session) (l l' : List (Moment × Input)) :
    s.Settled c (l ++ l') ↔ s.Settled c l ∨ (s.run l).1.Settled c l' := by
  induction l generalizing s with
  | nil => simp [Settled, run]
  | cons i l ih => simp only [List.cons_append, Settled, ih, run, or_assoc]

theorem timeouts_append (c : ConnectionId) (s : Session) (l l' : List (Moment × Input)) :
    s.timeouts c (l ++ l') = s.timeouts c l ++ (s.run l).1.timeouts c l' := by
  induction l generalizing s with
  | nil => rfl
  | cons i l ih => simp only [List.cons_append, timeouts, ih, run, List.append_assoc]

/-- The time for a handshake is over. -/
theorem step_handshake (m : Moment) (hc : s.Awaits c) :
    s.step m (.ring (.handshake c)) = ({ s with pending := none }, [.close c false]) :=
  ring_handshake m hc

/-- Nobody waits for the handshake of the connection. -/
theorem step_handshake_of_not_awaits (m : Moment) (hc : ¬ s.Awaits c) :
    s.step m (.ring (.handshake c)) = (s, []) :=
  if_neg (mt awaits_iff.mp hc)

/-- A connection is closed only by its own deadline, and only while it is pending. -/
theorem timeouts_cons (h : s.Awaits c → input ≠ .ring (.handshake c)) :
    s.timeouts c ((m, input) :: rest) = (s.step m input).1.timeouts c rest := by
  cases input with
  | ring alarm =>
    cases alarm with
    | handshake c' =>
      by_cases hc' : s.Awaits c'
      · have hne : c' ≠ c := by
          rintro rfl
          exact h hc' rfl
        simp [timeouts, step_handshake m hc', Effect.closing?, hne]
      · simp [timeouts, step_handshake_of_not_awaits m hc']
    | _ => rfl
  | _ => rfl

/-- A connection that is not pending any more never is again. -/
theorem Coherent.not_awaits_step (hs : s.Coherent) (hn : c < s.nextConnection) (hc : ¬ s.Awaits c)
    (m : Moment) (input : Input) : ¬ (s.step m input).1.Awaits c := by
  have hchange := hs.step_change m input
  rintro ⟨p, hp, rfl⟩
  change p ∈ (s.step m input).1.standing.pending at hp
  generalize (s.step m input).1.standing = st at hchange hp
  generalize Effect.news (s.step m input).2 = news at hchange
  cases hchange with
  | stay | lose => exact hc ⟨p, hp, rfl⟩
  | connect =>
    cases hp
    exact lt_irrefl _ hn
  | giveUp | complete | finish => cases hp

/-- **After that nothing becomes of it.** -/
theorem Coherent.untimed (hs : s.Coherent) (hn : c < s.nextConnection) (hc : ¬ s.Awaits c)
    (later : List (Moment × Input)) :
    ¬ (s.run later).1.Awaits c ∧ ¬ s.Settled c later ∧ s.timeouts c later = [] := by
  induction later generalizing s with
  | nil => exact ⟨hc, fun h => h, rfl⟩
  | cons i later ih =>
    obtain ⟨m, input⟩ := i
    have hn' : c < (s.step m input).1.nextConnection :=
      hn.trans_le (hs.step_change m input).nextConnection_le
    obtain ⟨hnot, hsettled, htimeouts⟩ :=
      ih (hs.step m input) hn' (hs.not_awaits_step hn hc m input)
    refine ⟨hnot, fun h => h.elim (fun h => hc h.1) hsettled, ?_⟩
    rw [timeouts_cons fun h => (hc h).elim, htimeouts]

/-- A connection that did not come yet is not closed. -/
theorem Coherent.timeouts_of_le (hs : s.Coherent) (hn : (s.run l).1.nextConnection ≤ c) :
    s.timeouts c l = [] := by
  induction l generalizing s with
  | nil => rfl
  | cons i l ih =>
    obtain ⟨m, input⟩ := i
    have hle := hs.nextConnection_le_run ((m, input) :: l)
    have hnot : ¬ s.Awaits c := fun hc => (hs.numbered_of_awaits hc).not_ge (hle.trans hn)
    rw [timeouts_cons fun h => (hnot h).elim]
    exact ih (hs.step m input) hn

/-- The deadline itself settles nothing. -/
theorem Coherent.not_settles (hs : s.Coherent) (m : Moment) (hc : s.Awaits c) :
    ¬ s.Settles m c (.ring (.handshake c)) := by
  rw [Settles, step_handshake m hc]
  obtain ⟨p, hp, rfl⟩ := hc
  rintro (ha | h | ho)
  · exact hs.not_awaits ha ⟨p, hp, rfl⟩
  · exact h
  · exact hs.not_over_of_pending hp ho

/-- **A pending connection stays what it is, or it is settled** what becomes of it, unless the time
for its handshake is over. -/
theorem Sound.step_of_pending (hs : s.Sound) (hp : s.pending = some p) (m : Moment)
    (hi : input ≠ .ring (.handshake p.conn)) :
    ((s.step m input).1.pending = some p ∧ ¬ s.Settles m p.conn input) ∨
      (¬ (s.step m input).1.Awaits p.conn ∧ s.Settles m p.conn input) := by
  have hawaits : s.Awaits p.conn := ⟨p, hp, rfl⟩
  have ho := hs.1.not_over_of_pending hp
  have hactive : s.active ≠ some p.conn := fun ha => hs.1.not_awaits ha hawaits
  by_cases hsup : input.Supersedes p.conn
  · refine .inr ⟨?_, .inr (.inl hsup)⟩
    cases input with
    | connect => exact ((opens_connect m s).1.dropped hs.1 hawaits).2.pending
    | disconnected c forced =>
      obtain rfl : c = p.conn := hsup
      exact (hs.1.dropped_disconnected m (hs.1.numbered_of_awaits hawaits) forced).pending
    | _ => exact hsup.elim
  have hchange := hs.1.step_change m input
  have hnone (h : (s.step m input).1.standing.pending = none) :
      ¬ (s.step m input).1.Awaits p.conn := not_awaits_of_none h
  -- the pending connection stays, and nothing of it is settled
  have hstays (h : (s.step m input).1.standing.pending = some p)
      (ha : (s.step m input).1.standing.active ≠ some p.conn)
      (hover : ¬ (s.step m input).1.standing.lifecycle.Over) :
      ((s.step m input).1.pending = some p ∧ ¬ s.Settles m p.conn input) :=
    ⟨h, fun hsettles => hsettles.elim ha fun h => h.elim hsup hover⟩
  have hover : (s.step m input).1.standing.lifecycle.Over → s.Settles m p.conn input :=
    fun h => .inr (.inr h)
  have hcompletes : (s.step m input).1.standing.active = some p.conn → s.Settles m p.conn input :=
    .inl
  generalize (s.step m input).1.standing = st at hchange hnone hstays hover hcompletes
  generalize Effect.news (s.step m input).2 = news at hchange
  cases hchange with
  | stay => exact .inl (hstays hp hactive ho)
  | connect hi' => exact (hsup (hi' ▸ trivial)).elim
  | giveUp p' hp' hi' =>
    cases hp.symm.trans hp'
    rcases hi' with rfl | rfl
    · exact (hsup rfl).elim
    · exact (hi rfl).elim
  | complete p' hp' =>
    cases hp.symm.trans hp'
    exact .inr ⟨hnone rfl, hcompletes rfl⟩
  | lose => exact .inl (hstays hp nofun (by simp [Lifecycle.Over, Phase.Final]))
  | finish reason => exact .inr ⟨hnone rfl, hover (Standing.over_finish _ reason)⟩

/-- **A pending connection waits for its handshake until the deadline**, and is closed then,
unless it was settled before what becomes of it. -/
inductive Punctual (p : Pending) (finish : Nat) (s : Session) (inputs : List (Moment × Input)) :
    Prop where
  /-- It still waits. -/
  | waits (hn : ¬ s.Settled p.conn inputs) (hnow : finish < p.deadline)
    (hp : (s.run inputs).1.pending = some p) (ht : s.timeouts p.conn inputs = [])
  /-- It was settled in time. -/
  | settled (h : s.Settled p.conn inputs) (hp : ¬ (s.run inputs).1.Awaits p.conn)
    (ht : s.timeouts p.conn inputs = [])
  /-- The time for its handshake is over. -/
  | late (hn : ¬ s.Settled p.conn inputs) (hnow : p.deadline ≤ finish)
    (hp : ¬ (s.run inputs).1.Awaits p.conn)
    (ht : s.timeouts p.conn inputs = [(p.deadline, false)])

/-- Once it does not wait any more, nothing becomes of it. -/
theorem Punctual.append (hs : s.Coherent) (hn : p.conn < s.nextConnection)
    (h : Punctual p now s l) (hle : now ≤ finish) {l' : List (Moment × Input)}
    (h' : (s.run l).1.pending = some p → Punctual p finish (s.run l).1 l') :
    Punctual p finish s (l ++ l') := by
  have hquiet := fun hc => (hs.later l).untimed (hn.trans_le (hs.nextConnection_le_run l)) hc l'
  have hrun := s.run_append l l'
  have hsettled := settled_append p.conn s l l'
  have htimes := timeouts_append p.conn s l l'
  cases h with
  | waits hnot hnow hp ht =>
    rw [ht, List.nil_append] at htimes
    cases h' hp with
    | waits hnot' hnow' hp' ht' =>
      exact .waits (hsettled.not.mpr (not_or.mpr ⟨hnot, hnot'⟩)) hnow' (hrun ▸ hp')
        (htimes.trans ht')
    | settled h' hp' ht' =>
      exact .settled (hsettled.mpr (.inr h')) (hrun ▸ hp') (htimes.trans ht')
    | late hnot' hnow' hp' ht' =>
      exact .late (hsettled.not.mpr (not_or.mpr ⟨hnot, hnot'⟩)) hnow' (hrun ▸ hp')
        (htimes.trans ht')
  | settled h hp ht =>
    obtain ⟨hp', -, ht'⟩ := hquiet hp
    rw [ht, ht', List.append_nil] at htimes
    exact .settled (hsettled.mpr (.inl h)) (hrun ▸ hp') htimes
  | late hnot hnow hp ht =>
    obtain ⟨hp', hnot', ht'⟩ := hquiet hp
    rw [ht, ht', List.append_nil] at htimes
    exact .late (hsettled.not.mpr (not_or.mpr ⟨hnot, hnot'⟩)) (hnow.trans hle) (hrun ▸ hp') htimes

/-- What is not its deadline leaves the connection pending, or settles what becomes of it. -/
theorem Sound.punctual_cons (hs : s.Sound) (hp : s.pending = some p)
    (hi : input ≠ .ring (.handshake p.conn))
    (h : (s.step m input).1.pending = some p → Punctual p finish (s.step m input).1 rest) :
    Punctual p finish s ((m, input) :: rest) := by
  have hawaits : s.Awaits p.conn := ⟨p, hp, rfl⟩
  have htimes : s.timeouts p.conn ((m, input) :: rest) = _ := timeouts_cons fun _ => hi
  rcases hs.step_of_pending hp m hi with ⟨hp', hnot⟩ | ⟨hp', hsettles⟩
  · have hstill (hn : ¬ (s.step m input).1.Settled p.conn rest) :
        ¬ s.Settled p.conn ((m, input) :: rest) := fun h => h.elim (fun h => hnot h.2) hn
    cases h hp' with
    | waits hn hnow hp ht => exact .waits (hstill hn) hnow hp (htimes.trans ht)
    | settled h hp ht => exact .settled (.inr h) hp (htimes.trans ht)
    | late hn hnow hp ht => exact .late (hstill hn) hnow hp (htimes.trans ht)
  · have hn : p.conn < (s.step m input).1.nextConnection :=
      (hs.1.numbered_of_awaits hawaits).trans_le (hs.1.step_change m input).nextConnection_le
    obtain ⟨hp'', -, ht⟩ := (hs.step m input).1.untimed hn hp' rest
    exact .settled (.inl ⟨hawaits, hsettles⟩) hp'' (htimes.trans ht)

/-- The time for the handshake is over. -/
theorem Sound.punctual_ring (hs : s.Sound) (hp : s.pending = some p)
    (takes : ConnectionId → Message → Bool) (hlate : p.deadline ≤ finish)
    (rest : List (Moment × Input)) :
    Punctual p finish s ((⟨p.deadline, takes⟩, .ring (.handshake p.conn)) :: rest) := by
  let m : Moment := ⟨p.deadline, takes⟩
  have hawaits : s.Awaits p.conn := ⟨p, hp, rfl⟩
  have hstep := step_handshake m hawaits
  have hs' := (hs.step m (.ring (.handshake p.conn))).1
  have hn : p.conn < (s.step m (.ring (.handshake p.conn))).1.nextConnection := by
    rw [hstep]
    exact hs.1.numbered_of_awaits hawaits
  have hnot : ¬ (s.step m (.ring (.handshake p.conn))).1.Awaits p.conn := by
    rw [hstep]
    exact not_awaits_of_none rfl
  have hsettles := hs.1.not_settles m hawaits
  obtain ⟨hp', hn', ht⟩ := hs'.untimed hn hnot rest
  refine .late (fun h => h.elim (fun h => hsettles h.2) hn') hlate hp' ?_
  rw [timeouts, ht, hstep]
  simp [Effect.closing?]

/-- What is the next alarm while a connection is pending. -/
theorem nextAlarm_of_pending (hp : s.pending = some p) (now : Nat) :
    (∃ time ≤ p.deadline, s.HoldsBack ∧ s.nextAlarm now = some (time, .idle)) ∨
      (∃ w, s.windowEnd = some w ∧ w.deadline ≤ p.deadline ∧
        s.nextAlarm now = some (w.deadline, .window w.epoch)) ∨
      s.nextAlarm now = some (p.deadline, .handshake p.conn) := by
  have hset : (p.deadline, .handshake p.conn) ∈ s.alarms now := by simp [alarms, hp]
  obtain ⟨time, alarm, hmem, ha, hle⟩ := s.nextAlarm_le hset
  rcases s.alarms_cases hmem with ⟨rfl, hheld⟩ | ⟨w, hw, rfl, rfl⟩ | ⟨p', hp', rfl, rfl⟩
  · exact .inl ⟨time, hle, hheld, ha⟩
  · exact .inr (.inl ⟨w, hw, hle, ha⟩)
  · cases hp.symm.trans hp'
    exact .inr (.inr ha)

/-- **While time passes a pending connection is closed on time**, if there are alarms enough. -/
theorem Sound.punctual_due (hs : s.Sound) (hp : s.pending = some p)
    (takes : ConnectionId → Message → Bool) (finish : Nat) {n : Nat}
    (hn : (if s.HoldsBack then 1 else 0) < n) (now : Nat) :
    Punctual p finish s (due takes finish n now s) := by
  induction n generalizing s now with
  | zero => omega
  | succ n ih =>
    have hwaits {time : Nat} {alarm : Alarm} (ha : s.nextAlarm now = some (time, alarm))
        (htime : time ≤ p.deadline) (hlate : finish < time) :
        Punctual p finish s (due takes finish (n + 1) now s) := by
      rw [due_of_lt ha hlate]
      exact .waits (fun h => h) (hlate.trans_le htime) hp rfl
    rcases nextAlarm_of_pending hp now with ⟨time, htime, hheld, ha⟩ | ⟨w, hw, htime, ha⟩ | ha
    · by_cases hlate : finish < time
      · exact hwaits ha htime hlate
      -- what is held back is acknowledged, and then there is no tick any more
      rw [due_of_le ha (not_lt.mp hlate)]
      let m : Moment := ⟨time, takes⟩
      have hs' := hs.step m (.ring .idle)
      refine hs.punctual_cons hp nofun fun hp' => hs'.punctual_cons hp' nofun fun hp'' => ?_
      refine ih (hs'.step m .resume) hp'' ?_ time
      rw [if_neg (hs.1.not_holdsBack_tick m)]
      rw [if_pos hheld] at hn
      omega
    · by_cases hlate : finish < w.deadline
      · exact hwaits ha htime hlate
      -- the session is over
      rw [due_of_le ha (not_lt.mp hlate)]
      let m : Moment := ⟨w.deadline, takes⟩
      refine hs.punctual_cons hp nofun fun hp' => ?_
      have hlost := (hs.ring_window hw m).1
      have ho := (hs.step m (.ring (.window w.epoch))).1.not_over_of_pending hp'
      exact (ho (.inl hlost)).elim
    · by_cases hlate : finish < p.deadline
      · exact hwaits ha le_rfl hlate
      rw [due_of_le ha (not_lt.mp hlate)]
      exact hs.punctual_ring hp takes (not_lt.mp hlate) _

/-- The same when the sends that were woken try again before. -/
theorem Sound.punctual_passing (hs : s.Sound) (hp : s.pending = some p)
    (takes : ConnectionId → Message → Bool) (now finish : Nat) :
    Punctual p finish s (s.passing takes now finish) := by
  let m : Moment := ⟨now, takes⟩
  refine hs.punctual_cons hp nofun fun hp' => ?_
  refine (hs.step m .resume).punctual_due hp' takes finish ?_ now
  split <;> decide

/-- A deadline is set for the handshake of the pending connection only. -/
theorem awaits_of_mem_alarms {time : Nat} (h : (time, .handshake c) ∈ s.alarms now) :
    s.Awaits c := by
  rcases s.alarms_cases h with ⟨hidle, -⟩ | ⟨w, -, -, hwindow⟩ | ⟨p, hp, -, hpending⟩
  · cases hidle
  · cases hwindow
  · cases hpending
    exact ⟨p, hp, rfl⟩

/-- **What is settled is not affected by the deadline, ever.** -/
theorem Sound.settled (hs : s.Sound) (hc : s.Awaits c) (hsettles : s.Settles m c input)
    (later : List (Moment × Input)) :
    let s' := ((s.step m input).1.run later).1
    (∀ m', s'.step m' (.ring (.handshake c)) = (s', [])) ∧
      ∀ now time, (time, .handshake c) ∉ s'.alarms now := by
  intro s'
  have hn : c < (s.step m input).1.nextConnection :=
    (hs.1.numbered_of_awaits hc).trans_le (hs.1.step_change m input).nextConnection_le
  have hi : input ≠ .ring (.handshake c) := by
    rintro rfl
    exact hs.1.not_settles m hc hsettles
  obtain ⟨p, hp, rfl⟩ := hc
  have hnot : ¬ (s.step m input).1.Awaits p.conn :=
    (hs.step_of_pending hp m hi).elim (fun h => (h.2 hsettles).elim) And.left
  have hlater : ¬ s'.Awaits p.conn := ((hs.step m input).1.untimed hn hnot later).1
  exact ⟨fun m' => step_handshake_of_not_awaits m' hlater,
    fun now time hmem => hlater (awaits_of_mem_alarms hmem)⟩

end Session

/-! ### Connections on a clock -/

namespace Clocked

open Session (Input Punctual)

variable {k : Clocked} {p : Pending}

/-- There is a new connection. -/
def Event.opened (takes : ConnectionId → Message → Bool) : Event := .act takes .connect trivial

/-- **A pending connection is closed on time**, whatever happens. -/
theorem punctual_step (hs : k.session.Sound) (hp : k.session.pending = some p) (e : Event) :
    Punctual p (k.step e).now k.session (k.inputs e) := by
  cases e with
  | pass takes time => exact hs.punctual_passing hp takes _ _
  | act takes input external =>
    have hi : input ≠ .ring (.handshake p.conn) := by
      rintro rfl
      exact external
    exact hs.punctual_cons hp hi fun hp' => (hs.step _ input).punctual_passing hp' takes _ _

/-- The same for any number of events, after some time. -/
theorem punctual_run {s : Session} (hs : s.Sound) (hn : p.conn < s.nextConnection)
    {before : List (Moment × Input)} (hk : k.session = (s.run before).1)
    (h : Punctual p k.now s before) (events : List Event) :
    Punctual p (k.run events).now s (before ++ k.history events) := by
  induction events generalizing k before with
  | nil => simpa [history, run] using h
  | cons e events ih =>
    rw [history, ← List.append_assoc]
    refine ih (k := k.step e) ?_ ?_
    · rw [step, Session.run_append, hk]
    · refine h.append hs.1 hn (k.now_le_step e) fun hp => ?_
      have hsound : k.session.Sound := hk ▸ hs.run before
      rw [← hk] at hp ⊢
      exact punctual_step hsound hp e

/-- **A connection is closed exactly when the time for its handshake is over**, and only if nothing
settled before what becomes of it: it completed its handshake, another one came, it was lost, or
the session ended. What is settled is not affected by the deadline, whatever connections are
pending then. When the time is over, nothing changes but that the connection is not pending any
more, and nothing is done but that it is closed. -/
theorem handshake_on_time {role : Role} {id : SessionId} {config : Config} {k₀ : Clocked}
    (h : Session.create role id config k₀.now = .ok k₀.session) :
    (∀ (before : List Event) (takes : ConnectionId → Message → Bool) (after : List Event)
      (c : ConnectionId),
      let k := k₀.run before
      let deadline := Deadline.after k.now config.handshakeTimeout
      let k' := (k.step (.opened takes)).run after
      let settled := k.session.Settled c (k.history (.opened takes :: after))
      (k.session.connect ⟨k.now, takes⟩).answer = .ok c →
        (k'.session.Awaits c ↔ ¬ settled ∧ k'.now < deadline) ∧
          k₀.session.timeouts c (k₀.history (before ++ .opened takes :: after)) =
            if ¬ settled ∧ deadline ≤ k'.now then [(deadline, false)] else []) ∧
      ∀ (inputs : List (Moment × Input)) (c : ConnectionId),
        let s := (k₀.session.run inputs).1
        s.Awaits c →
          (∀ m input later, s.Settles m c input →
            let s' := ((s.step m input).1.run later).1
            (∀ m', s'.step m' (.ring (.handshake c)) = (s', [])) ∧
              ∀ now time, (time, .handshake c) ∉ s'.alarms now) ∧
            ∀ m, s.step m (.ring (.handshake c)) = ({ s with pending := none }, [.close c false]) := by
  have hs₀ := Session.Sound.start h
  constructor
  · intro before takes after c k deadline k' settled hanswer
    let m : Moment := ⟨k.now, takes⟩
    let s₁ := (k.session.step m .connect).1
    let opened := k.step (.opened takes)
    let rest := s₁.passing takes k.now k.now ++ opened.history after
    have hsession : k.session = (k₀.session.run (k₀.history before)).1 := k₀.run_session before
    have hs : k.session.Sound := hsession ▸ hs₀.run _
    have hconfig : k.session.config = config := by
      rw [hsession, hs₀.config_run, Session.eq_start h]
      rfl
    -- the connection has the next number, so it was not there before
    have ho : ¬ k.session.lifecycle.Over := fun ho => by simp [Session.connect, ho] at hanswer
    have hc : c = k.session.nextConnection := by
      rw [Session.connect_of_not_over _ ho] at hanswer
      exact (Except.ok.inj hanswer).symm
    have hfirst : ¬ k.session.Awaits c := fun h => (hs.1.numbered_of_awaits h).ne hc
    have hquiet : k₀.session.timeouts c (k₀.history before) = [] :=
      hs₀.1.timeouts_of_le (hsession ▸ hc.ge)
    have hpending : s₁.pending = some ⟨c, deadline⟩ := by
      simp only [s₁, Session.step, Session.connect, if_neg ho, hc, deadline, ← hconfig]
      cases k.session.role <;> rfl
    have hs₁ : s₁.Sound := hs.step m .connect
    have hn : c < s₁.nextConnection := hs₁.1.numbered_of_awaits ⟨_, hpending, rfl⟩
    have hpunctual : Punctual ⟨c, deadline⟩ k'.now s₁ rest :=
      punctual_run (k := opened) hs₁ hn rfl (hs₁.punctual_passing hpending takes _ _) after
    have hsettled : settled ↔ s₁.Settled c rest := or_iff_right fun h => hfirst h.1
    have hlast : k'.session = (s₁.run rest).1 := by
      rw [Session.run_append]
      exact opened.run_session after
    have htimes : k₀.session.timeouts c (k₀.history (before ++ .opened takes :: after)) =
        s₁.timeouts c rest := by
      rw [history_append, Session.timeouts_append, hquiet, ← hsession, List.nil_append]
      exact Session.timeouts_cons fun _ => by simp
    rw [htimes, hlast]
    cases hpunctual with
    | waits hnot hnow hp ht =>
      rw [if_neg fun h => hnow.not_ge h.2]
      exact ⟨iff_of_true ⟨_, hp, rfl⟩ ⟨mt hsettled.mp hnot, hnow⟩, ht⟩
    | settled h hp ht =>
      rw [if_neg fun h' => h'.1 (hsettled.mpr h)]
      exact ⟨iff_of_false hp fun h' => h'.1 (hsettled.mpr h), ht⟩
    | late hnot hnow hp ht =>
      rw [if_pos ⟨mt hsettled.mp hnot, hnow⟩]
      exact ⟨iff_of_false hp fun h => h.2.not_ge hnow, ht⟩
  · intro inputs c s hc
    exact ⟨fun m input later hsettles => (hs₀.run inputs).settled hc hsettles later,
      fun m => Session.step_handshake m hc⟩

/-- A second connection comes while the first one is pending, and neither is used. The first one is
not closed at its deadline, at which the second one is pending, and the second one is closed at its
own. -/
theorem handshake_on_time_overlap :
    let takes : ConnectionId → Message → Bool := fun _ _ => true
    let m : Moment := ⟨0, takes⟩
    let k₀ : Clocked := ⟨0, .start .server (.ofNat 1) { handshakeTimeout := 500 } 0⟩
    let events : List Event := [.pass takes 7, .opened takes, .pass takes 100, .opened takes,
      .pass takes 1000]
    let s := (k₀.session.step m .connect).1
    let s' := ((s.step m .connect).1.run [(m, .disconnect true)]).1
    k₀.session.timeouts 0 (k₀.history events) = [] ∧
      k₀.session.timeouts 1 (k₀.history events) = [(607, false)] ∧
      (k₀.run (events.take 4)).session.Awaits 1 ∧
      s'.pending = some ⟨1, 500⟩ ∧ s'.step m (.ring (.handshake 0)) = (s', []) ∧
      s.step m (.ring (.handshake 0)) = ({ s with pending := none }, [.close 0 false]) := by
  intro takes m k₀ events s s'
  have h : Session.create .server (.ofNat 1) { handshakeTimeout := 500 } k₀.now = .ok k₀.session := rfl
  obtain ⟨hclock, hstep⟩ := handshake_on_time h
  have hgiven {k : Clocked} (ho : ¬ k.session.lifecycle.Over) {c : ConnectionId}
      (hc : k.session.nextConnection = c) : (k.session.connect ⟨k.now, takes⟩).answer = .ok c :=
    hc ▸ Session.connect_of_not_over _ ho
  -- the first connection is superseded
  obtain ⟨-, hfirst⟩ := hclock (events.take 1) takes (events.drop 2) 0
    (hgiven (by decide +kernel) (by decide +kernel))
  rw [if_neg (by decide +kernel)] at hfirst
  -- the second one is not
  have hsecond := hgiven (k := k₀.run (events.take 3)) (by decide +kernel) (c := 1)
    (by decide +kernel)
  obtain ⟨hwaits, -⟩ := hclock (events.take 3) takes [] 1 hsecond
  obtain ⟨-, hlate⟩ := hclock (events.take 3) takes (events.drop 4) 1 hsecond
  rw [if_pos (by decide +kernel)] at hlate
  have hdeadline : Deadline.after (k₀.run (events.take 3)).now 500 = 607 := by decide +kernel
  rw [hdeadline] at hlate
  have hawaits : s.Awaits 0 := Session.awaits_iff.mp (by decide +kernel)
  obtain ⟨hsettled, hring⟩ := hstep [(m, .connect)] 0 hawaits
  obtain ⟨hstale, -⟩ := hsettled m .connect [(m, .disconnect true)] (by decide +kernel)
  exact ⟨hfirst, hlate, hwaits.mpr (by decide +kernel), by decide +kernel, hstale m, hring m⟩

/-- If more than thirty years are asked for, the connection is closed before. -/
theorem closed_after_thirty_years :
    let config : Config := { handshakeTimeout := Deadline.horizon + 1 }
    let takes : ConnectionId → Message → Bool := fun _ _ => true
    let k₀ : Clocked := ⟨0, .start .server (.ofNat 1) config 0⟩
    let events : List Event := [.opened takes, .pass takes Deadline.horizon]
    Session.create .server (.ofNat 1) config 0 = .ok k₀.session ∧
      (k₀.session.connect ⟨0, takes⟩).answer = .ok 0 ∧
      ¬ k₀.session.Settled 0 (k₀.history events) ∧
      (k₀.run events).now < k₀.now + config.handshakeTimeout ∧
      k₀.session.timeouts 0 (k₀.history events) = [(Deadline.horizon, false)] := by
  intro config takes k₀ events
  have hsettled : ¬ k₀.session.Settled 0 (k₀.history events) := by decide +kernel
  have hearly : (k₀.run events).now < k₀.now + config.handshakeTimeout := by decide +kernel
  have htimeouts : k₀.session.timeouts 0 (k₀.history events) = [(Deadline.horizon, false)] := by
    decide +kernel
  exact ⟨rfl, rfl, hsettled, hearly, htimeouts⟩

end Clocked

end Tether
