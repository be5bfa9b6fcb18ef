import Tether.Proofs.Session.Coherent
import Tether.Proofs.Session.Effects

/-!
# What a session does of its own accord

All that happens to a session but new connections and messages is made of a few moves
(`Move`): a payload is accepted, what is held back is acknowledged, a connection is
given up or lost, the session ends. A step is a sequence of moves (`step_moves`), so
that what each move preserves is preserved by every such step.
-/

namespace Tether.Session

/-- Neither a new connection nor a frame. -/
def Input.Own : Input → Prop
  | .connect | .frame _ _ => False
  | _ => True

/-! ### Accepted payloads -/

/-- The payload, if it is accepted. -/
def accepts (m : Moment) (s : Session) (payload : Bytes) : List Bytes :=
  match (s.trySend m payload).answer with
  | .ok _ => [payload]
  | .error _ => []

/-- The payload of a send that tries its luck, if it is accepted. -/
def admits (m : Moment) (s : Session) (w : Waiting) : List Bytes :=
  if w.woken = false then [] else s.accepts m w.payload

/-- The payloads that are accepted when sends try their luck one after the other. -/
def admitsAll (m : Moment) (s : Session) : List Waiting → List Bytes
  | [] => []
  | w :: rest => s.admits m w ++ (s.attempt m w).1.admitsAll m rest

/-- The payloads that are accepted in a step. -/
def accepted (m : Moment) (s : Session) : Input → List Bytes
  | .trySend payload => s.accepts m payload
  | .send payload => { s with nextTicket := s.nextTicket + 1 }.accepts m payload
  | .resume => { s with waiting := [] }.admitsAll m s.waiting
  | _ => []

/-! ### Moves -/

/-- A move of a session, what it hands to connections and what it accepts. -/
inductive Move (m : Moment) (s : Session) : Session → List Transmission → List Bytes → Prop where
  /-- Sends wait or are woken, or a window opens or closes. -/
  | wait (waiting : List Waiting) (nextTicket : Nat) (windowEnd : Option WindowEnd) :
    Move m s { s with waiting, nextTicket, windowEnd } [] []
  /-- A payload is accepted while there is no connection. -/
  | defer (payload : Bytes) (unsent : Nat) (hc : s.active = none)
    (hp : payload.length ≤ s.outbox.maxPayload) :
    Move m s { s with outbox := s.outbox.retain payload unsent } [] [payload]
  /-- A payload is accepted and goes out. -/
  | send (c : ConnectionId) (payload : Bytes) (unsent : Nat) (hc : s.active = some c)
    (hp : payload.length ≤ s.outbox.maxPayload) :
    Move m s { s with outbox := s.outbox.retain payload unsent, inbox := s.inbox.flush }
      [handing m c (.send s.id s.outbox.next s.inbox.received payload)] [payload]
  /-- What is held back is acknowledged. -/
  | flush (c : ConnectionId) (hc : s.active = some c) :
    Move m s { s with inbox := s.inbox.flush } [handing m c (.ack s.id s.inbox.received)] []
  /-- The pending connection is given up. -/
  | giveUp : Move m s { s with pending := none } [] []
  /-- The active connection is lost, and may be replaced. -/
  | lose (lifecycle : Lifecycle) (hp : lifecycle.phase = .restoring) :
    Move m s { s with active := none, outbox := s.outbox.disconnect, lifecycle } [] []
  /-- The session ends. -/
  | finish (lifecycle : Lifecycle) (terminated : Bool) (ho : lifecycle.Over) :
    Move m s { s with
      pending := none, active := none, outbox := s.outbox.disconnect, lifecycle, terminated } [] []
  /-- The session ends, and says goodbye to the peer. -/
  | farewell (c : ConnectionId) (lifecycle : Lifecycle) (terminated : Bool)
    (hc : s.active = some c) (ho : lifecycle.Over) :
    Move m s { s with
      pending := none, active := none, outbox := s.outbox.disconnect, lifecycle, terminated }
      [handing m c (.goodbye s.id)] []

/-- Moves one after the other. -/
inductive Moves (m : Moment) : Session → Session → List Transmission → List Bytes → Prop where
  | nil (s : Session) : Moves m s s [] []
  | cons {s s' s'' : Session} {t t' : List Transmission} {a a' : List Bytes} :
    Move m s s' t a → Moves m s' s'' t' a' → Moves m s s'' (t ++ t') (a ++ a')

variable {m : Moment} {s s' s'' : Session} {t t' : List Transmission} {a a' : List Bytes}

theorem Move.single (h : Move m s s' t a) : Moves m s s' t a := by
  simpa using Moves.cons h (.nil s')

theorem Moves.trans (h : Moves m s s' t a) (h' : Moves m s' s'' t' a') :
    Moves m s s'' (t ++ t') (a ++ a') := by
  induction h with
  | nil => exact h'
  | cons hm _ ih =>
    rw [List.append_assoc, List.append_assoc]
    exact .cons hm (ih h')

/-- A move leaves the parts of a session in agreement. -/
theorem Move.coherent (h : Move m s s' t a) (hs : s.Coherent) : s'.Coherent := by
  cases h with
  | wait => exact { hs with }
  | defer payload unsent hc hp =>
    exact { hs with
      outbox := hs.outbox.retain payload unsent
      serves := hs.serves.retain hp unsent }
  | send c payload unsent hc hp =>
    exact { hs with
      outbox := hs.outbox.retain payload unsent
      serves := hs.serves.retain hp unsent
      inbox := hs.inbox.flush }
  | flush c hc => exact { hs with inbox := hs.inbox.flush }
  | giveUp =>
    exact { hs with
      latest := fun _ h => (by cases h)
      older := fun _ _ _ h => (by cases h)
      ended := fun _ => rfl }
  | lose lifecycle hp =>
    exact { hs with
      outbox := hs.outbox.disconnect
      serves := { hs.serves with }
      connected := rfl
      phase := by simp [hp]
      numbered := fun _ h => (by cases h)
      older := fun _ h => (by cases h)
      ended := fun h => by simp [Lifecycle.Over, Phase.Final, hp] at h }
  | finish lifecycle terminated ho | farewell c lifecycle terminated hc ho =>
    have hp : lifecycle.phase ≠ .connected := by
      rcases ho with h | h <;> simp [h]
    exact { hs with
      outbox := hs.outbox.disconnect
      serves := { hs.serves with }
      connected := rfl
      phase := by simp [hp]
      latest := fun _ h => (by cases h)
      numbered := fun _ h => (by cases h)
      older := fun _ h => (by cases h)
      ended := fun _ => rfl }

theorem Moves.coherent (h : Moves m s s' t a) (hs : s.Coherent) : s'.Coherent := by
  induction h with
  | nil => exact hs
  | cons hm _ ih => exact ih (hm.coherent hs)

/-! ### Sending -/

/-- A payload is refused, or accepted under the next number. -/
theorem Coherent.trySend (hs : s.Coherent) (m : Moment) (payload : Bytes) :
    (∃ r, s.trySend m payload = ⟨.error r, s, []⟩) ∨
      (payload.length ≤ s.outbox.maxPayload ∧ s.active = none ∧ ∃ n, s.trySend m payload =
        ⟨.ok s.outbox.next, { s with outbox := s.outbox.retain payload n }, []⟩) ∨
      ∃ c n, payload.length ≤ s.outbox.maxPayload ∧ s.active = some c ∧ s.trySend m payload =
        ⟨.ok s.outbox.next,
          { s with outbox := s.outbox.retain payload n, inbox := s.inbox.flush },
          [transmit m c (.send s.id s.outbox.next s.inbox.received payload)]⟩ := by
  unfold Session.trySend
  by_cases ho : s.lifecycle.Over
  · exact .inl ⟨.terminated, if_pos ho⟩
  rw [if_neg ho]
  cases ha : s.outbox.accept payload with
  | error r => exact .inl ⟨r, rfl⟩
  | ok r =>
    obtain ⟨way, outbox⟩ := r
    obtain ⟨hp, ⟨hc, rfl, rfl⟩ | ⟨hc, rfl, rfl⟩⟩ := Outbox.accept_eq_ok ha
    · obtain ⟨c, hc⟩ := Option.isSome_iff_exists.mp (hs.connected ▸ hc)
      exact .inr (.inr ⟨c, s.outbox.unsent, hp, hc, by simp only [hc]⟩)
    · have hc : s.active = none := by simpa [hc] using hs.connected
      exact .inr (.inl ⟨hp, hc, s.outbox.unsent + 1, rfl⟩)

/-- A send that tries its luck makes moves only, whether it is accepted or not. -/
theorem Coherent.attempt (hs : s.Coherent) (m : Moment) (w : Waiting) :
    Moves m s (s.attempt m w).1 (Effect.transmitted (s.attempt m w).2) (s.admits m w) ∧
      Effect.delivered (s.attempt m w).2 = [] := by
  unfold Session.attempt admits accepts
  by_cases hw : w.woken = false
  · rw [if_pos hw, if_pos hw]
    exact ⟨(Move.wait (s.waiting ++ [w]) s.nextTicket s.windowEnd).single, rfl⟩
  rw [if_neg hw, if_neg hw]
  rcases hs.trySend m w.payload with ⟨r, h⟩ | ⟨hp, hc, n, h⟩ | ⟨c, n, hp, hc, h⟩
  · simp only [h]
    split
    · exact ⟨(Move.wait _ s.nextTicket s.windowEnd).single, rfl⟩
    · exact ⟨.nil s, rfl⟩
  · simp only [h]
    exact ⟨(Move.defer w.payload n hc hp).single, rfl⟩
  · simp only [h]
    exact ⟨(Move.send c w.payload n hc hp).single, rfl⟩

/-- What `resume` does with one of those who wait. -/
private def resumeOne (m : Moment) (acc : Session × List Effect) (w : Waiting) :
    Session × List Effect :=
  let r := acc.1.attempt m w
  (r.1, acc.2 ++ r.2)

/-- Sends that try their luck one after the other make moves only. -/
theorem Coherent.attemptAll (hs : s.Coherent) (m : Moment) (l : List Waiting) (e : List Effect) :
    ∃ e', (l.foldl (resumeOne m) (s, e)).2 = e ++ e' ∧
      Moves m s (l.foldl (resumeOne m) (s, e)).1 (Effect.transmitted e') (s.admitsAll m l) ∧
      Effect.delivered e' = [] := by
  induction l generalizing s e with
  | nil => exact ⟨[], by simp, .nil s, rfl⟩
  | cons w l ih =>
    obtain ⟨hmoves, hdelivered⟩ := hs.attempt m w
    obtain ⟨e', heffects, hrest, hnone⟩ := ih (hmoves.coherent hs) (e ++ (s.attempt m w).2)
    refine ⟨(s.attempt m w).2 ++ e', ?_, ?_, ?_⟩
    · rw [List.foldl_cons, resumeOne, heffects, List.append_assoc]
    · rw [Effect.transmitted_append]
      exact hmoves.trans hrest
    · rw [Effect.delivered_append, hdelivered, hnone]
      rfl

/-! ### Ending -/

/-- Letting go of the connections after the lifecycle came to its end. -/
theorem shutDown_moves (lifecycle : Lifecycle) (ho : lifecycle.Over) :
    Moves m s ({ s with lifecycle }.shutDown).1 [] [] :=
  .cons (.finish lifecycle true ho)
    (Move.wait (s.waiting.map fun w => { w with woken := true }) s.nextTicket none).single

@[simp] theorem transmitted_shutDown (s : Session) : Effect.transmitted s.shutDown.2 = [] := by
  simp [shutDown]

@[simp] theorem delivered_shutDown (s : Session) : Effect.delivered s.shutDown.2 = [] := by
  simp [shutDown]

/-- Ending the session, with a goodbye if there is a connection to say it on. -/
theorem close_moves (m : Moment) (s : Session) :
    Moves m s (s.close m).1 (Effect.transmitted (s.close m).2) [] ∧
      Effect.delivered (s.close m).2 = [] := by
  unfold close Lifecycle.goodbye
  by_cases ho : s.lifecycle.Over
  · rw [if_pos ho]
    exact ⟨.nil s, rfl⟩
  rw [if_neg ho]
  have hend : (s.lifecycle.finish .closed).Over := .inr rfl
  cases hc : s.active with
  | none =>
    simp only [Option.toList_none, List.map_nil, List.nil_append, transmitted_shutDown,
      delivered_shutDown, and_true]
    exact shutDown_moves _ hend
  | some c =>
    simp only [Option.toList_some, List.map_cons, List.map_nil, List.cons_append, List.nil_append,
      transmitted_transmit, delivered_transmit, transmitted_shutDown, delivered_shutDown, and_true]
    exact .cons (.farewell c _ true hc hend)
      (Move.wait (s.waiting.map fun w => { w with woken := true }) s.nextTicket none).single

/-- Acknowledging what is held back. -/
theorem Coherent.flush (hs : s.Coherent) (m : Moment) :
    Moves m s (s.flush m).1 (Effect.transmitted (s.flush m).2) [] ∧
      Effect.delivered (s.flush m).2 = [] := by
  unfold Session.flush
  split
  · next hp =>
    split
    · next n hn =>
      obtain ⟨c, hc⟩ := Option.isSome_iff_exists.mp (hs.phase.mp hp)
      obtain ⟨-, rfl⟩ := Inbox.heldBack_eq_some.mp hn
      rw [transmitted_sendAck hc]
      exact ⟨(Move.flush c hc).single, delivered_sendAck s m _⟩
    · exact ⟨.nil s, rfl⟩
  · exact ⟨.nil s, rfl⟩

/-! ### Losses and alarms -/

/-- The loss of a connection opens a window, ends the session, or means nothing. -/
theorem disconnect_cases (l : Lifecycle) (forced : Bool) :
    (forced = false ∧ ∃ epoch, (l.disconnect forced).1 = .windowOpened epoch ∧
        (l.disconnect forced).2.phase = .restoring) ∨
      (∃ reason, (l.disconnect forced).1 = .lost reason ∧ (l.disconnect forced).2.Over) ∨
      l.phase ≠ .connected ∧ l.disconnect forced = (.ignored, l) := by
  unfold Lifecycle.disconnect
  cases hp : l.phase with
  | connected =>
    dsimp only
    by_cases hf : forced = true
    · rw [if_pos hf]
      exact .inr (.inl ⟨_, rfl, .inl rfl⟩)
    rw [if_neg hf]
    split
    · exact .inl ⟨by simpa using hf, _, rfl, rfl⟩
    · exact .inr (.inl ⟨_, rfl, .inl rfl⟩)
  | initial | restoring =>
    dsimp only
    split
    · exact .inr (.inl ⟨_, rfl, .inl rfl⟩)
    · exact .inr (.inr ⟨by simp, rfl⟩)
  | lost | closed => exact .inr (.inr ⟨by simp, rfl⟩)

/-- The loss of a connection. -/
theorem Coherent.disconnected (hs : s.Coherent) (m : Moment) (conn : ConnectionId) (forced : Bool) :
    Moves m s (s.disconnected m conn forced).1
        (Effect.transmitted (s.disconnected m conn forced).2) [] ∧
      Effect.delivered (s.disconnected m conn forced).2 = [] := by
  unfold Session.disconnected
  split
  · split
    · next hf =>
      subst hf
      rcases disconnect_cases s.lifecycle true with ⟨h, -⟩ | ⟨reason, h, ho⟩ | ⟨-, h⟩
      · cases h
      · simp only [h, afterLoss, Effect.transmitted_append, Effect.delivered_append,
          transmitted_shutDown, delivered_shutDown]
        exact ⟨shutDown_moves _ ho, rfl⟩
      · simp only [h, afterLoss]
        exact ⟨Move.giveUp.single, rfl⟩
    · exact ⟨Move.giveUp.single, rfl⟩
  · split
    · next hc =>
      rcases disconnect_cases s.lifecycle forced with ⟨-, epoch, h, hp⟩ | ⟨reason, h, ho⟩ | ⟨hp, -⟩
      · simp only [h, afterLoss]
        exact ⟨.cons (.lose _ hp) (Move.wait s.waiting s.nextTicket _).single, rfl⟩
      · simp only [h, afterLoss, Effect.transmitted_append, Effect.delivered_append,
          transmitted_shutDown, delivered_shutDown]
        exact ⟨shutDown_moves _ ho, rfl⟩
      · exact absurd (hs.phase.mpr (by rw [show s.active = some conn from hc]; rfl)) hp
    · exact ⟨.nil s, rfl⟩

/-- An alarm. -/
theorem Coherent.ring (hs : s.Coherent) (m : Moment) (alarm : Alarm) :
    Moves m s (s.ring m alarm).1 (Effect.transmitted (s.ring m alarm).2) [] ∧
      Effect.delivered (s.ring m alarm).2 = [] := by
  cases alarm with
  | window epoch =>
    simp only [Session.ring, expireWindow, Lifecycle.expire]
    by_cases he : s.lifecycle.phase = .restoring ∧ epoch = s.lifecycle.epoch
    · simp only [if_pos he, Effect.transmitted_append, Effect.delivered_append, transmitted_shutDown,
        delivered_shutDown]
      exact ⟨shutDown_moves _ (.inl rfl), rfl⟩
    · simp only [if_neg he]
      exact ⟨.nil s, rfl⟩
  | handshake conn =>
    simp only [Session.ring, expireHandshake]
    split
    · exact ⟨Move.giveUp.single, rfl⟩
    · exact ⟨.nil s, rfl⟩
  | idle => exact hs.flush m

/-! ### Steps -/

/-- **What a session does of its own accord is made of moves**, and delivers nothing. -/
theorem Coherent.step_moves (hs : s.Coherent) (m : Moment) {input : Input} (hi : input.Own) :
    Moves m s (s.step m input).1 (Effect.transmitted (s.step m input).2) (s.accepted m input) ∧
      Effect.delivered (s.step m input).2 = [] := by
  cases input with
  | trySend payload =>
    unfold step accepted accepts
    rcases hs.trySend m payload with ⟨r, h⟩ | ⟨hp, hc, n, h⟩ | ⟨c, n, hp, hc, h⟩
    · simp only [h]
      exact ⟨.nil s, rfl⟩
    · simp only [h]
      exact ⟨(Move.defer payload n hc hp).single, rfl⟩
    · simp only [h]
      exact ⟨(Move.send c payload n hc hp).single, rfl⟩
  | send payload =>
    have hw := Move.wait (m := m) (s := s) s.waiting (s.nextTicket + 1) s.windowEnd
    obtain ⟨hmoves, hnone⟩ := (hw.coherent hs).attempt m ⟨s.nextTicket, payload, true⟩
    exact ⟨.cons hw hmoves, hnone⟩
  | resume =>
    have hw := Move.wait (m := m) (s := s) [] s.nextTicket s.windowEnd
    obtain ⟨e, he, hmoves, hnone⟩ := (hw.coherent hs).attemptAll m s.waiting []
    have hstep : s.step m .resume = s.waiting.foldl (resumeOne m) ({ s with waiting := [] }, []) := rfl
    rw [hstep, he, List.nil_append]
    exact ⟨.cons hw hmoves, hnone⟩
  | close => exact close_moves m s
  | disconnect forced =>
    simp only [step, accepted, disconnect, Effect.transmitted_append, Effect.delivered_append,
      Effect.transmitted_close_map, Effect.delivered_close_map]
    exact ⟨.nil s, rfl⟩
  | flush => exact hs.flush m
  | connect | frame => exact hi.elim
  | disconnected conn forced => exact hs.disconnected m conn forced
  | ring alarm => exact hs.ring m alarm

end Tether.Session
