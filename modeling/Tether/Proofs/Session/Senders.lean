import Tether.Proofs.Session.Room

/-!
# Sends that wait for room

Sends that find no room wait, and try again in any order and at any time, among all else that
happens to the session (`Turn`). Of everything that is accepted there is a ledger, and of each
send it is known whether it waits or what it was told.

Main result: the books are kept in every run (`Books.turns`). So each send is told once, and it is
accepted once at most, under the number that it is told; and there is no room for those who wait
and are not woken.
-/

namespace Tether

/-- What a send is told, with its ticket, if the effect is that. -/
def Effect.result? : Effect → Option (Nat × Except Refusal Int)
  | sent ticket result => some (ticket, result)
  | _ => none

/-- What sends are told, in order. -/
def Effect.results (effects : List Effect) : List (Nat × Except Refusal Int) :=
  effects.filterMap result?

namespace Effect

variable (e e' : List Effect)

@[simp] theorem results_nil : results [] = [] := rfl
@[simp] theorem results_append : results (e ++ e') = results e ++ results e' :=
  List.filterMap_append
@[simp] theorem results_deliver (p : Bytes) : results (.deliver p :: e) = results e := rfl
@[simp] theorem results_notify (n : Notice) : results (.notify n :: e) = results e := rfl

@[simp] theorem results_close_map {α : Type} (o : List α) (conn : α → ConnectionId) (b : Bool) :
    results (o.map fun a => Effect.close (conn a) b) = [] := by
  induction o with
  | nil => rfl
  | cons a o ih => exact ih

end Effect

namespace Session

open Effect (results results_append)

/-! ### What is told -/

@[simp] theorem results_transmit (m : Moment) (c : ConnectionId) (x : Message) (e : List Effect) :
    results (transmit m c x :: e) = results e := rfl

@[simp] theorem results_sendAck (s : Session) (m : Moment) (n : Int) :
    results (s.sendAck m n) = [] := by
  unfold sendAck
  cases s.active <;> rfl

@[simp] theorem results_transmitAll (m : Moment) (c : ConnectionId) (l : List Message) :
    results (transmitAll m c l) = [] := by
  induction l with
  | nil => rfl
  | cons x l ih =>
    unfold transmitAll
    split <;> simp [ih]

@[simp] theorem results_shutDown (s : Session) : results s.shutDown.2 = [] := by simp [shutDown]

theorem results_flush (m : Moment) (s : Session) : results (s.flush m).2 = [] := by
  unfold flush
  split
  · split
    · exact results_sendAck s m _
    · rfl
  · rfl

theorem results_completeHandshake (m : Moment) (s : Session) (acked : Int) :
    results (s.completeHandshake m acked).effects = [] := by
  unfold completeHandshake
  cases s.pending with
  | none => rfl
  | some p =>
    dsimp only
    rcases s.lifecycle.connect with ⟨outcome, lifecycle⟩
    cases outcome with
    | rejected =>
      dsimp only
      split <;> rfl
    | established | restored | replaced =>
      simp only [results_append, Effect.results_close_map, results_transmitAll]
      split <;> simp

theorem results_receiveActive (m : Moment) (s : Session) (c : ConnectionId) (x : Message) :
    results (s.receiveActive m c x).effects = [] := by
  unfold receiveActive
  cases x.kind with
  | send =>
    dsimp only
    split
    · next ack _ => cases ack <;> simp
    · simp
    · simp
  | ack | handshake | handshakeOk | handshakeFail => rfl
  | goodbye =>
    dsimp only
    split
    · rfl
    · simp

theorem results_receive (m : Moment) (s : Session) (c : ConnectionId) (bytes : Bytes) :
    results (s.receive m c bytes).effects = [] := by
  unfold receive receiveMessage receivePending
  cases Message.decode bytes with
  | error e => rfl
  | ok x =>
    dsimp only
    split
    · split <;> rfl
    · split
      · split
        · exact results_completeHandshake m s x.acked
        · exact results_completeHandshake m s x.acked
        · rfl
        · rfl
      · split
        · exact results_receiveActive m s c x
        · rfl

theorem results_afterLoss (m : Moment) (s : Session) (d : Disconnection) :
    results (s.afterLoss m d).2 = [] := by
  cases d <;> simp [afterLoss]

/-- An operation that sends nothing tells no send anything. -/
theorem results_step (m : Moment) (s : Session) {input : Input} (hi : ¬ input.Sends) :
    results (s.step m input).2 = [] := by
  cases input with
  | trySend | send | resume => exact (hi trivial).elim
  | close =>
    simp only [step, close]
    split
    · rfl
    · cases s.active <;> simp
  | disconnect forced => simp [step, disconnect]
  | flush => exact results_flush m s
  | connect =>
    simp only [step, connect]
    split
    · rfl
    · cases s.role <;> simp
  | frame c bytes => exact results_receive m s c bytes
  | disconnected c forced =>
    simp only [step, disconnected]
    split
    · split
      · exact results_afterLoss ..
      · rfl
    · split
      · exact results_afterLoss ..
      · rfl
  | ring alarm =>
    cases alarm with
    | window epoch =>
      simp only [step, ring, expireWindow]
      split <;> simp
    | handshake c =>
      simp only [step, ring, expireHandshake]
      split <;> rfl
    | idle => exact results_flush m s

/-! ### Turns -/

/-- What can happen next. -/
inductive Turn where
  /-- Something happens to the session. -/
  | input (input : Input)
  /-- A send that waits tries again, be it woken or not. -/
  | retry (ticket : Nat)

/-- A send that waits tries again, if there is one with the ticket. -/
def retry (m : Moment) (s : Session) (ticket : Nat) : Session × List Effect :=
  match s.waiting.find? (·.ticket = ticket) with
  | none => (s, [])
  | some w => { s with waiting := s.waiting.erase w }.attempt m w.rouse

/-- What a turn leaves behind and does. -/
def turn (m : Moment) (s : Session) : Turn → Session × List Effect
  | .input input => s.step m input
  | .retry ticket => s.retry m ticket

/-- What turns leave behind and do. -/
def turns (s : Session) : List (Moment × Turn) → Session × List Effect
  | [] => (s, [])
  | (m, t) :: rest =>
    let one := s.turn m t
    let more := one.1.turns rest
    (more.1, one.2 ++ more.2)

/-- The payload of a send that begins, if the turn is that. -/
def Turn.call? : Turn → Option Bytes
  | .input (.send payload) => some payload
  | _ => none

/-- The payloads of the sends that begin, in order: their places are the tickets. -/
def calls (turns : List (Moment × Turn)) : List Bytes := turns.filterMap fun x => x.2.call?

/-- A payload that was accepted, and the ticket under which it came, if its send was one that waits
for room. -/
structure Entry where
  ticket : Option Nat
  payload : Bytes

/-- Sends try one after the other. -/
def attemptAll (m : Moment) (s : Session) : List Waiting → Session × List Effect
  | [] => (s, [])
  | w :: rest =>
    let one := s.attempt m w
    let more := one.1.attemptAll m rest
    (more.1, one.2 ++ more.2)

/-- What is accepted when a send tries. -/
def enter (m : Moment) (s : Session) (w : Waiting) : List Entry :=
  (s.admits m w).map (⟨some w.ticket, ·⟩)

/-- What is accepted when sends try one after the other. -/
def enterAll (m : Moment) (s : Session) : List Waiting → List Entry
  | [] => []
  | w :: rest => s.enter m w ++ (s.attempt m w).1.enterAll m rest

/-- What is accepted in a turn. -/
def entries (m : Moment) (s : Session) : Turn → List Entry
  | .input (.trySend payload) => (s.accepts m payload).map (⟨none, ·⟩)
  | .input (.send payload) =>
    { s with nextTicket := s.nextTicket + 1 }.enter m ⟨s.nextTicket, payload, true⟩
  | .input .resume => { s with waiting := [] }.enterAll m s.waiting
  | .input _ => []
  | .retry ticket =>
    match s.waiting.find? (·.ticket = ticket) with
    | none => []
    | some w => { s with waiting := s.waiting.erase w }.enter m w.rouse

/-- **All that is accepted**, in order. -/
def ledger (s : Session) : List (Moment × Turn) → List Entry
  | [] => []
  | (m, t) :: rest => s.entries m t ++ (s.turn m t).1.ledger rest

/-- The sends in a ledger, with the places of what they brought. -/
def places (entries : List Entry) : List (Nat × Int) :=
  entries.zipIdx.filterMap fun (x, place) => x.ticket.map (·, (place : Int))

/-- The number that a send is told, with its ticket, if it is told one. -/
def success? : Nat × Except Refusal Int → Option (Nat × Int)
  | (ticket, .ok n) => some (ticket, n)
  | (_, .error _) => none

variable {m : Moment} {s s' : Session} {w : Waiting} {e : List Effect}

theorem places_concat (entries : List Entry) (x : Entry) :
    places (entries ++ [x]) =
      places entries ++ (x.ticket.map (·, (entries.length : Int))).toList := by
  cases hx : x.ticket <;> simp [places, List.zipIdx_append, hx]

theorem resume_eq (m : Moment) (s : Session) :
    s.resume m = { s with waiting := [] }.attemptAll m s.waiting := by
  have hfold (l : List Waiting) (s : Session) (e : List Effect) :
      l.foldl (fun (acc : Session × List Effect) w =>
          ((acc.1.attempt m w).1, acc.2 ++ (acc.1.attempt m w).2)) (s, e) =
        ((s.attemptAll m l).1, e ++ (s.attemptAll m l).2) := by
    induction l generalizing s e with
    | nil => simp [attemptAll]
    | cons w l ih => rw [List.foldl_cons, ih, attemptAll, List.append_assoc]
  exact hfold s.waiting { s with waiting := [] } []

/-! ### One try -/

/-- What becomes of a send that tries, what is done, and what is accepted. -/
inductive Tries (m : Moment) (s : Session) (w : Waiting) :
    Session → List Effect → List Entry → Prop where
  /-- It goes on waiting: it was not woken, or there is no room. -/
  | waits (h : w.woken = false ∨ s.Refused m w.payload) :
    Tries m s w { s with waiting := s.waiting ++ [{ w with woken := false }] } [] []
  /-- It is refused for good. -/
  | fails (r : Refusal) (hr : ¬ r.Temporary) (ho : s.lifecycle.Over → r = .terminated) :
    Tries m s w s [.sent w.ticket (.error r)] []
  /-- It is accepted under the next number. -/
  | succeeds (inbox : Inbox) (effects : List Effect) (he : results effects = [])
    (ho : ¬ s.lifecycle.Over) :
    Tries m s w
      { s with
        outbox := s.outbox.retain w.payload
          (if s.outbox.connected then s.outbox.unsent else s.outbox.unsent + 1)
        inbox }
      (effects ++ [.sent w.ticket (.ok s.outbox.next)]) [⟨some w.ticket, w.payload⟩]

/-- A payload is refused, or accepted under the next number. -/
theorem trySend_cases (m : Moment) (s : Session) (payload : Bytes) :
    (∃ r, s.trySend m payload = ⟨.error r, s, []⟩ ∧ (s.lifecycle.Over → r = .terminated)) ∨
      ¬ s.lifecycle.Over ∧ ∃ inbox effects, results effects = [] ∧ s.trySend m payload =
        ⟨.ok s.outbox.next,
          { s with
            outbox := s.outbox.retain payload
              (if s.outbox.connected then s.outbox.unsent else s.outbox.unsent + 1)
            inbox }, effects⟩ := by
  unfold trySend
  by_cases ho : s.lifecycle.Over
  · exact .inl ⟨.terminated, if_pos ho, fun _ => rfl⟩
  rw [if_neg ho]
  cases ha : s.outbox.accept payload with
  | error r => exact .inl ⟨r, rfl, fun h => (ho h).elim⟩
  | ok r =>
    obtain ⟨way, outbox⟩ := r
    obtain ⟨-, ⟨hc, rfl, rfl⟩ | ⟨hc, rfl, rfl⟩⟩ := Outbox.accept_eq_ok ha
    · cases hactive : s.active with
      | none => exact .inr ⟨ho, s.inbox, [], rfl, by simp [hc]⟩
      | some c => exact .inr ⟨ho, s.inbox.flush, _, rfl, by simp [hc]; rfl⟩
    · exact .inr ⟨ho, s.inbox, [], rfl, by simp [hc]⟩

theorem tries_attempt (m : Moment) (s : Session) (w : Waiting) :
    Tries m s w (s.attempt m w).1 (s.attempt m w).2 (s.enter m w) := by
  unfold attempt enter admits accepts
  by_cases hw : w.woken = false
  · rw [if_pos hw, if_pos hw]
    have hsame : w = { w with woken := false } := by cases w; cases hw; rfl
    rw [List.map_nil, hsame]
    exact .waits (.inl rfl)
  rw [if_neg hw, if_neg hw]
  rcases trySend_cases m s w.payload with ⟨r, h, hr⟩ | ⟨ho, inbox, effects, he, h⟩
  · simp only [h]
    split
    · next ht => exact .waits (.inr ⟨r, by rw [h], ht⟩)
    · next ht => exact .fails r ht hr
  · simp only [h]
    exact .succeeds inbox effects he ho

/-! ### The books -/

/-- **What is known of the sends that began**, while some of them try: what was accepted, what
they were told, and what they were to send. -/
structure Books (s : Session) (trying : List Waiting) (ledger : List Entry)
    (told : List (Nat × Except Refusal Int)) (calls : List Bytes) : Prop where
  next : s.nextTicket = calls.length
  /-- Every send waits, or tries, or was told once. -/
  tickets : ((s.waiting ++ trying).map (·.ticket) ++ told.map (·.1)).Perm (List.range calls.length)
  /-- Those that are not done bring what they were to send, -/
  pending : ∀ w ∈ s.waiting ++ trying, calls[w.ticket]? = some w.payload
  /-- and so did those that were accepted. -/
  brought : ∀ x ∈ ledger, ∀ ticket ∈ x.ticket, calls[ticket]? = some x.payload
  /-- They were told the places under which they were accepted. -/
  places : told.filterMap success? = Session.places ledger
  /-- Nobody was refused for want of room. -/
  patient : ∀ x ∈ told, ∀ r, x.2 = .error r → ¬ r.Temporary
  /-- The outbox keeps the log of all that was accepted. -/
  log : ∃ l, s.outbox.Keeps s.config l ∧ l.entries = ledger.map (·.payload)
  /-- For those that are not woken there is no room. -/
  fair : ∀ w ∈ s.waiting ++ trying, w.woken = true ∨ s.Full w.payload

variable {trying : List Waiting} {l : List Entry} {told : List (Nat × Except Refusal Int)}
  {calls : List Bytes}

theorem Tries.tightens {x : List Entry} (h : Tries m s w s' e x) : s.Tightens s' := by
  cases h with
  | waits | fails => exact ⟨.refl _, fun h => h⟩
  | succeeds inbox effects he ho =>
    refine ⟨s.outbox.tightens_retain w.payload ?_, fun h => h⟩
    split <;> omega

theorem Books.mem_of_rest (w : Waiting) {w' : Waiting} (hw' : w' ∈ s.waiting ++ trying) :
    w' ∈ s.waiting ++ w :: trying := by
  simp only [List.mem_append, List.mem_cons] at hw' ⊢
  exact hw'.imp_right .inr

theorem Books.mem_trying : w ∈ s.waiting ++ w :: trying := by simp

/-- A send that tries is told what became of it. -/
theorem Books.tickets_told (h : Books s (w :: trying) l told calls) (result : Except Refusal Int) :
    ((s.waiting ++ trying).map (·.ticket) ++ (told ++ [(w.ticket, result)]).map (·.1)).Perm
      (List.range calls.length) := by
  have htickets := h.tickets
  simp only [List.map_append, List.map_cons, List.map_nil] at htickets ⊢
  rw [← List.append_assoc]
  refine (List.perm_append_singleton _ _).trans (.trans ?_ htickets)
  exact List.perm_middle.symm.append_right (told.map (·.1))

/-- A send that tries goes on waiting. -/
theorem Books.waits (h : Books s (w :: trying) l told calls)
    (hw : w.woken = false ∨ s.Refused m w.payload) :
    Books { s with waiting := s.waiting ++ [{ w with woken := false }] } trying l told calls := by
  have hfull : s.Full w.payload := by
    rcases hw with hw | hr
    · exact (h.fair w mem_trying).resolve_left (by simp [hw])
    · exact refused_iff.mp hr
  have hmem {w' : Waiting} (hw' : w' ∈ s.waiting ++ [{ w with woken := false }] ++ trying) :
      w' ∈ s.waiting ++ trying ∨ w' = { w with woken := false } := by
    simp only [List.mem_append, List.mem_singleton] at hw' ⊢
    exact or_right_comm.mp hw'
  exact { h with
    tickets := by simpa using h.tickets
    pending := fun w' hw' => by
      obtain hw' | rfl := hmem hw'
      · exact h.pending w' (mem_of_rest w hw')
      · exact h.pending w mem_trying
    fair := fun w' hw' => by
      obtain hw' | rfl := hmem hw'
      · exact h.fair w' (mem_of_rest w hw')
      · exact .inr hfull }

/-- A send that tries is refused for good. -/
theorem Books.fails (h : Books s (w :: trying) l told calls) {r : Refusal} (hr : ¬ r.Temporary) :
    Books s trying l (told ++ [(w.ticket, .error r)]) calls :=
  { h with
    tickets := h.tickets_told _
    pending := fun w' hw' => h.pending w' (mem_of_rest w hw')
    places := by
      rw [List.filterMap_append, h.places]
      exact List.append_nil _
    patient := fun x hx r' hr' => by
      rcases List.mem_append.mp hx with hx | hx
      · exact h.patient x hx r' hr'
      · obtain rfl := List.mem_singleton.mp hx
        cases hr'
        exact hr
    fair := fun w' hw' => h.fair w' (mem_of_rest w hw') }

theorem Books.next_eq (h : Books s trying l told calls) : s.outbox.next = l.length := by
  obtain ⟨log, hk, hentries⟩ := h.log
  rw [hk.next, hentries, List.length_map]

/-- A payload is accepted under the next number. -/
theorem Books.log_append (h : Books s trying l told calls) (x : Entry) :
    ∃ log, (s.outbox.retain x.payload
        (if s.outbox.connected then s.outbox.unsent else s.outbox.unsent + 1)).Keeps s.config log ∧
      log.entries = (l ++ [x]).map (·.payload) := by
  obtain ⟨log, hk, hentries⟩ := h.log
  refine ⟨log.append x.payload, ?_, by simp [Log.append, hentries]⟩
  rw [hk.connected]
  exact hk.append x.payload

/-- A send that tries is accepted. -/
theorem Books.succeeds (h : Books s (w :: trying) l told calls) (inbox : Inbox)
    (ht : s.Tightens s')
    (hs' : s' = { s with
      outbox := s.outbox.retain w.payload
        (if s.outbox.connected then s.outbox.unsent else s.outbox.unsent + 1)
      inbox }) :
    Books s' trying (l ++ [⟨some w.ticket, w.payload⟩])
      (told ++ [(w.ticket, .ok s.outbox.next)]) calls where
  next := by rw [hs']; exact h.next
  tickets := by rw [hs']; exact h.tickets_told _
  pending := fun w' hw' => h.pending w' (mem_of_rest w (by rwa [hs'] at hw'))
  brought := fun x hx ticket ht => by
    rcases List.mem_append.mp hx with hx | hx
    · exact h.brought x hx ticket ht
    · obtain rfl := List.mem_singleton.mp hx
      cases ht
      exact h.pending w mem_trying
  places := by
    rw [List.filterMap_append, h.places, places_concat, h.next_eq]
    rfl
  patient := fun x hx r' hr' => by
    rcases List.mem_append.mp hx with hx | hx
    · exact h.patient x hx r' hr'
    · obtain rfl := List.mem_singleton.mp hx
      cases hr'
  log := by rw [hs']; exact h.log_append ⟨some w.ticket, w.payload⟩
  fair := fun w' hw' => by
    have hw' : w' ∈ s.waiting ++ trying := by rwa [hs'] at hw'
    exact (h.fair w' (mem_of_rest w hw')).imp_right ht.full

/-- **A send that tries goes on waiting, or is told what became of it.** -/
theorem Books.tries (h : Books s (w :: trying) l told calls) {x : List Entry}
    (ht : Tries m s w s' e x) : Books s' trying (l ++ x) (told ++ results e) calls := by
  have htight := ht.tightens
  cases ht with
  | waits hw =>
    rw [List.append_nil, show results [] = [] from rfl, List.append_nil]
    exact h.waits hw
  | fails r hr ho =>
    rw [List.append_nil]
    exact h.fails hr
  | succeeds inbox effects he ho =>
    have hresults : results (effects ++ [.sent w.ticket (.ok s.outbox.next)]) =
        [(w.ticket, .ok s.outbox.next)] := by
      rw [results, List.filterMap_append, show effects.filterMap _ = [] from he]
      rfl
    rw [hresults]
    exact h.succeeds inbox htight rfl

/-- Sends that try one after the other go on waiting, or are told. -/
theorem Books.attemptAll (h : Books s trying l told calls) (m : Moment) :
    Books (s.attemptAll m trying).1 [] (l ++ s.enterAll m trying)
      (told ++ results (s.attemptAll m trying).2) calls := by
  induction trying generalizing s l told with
  | nil => simpa [Session.attemptAll, enterAll] using h
  | cons w trying ih =>
    have hrest := ih (h.tries (tries_attempt m s w))
    simpa only [Session.attemptAll, enterAll, results_append, List.append_assoc] using hrest

/-- Some of those who wait are about to try. -/
theorem Books.regroup (h : Books s [] l told calls) {waiting : List Waiting}
    (hp : (waiting ++ trying).Perm s.waiting) : Books { s with waiting } trying l told calls := by
  have hmem {w : Waiting} (hw : w ∈ waiting ++ trying) : w ∈ s.waiting ++ [] := by
    rw [List.append_nil]
    exact hp.mem_iff.mp hw
  have htickets := h.tickets
  rw [List.append_nil] at htickets
  exact { h with
    tickets := ((hp.map (·.ticket)).append_right _).trans htickets
    pending := fun w hw => h.pending w (hmem hw)
    fair := fun w hw => h.fair w (hmem hw) }

/-- A send that is woken is about to try. -/
theorem Books.rouse (h : Books s [w] l told calls) : Books s [w.rouse] l told calls :=
  { h with
    tickets := by simpa [Waiting.rouse] using h.tickets
    pending := fun w' hw' => by
      rcases List.mem_append.mp hw' with hw' | hw'
      · exact h.pending w' (List.mem_append_left _ hw')
      · obtain rfl := List.mem_singleton.mp hw'
        exact h.pending w mem_trying
    fair := fun w' hw' => by
      rcases List.mem_append.mp hw' with hw' | hw'
      · exact h.fair w' (List.mem_append_left _ hw')
      · obtain rfl := List.mem_singleton.mp hw'
        exact .inl rfl }

theorem getElem?_concat_of_some {calls : List Bytes} {payload payload' : Bytes} {n : Nat}
    (h : calls[n]? = some payload) : (calls ++ [payload'])[n]? = some payload := by
  obtain ⟨hn, -⟩ := List.getElem?_eq_some_iff.mp h
  rw [List.getElem?_append_left hn, h]

/-- A send begins, with the next ticket. -/
theorem Books.begins (h : Books s [] l told calls) (payload : Bytes) :
    Books { s with nextTicket := s.nextTicket + 1 } [⟨s.nextTicket, payload, true⟩] l told
      (calls ++ [payload]) := by
  have htickets := h.tickets
  rw [List.append_nil] at htickets
  exact {
    next := by rw [List.length_append, List.length_singleton, ← h.next]
    tickets := by
      rw [List.length_append, List.length_singleton, List.range_succ, ← h.next, List.map_append,
        List.append_assoc]
      rw [← h.next] at htickets
      refine List.perm_middle.trans (.trans ?_ (List.perm_append_singleton _ _).symm)
      exact htickets.cons s.nextTicket
    pending := fun w hw => by
      rcases List.mem_append.mp hw with hw | hw
      · exact getElem?_concat_of_some (h.pending w (List.mem_append_left _ hw))
      · obtain rfl := List.mem_singleton.mp hw
        rw [h.next]
        simp
    brought := fun x hx ticket ht => getElem?_concat_of_some (h.brought x hx ticket ht)
    places := h.places
    patient := h.patient
    log := h.log
    fair := fun w hw => by
      rcases List.mem_append.mp hw with hw | hw
      · exact h.fair w (List.mem_append_left _ hw)
      · obtain rfl := List.mem_singleton.mp hw
        exact .inl rfl }

/-- An operation that sends nothing leaves the books as they are. -/
theorem Books.stirred (h : Books s [] l told calls) {op : Session → Session} (hop : Stirred op s) :
    Books (op s) [] l told calls := by
  obtain ⟨log, hk, hentries⟩ := h.log
  have hwaiting := hop.signals_or_tightens hk
  obtain ⟨outbox, lifecycle, wakes, hstirs, hleft⟩ := hop
  obtain ⟨houtbox, -, hconfig, hnext, -⟩ : Left s (op s) outbox lifecycle wakes := hleft s.waiting
  obtain ⟨log', hk', hsame⟩ := hstirs.keeps hk
  have hlog : ∃ log, (op s).outbox.Keeps (op s).config log ∧ log.entries = l.map (·.payload) := by
    rw [houtbox, hconfig]
    exact ⟨log', hk', hsame.trans hentries⟩
  have htickets := h.tickets
  have hpending := h.pending
  have hfair := h.fair
  rw [List.append_nil] at htickets hpending hfair
  obtain ⟨-, hwaiting⟩ | ⟨htight, hwaiting⟩ := hwaiting
  · exact { h with
      next := hnext.trans h.next
      tickets := by
        rw [List.append_nil, hwaiting, List.map_map]
        exact htickets
      pending := fun w hw => by
        rw [List.append_nil, hwaiting] at hw
        obtain ⟨w', hw', rfl⟩ := List.mem_map.mp hw
        exact hpending w' hw'
      log := hlog
      fair := fun w hw => by
        rw [List.append_nil, hwaiting] at hw
        obtain ⟨w', -, rfl⟩ := List.mem_map.mp hw
        exact .inl rfl }
  · exact { h with
      next := hnext.trans h.next
      tickets := by rwa [List.append_nil, hwaiting]
      pending := by rwa [List.append_nil, hwaiting]
      log := hlog
      fair := fun w hw => by
        rw [List.append_nil, hwaiting] at hw
        exact (hfair w hw).imp_right htight.full }

/-- A payload that is not to wait is refused or accepted. -/
theorem Books.trySend (h : Books s [] l told calls) (m : Moment) (payload : Bytes) :
    Books (s.trySend m payload).session []
        (l ++ (s.accepts m payload).map (⟨none, ·⟩)) told calls ∧
      results (s.trySend m payload).effects = [] ∧ s.Tightens (s.trySend m payload).session := by
  unfold accepts
  rcases trySend_cases m s payload with ⟨r, heq, -⟩ | ⟨ho, inbox, effects, he, heq⟩
  · simp only [heq, List.map_nil, List.append_nil]
    exact ⟨h, rfl, .refl s⟩
  · simp only [heq, List.map_cons, List.map_nil]
    have htight : s.Tightens { s with
        outbox := s.outbox.retain payload
          (if s.outbox.connected then s.outbox.unsent else s.outbox.unsent + 1)
        inbox } := by
      refine ⟨s.outbox.tightens_retain payload ?_, fun h => h⟩
      split <;> omega
    refine ⟨{ h with
      brought := fun x hx ticket ht => by
        rcases List.mem_append.mp hx with hx | hx
        · exact h.brought x hx ticket ht
        · obtain rfl := List.mem_singleton.mp hx
          cases ht
      places := by
        rw [places_concat, h.places]
        simp
      log := h.log_append ⟨none, payload⟩
      fair := fun w hw => (h.fair w hw).imp_right htight.full }, he, htight⟩

/-- **The books are kept in every turn.** -/
theorem Books.turn (h : Books s [] l told calls) (m : Moment) (t : Turn) :
    Books (s.turn m t).1 [] (l ++ s.entries m t) (told ++ results (s.turn m t).2)
      (calls ++ Session.calls [(m, t)]) := by
  cases t with
  | retry ticket =>
    simp only [Session.turn, Session.retry, entries]
    cases hw : s.waiting.find? (·.ticket = ticket) with
    | none => simpa [Session.calls, Turn.call?] using h
    | some w =>
      have hmem := List.mem_of_find?_eq_some hw
      have hp : (s.waiting.erase w ++ [w]).Perm s.waiting :=
        (List.perm_append_singleton _ _).trans (List.perm_cons_erase hmem).symm
      have htries := (h.regroup hp).rouse.tries
        (tries_attempt m { s with waiting := s.waiting.erase w } w.rouse)
      simpa [Session.calls, Turn.call?] using htries
  | input input =>
    by_cases hi : input.Sends
    · cases input with
      | trySend payload =>
        obtain ⟨hbooks, hresults, -⟩ := h.trySend m payload
        simpa [Session.turn, step, entries, Session.calls, Turn.call?, hresults] using hbooks
      | send payload =>
        exact (h.begins payload).tries (tries_attempt m _ _)
      | resume =>
        have hp : ([] ++ s.waiting).Perm s.waiting := .refl _
        have hall := (h.regroup hp).attemptAll m
        simpa [Session.turn, step, resume_eq, entries, Session.calls, Turn.call?] using hall
      | _ => exact hi.elim
    · have hnone : s.entries m (.input input) = [] ∧ (Turn.input input).call? = none := by
        cases input with
        | trySend | send | resume => exact (hi trivial).elim
        | _ => exact ⟨rfl, rfl⟩
      have hbooks := h.stirred (step_stirred s m hi)
      simpa [Session.turn, results_step m s hi, Session.calls, hnone] using hbooks

/-- **The books are kept in every run.** -/
theorem Books.turns (h : Books s [] l told calls) (turns : List (Moment × Turn)) :
    Books (s.turns turns).1 [] (l ++ s.ledger turns) (told ++ results (s.turns turns).2)
      (calls ++ Session.calls turns) := by
  induction turns generalizing s l told calls with
  | nil => simpa [Session.turns, ledger, Session.calls] using h
  | cons x turns ih =>
    have hcalls : Session.calls (x :: turns) = Session.calls [x] ++ Session.calls turns :=
      List.filterMap_append (l := [x])
    have hrest := ih (h.turn x.1 x.2)
    simpa only [Session.turns, ledger, results_append, hcalls, List.append_assoc] using hrest

theorem Books.create {role : Role} {id : SessionId} {config : Config} {now : Nat} {s : Session}
    (h : create role id config now = .ok s) : Books s [] [] [] [] := by
  unfold Session.create at h
  split at h <;> cases h
  exact {
    next := rfl
    tickets := .refl []
    pending := nofun
    brought := nofun
    places := rfl
    patient := nofun
    log := ⟨_, .new id config, rfl⟩
    fair := nofun }

/-! ### No send is accepted twice -/

theorem map_fst_places (l : List Entry) : (places l).map (·.1) = l.filterMap (·.ticket) := by
  conv => rhs; rw [← List.zipIdx_map_fst 0 l, List.filterMap_map]
  rw [places, List.map_filterMap]
  congr 1
  funext x
  cases h : x.1.ticket <;> simp [h]

theorem sublist_success (told : List (Nat × Except Refusal Int)) :
    ((told.filterMap success?).map (·.1)).Sublist (told.map (·.1)) := by
  induction told with
  | nil => exact .slnil
  | cons x told ih =>
    obtain ⟨ticket, result⟩ := x
    cases result with
    | ok n => exact ih.cons_cons ticket
    | error r => exact ih.cons ticket

/-- **No send is accepted twice.** -/
theorem Books.nodup_tickets (h : Books s [] l told calls) : (l.filterMap (·.ticket)).Nodup := by
  have htold : (told.map (·.1)).Nodup :=
    (List.nodup_append.mp (h.tickets.nodup_iff.mpr List.nodup_range)).2.1
  rw [← map_fst_places, ← h.places]
  exact htold.sublist (sublist_success told)

end Session

end Tether
