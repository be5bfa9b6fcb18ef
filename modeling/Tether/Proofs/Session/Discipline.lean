import Mathlib.Data.List.TakeWhile
import Tether.Proofs.Peers.ExactlyOnce
import Tether.Proofs.Session.Clock
import Tether.Proofs.Session.Connections

/-!
# What a session says on a connection

On each of its connections a session keeps to an order, whatever comes over them (`Uttered`). The
payloads that a connection takes have consecutive numbers, from the lowest that the peer did not
acknowledge when the handshake was completed, as long as the connection takes nothing after what
it refused (`Counts`). A payload always goes out under the number that it was accepted under.

Main result: all of this holds in every run (`wire_discipline`).
-/

namespace Tether

/-! ### What a connection takes -/

/-- The messages that a connection takes up to the first that it refuses. -/
def Transmission.heard (t : List Transmission) : List Message :=
  (t.takeWhile (·.taken)).map (·.message)

namespace Transmission

variable {t t' : List Transmission}

theorem heard_of_taken (h : ∀ τ ∈ t, τ.taken = true) : heard t = t.map (·.message) := by
  rw [heard, List.takeWhile_eq_self_iff.mpr h]

theorem heard_prefix (t : List Transmission) : heard t <+: t.map (·.message) :=
  (List.takeWhile_prefix _).map _

theorem heard_append (h : ∀ τ ∈ t, τ.taken = true) (t' : List Transmission) :
    heard (t ++ t') = heard t ++ heard t' := by
  rw [heard_of_taken h, heard, List.takeWhile_append_of_pos h, List.map_append, heard]

theorem heard_append_of_refused (h : ¬ ∀ τ ∈ t, τ.taken = true) (t' : List Transmission) :
    heard (t ++ t') = heard t := by
  rw [heard, List.takeWhile_append, if_neg, heard]
  intro hlen
  exact h (List.takeWhile_eq_self_iff.mp ((List.takeWhile_prefix _).eq_of_length hlen))

/-- What is no payload adds no number. -/
theorem numbers_heard_append_other (t : List Transmission)
    (h : ∀ τ ∈ t', τ.message.kind ≠ .send) :
    Message.numbers (heard (t ++ t')) = Message.numbers (heard t) := by
  by_cases ht : ∀ τ ∈ t, τ.taken = true
  · have hnone : Message.numbers (heard t') = [] := by
      rw [Message.numbers, List.filter_eq_nil_iff.mpr, List.map_nil]
      intro x hx
      have hfirst := heard_prefix t'
      obtain ⟨τ, hτ, rfl⟩ := List.mem_map.mp (hfirst.subset hx)
      simpa using h τ hτ
    rw [heard_append ht, Message.numbers_append, hnone, List.append_nil]
  · rw [heard_append_of_refused ht]

/-- A connection that takes nothing after what it refused takes what it hears. -/
theorem heard_of_pairwise (h : t.Pairwise fun τ τ' => τ'.taken = true → τ.taken = true) :
    (t.filter (·.taken)).map (·.message) = heard t := by
  induction t with
  | nil => rfl
  | cons τ t ih =>
    obtain ⟨hτ, ht⟩ := List.pairwise_cons.mp h
    cases htaken : τ.taken with
    | true => simpa [heard, htaken] using ih ht
    | false =>
      have hnone : t.filter (·.taken) = [] := by
        refine List.filter_eq_nil_iff.mpr fun τ' hτ' htaken' => ?_
        rw [hτ τ' hτ' htaken'] at htaken
        cases htaken
      simp [heard, htaken, hnone]

end Transmission

open Transmission (handedTo heard heard_append heard_append_of_refused)

/-- What a side says on a connection until it completes its handshake: a client asks for it, and
whatever asks for another session is refused. -/
def Role.prologue (r : Role) (refusals : Nat) : List Kind :=
  r.opening ++ List.replicate refusals .handshakeFail

theorem Role.send_notMem_prologue (r : Role) (n : Nat) : Kind.send ∉ r.prologue n := by
  cases r <;> simp [Role.prologue, Role.opening]

namespace Session

variable {m : Moment} {s s' : Session} {t t' : List Transmission} {a d : List Bytes}
  {c : ConnectionId} {role : Role}

/-! ### The order in which things are said -/

/-- **What a session said on a connection**, by how far that got. -/
inductive Uttered (role : Role) (s : Session) (c : ConnectionId) : List Kind → Prop where
  /-- There is no such connection yet. -/
  | unknown (hn : s.nextConnection ≤ c) : Uttered role s c []
  /-- It did not complete its handshake yet. -/
  | pending (n : Nat) (hp : s.Awaits c) :
    Uttered role s c (role.prologue n)
  /-- It completed its handshake. -/
  | active (n : Nat) {body : List Kind} (ha : s.active = some c)
    (hb : ∀ k ∈ body, k = .send ∨ k = .ack) :
    Uttered role s c (role.prologue n ++ (role.agreement ++ body))
  /-- The session let go of it before it completed its handshake. -/
  | givenUp (n : Nat) (hd : s.Dropped c) :
    Uttered role s c (role.prologue n)
  /-- The session let go of it after that, and may have said goodbye. -/
  | lost (n : Nat) {body farewell : List Kind} (hd : s.Dropped c)
    (hb : ∀ k ∈ body, k = .send ∨ k = .ack) (hf : farewell = [] ∨ farewell = [.goodbye]) :
    Uttered role s c (role.prologue n ++ (role.agreement ++ (body ++ farewell)))

namespace Uttered

variable {l : List Kind}

theorem eq_nil_of_unknown (h : Uttered role s c l) (hs : s.Coherent) (hn : s.nextConnection ≤ c) :
    l = [] := by
  have hlt : ¬ c < s.nextConnection := Nat.not_lt.mpr hn
  cases h with
  | unknown => rfl
  | pending n hp => exact (hlt (hs.numbered_of_awaits hp)).elim
  | active n ha => exact (hlt (hs.numbered c ha)).elim
  | givenUp n hd | lost n hd => exact (hlt hd.numbered).elim

theorem of_awaits (h : Uttered role s c l) (hs : s.Coherent) (hp : s.Awaits c) :
    ∃ n, l = role.prologue n := by
  cases h with
  | unknown hn => exact absurd (hs.numbered_of_awaits hp) (Nat.not_lt.mpr hn)
  | pending n => exact ⟨n, rfl⟩
  | active n ha => exact (hs.not_awaits ha hp).elim
  | givenUp n hd | lost n hd => exact (hd.pending hp).elim

theorem of_active (h : Uttered role s c l) (hs : s.Coherent) (ha : s.active = some c) :
    ∃ n body, (∀ k ∈ body, k = .send ∨ k = .ack) ∧
      l = role.prologue n ++ (role.agreement ++ body) := by
  cases h with
  | unknown hn => exact absurd (hs.numbered c ha) (Nat.not_lt.mpr hn)
  | pending n hp => exact (hs.not_awaits ha hp).elim
  | active n ha hb => exact ⟨n, _, hb, rfl⟩
  | givenUp n hd | lost n hd => exact (hd.active ha).elim

/-- One more is said on the active connection. -/
theorem say (h : Uttered role s c l) (hs : s.Coherent) (ha : s.active = some c)
    (ha' : s'.active = some c) {k : Kind} (hk : k = .send ∨ k = .ack) :
    Uttered role s' c (l ++ [k]) := by
  obtain ⟨n, body, hb, rfl⟩ := h.of_active hs ha
  rw [List.append_assoc, List.append_assoc]
  refine .active n ha' fun k' hk' => ?_
  rcases List.mem_append.mp hk' with hk' | hk'
  · exact hb k' hk'
  · exact List.mem_singleton.mp hk' ▸ hk

end Uttered

/-- When a handshake is completed, the server agrees, and then payloads are replayed. -/
theorem kinds_welcome (m : Moment) (s : Session) (c : ConnectionId) (acked : Int) :
    ∃ body, (s.welcome m c acked).map (·.message.kind) = s.role.agreement ++ body ∧
      ∀ k ∈ body, k = .send := by
  have hreplayed : ∀ τ ∈ handAll m c ((s.outbox.acknowledge acked).2.replay s.inbox.received),
      τ.message.kind = .send := by
    intro τ hτ
    obtain ⟨r, -, hr⟩ := List.mem_map.mp (mem_handAll hτ).2
    rw [← hr]
    rfl
  refine ⟨_, ?_, List.forall_mem_map.mpr hreplayed⟩
  rw [welcome, List.map_append]
  cases s.role <;> rfl

/-- Whatever becomes of a connection, the order is kept. -/
theorem Uttered.fares {l : List Kind} (hl : Uttered role s c l) (hs : s.Coherent)
    (hr : s.role = role) (h : Fares m s s' c t) :
    Uttered role s' c (l ++ t.map (·.message.kind)) := by
  cases h with
  | stays hn hp ha =>
    have hdropped (hd : s.Dropped c) : s'.Dropped c :=
      ⟨hn.mpr hd.numbered, mt hp.mp hd.pending, mt ha.mp hd.active⟩
    rw [List.map_nil, List.append_nil]
    cases hl with
    | unknown hle => exact .unknown (Nat.not_lt.mp (mt hn.mp (Nat.not_lt.mpr hle)))
    | pending n hp' => exact .pending n (hp.mpr hp')
    | active n ha' hb => exact .active n (ha.mpr ha') hb
    | givenUp n hd => exact .givenUp n (hdropped hd)
    | lost n hd hb hf => exact .lost n (hdropped hd) hb hf
  | opens hn hp hk =>
    rw [hl.eq_nil_of_unknown hs hn, hk, hr]
    have hpending : Uttered role s' c (role.prologue 0) := .pending 0 hp
    simpa [Role.prologue] using hpending
  | refuses hp hp' hk =>
    obtain ⟨n, rfl⟩ := hl.of_awaits hs hp
    rw [List.map_singleton, hk, Role.prologue, List.append_assoc, ← List.replicate_succ']
    exact .pending (n + 1) hp'
  | completes acked hp ha ho =>
    obtain ⟨n, rfl⟩ := hl.of_awaits hs hp
    obtain ⟨body, hbody, hb⟩ := kinds_welcome m s c acked
    rw [hbody, hr]
    exact .active n ha fun k hk => .inl (hb k hk)
  | acks ha ha' hk => exact hl.say hs ha ha' (.inr hk)
  | sends ha ha' hk => exact hl.say hs ha ha' (.inl hk)
  | drops hc hd =>
    rw [List.map_nil, List.append_nil]
    rcases hc with hp | ha
    · obtain ⟨n, rfl⟩ := hl.of_awaits hs hp
      exact .givenUp n hd
    · obtain ⟨n, body, hb, rfl⟩ := hl.of_active hs ha
      simpa using Uttered.lost n hd hb (.inl rfl)
  | leaves ha hd hk =>
    obtain ⟨n, body, hb, rfl⟩ := hl.of_active hs ha
    rw [List.map_singleton, hk, List.append_assoc, List.append_assoc]
    exact .lost n hd hb (.inr rfl)

/-- **The order is kept in every run.** -/
theorem Uttered.fared {l : List Kind} (hl : Uttered role s c l) (hr : s.role = role)
    (h : Fared c s s' t) : Uttered role s' c (l ++ t.map (·.message.kind)) := by
  induction h generalizing l with
  | nil => simpa using hl
  | cons hs hsame hf _ ih =>
    rw [List.map_append, ← List.append_assoc]
    exact ih (hl.fares hs hr hf) (hsame.trans hr)

/-! ### The numbers of payloads -/

/-- **The payloads that a connection took have consecutive numbers**, up to the latest if the
connection is active and took everything. -/
structure Counts (s : Session) (c : ConnectionId) (low : Int) (t : List Transmission) : Prop where
  numbered : c < s.nextConnection
  pending : ¬ s.Awaits c
  range : ∃ high, low ≤ high ∧ Message.numbers (heard t) = Int.range low high ∧
    (s.active = some c → (∀ τ ∈ t, τ.taken = true) → high = s.outbox.next)

/-- Something is said that is no payload. -/
theorem Counts.other {low : Int} (h : Counts s c low t) (hn : c < s'.nextConnection)
    (hp : ¬ s'.Awaits c) (hk : ∀ τ ∈ t', τ.message.kind ≠ .send)
    (hnext : s'.active = some c → s.active = some c ∧ s'.outbox.next = s.outbox.next) :
    Counts s' c low (t ++ t') := by
  obtain ⟨high, hle, hrange, hall⟩ := h.range
  refine ⟨hn, hp, high, hle, (Transmission.numbers_heard_append_other t hk).trans hrange, ?_⟩
  intro ha ht
  obtain ⟨ha, hsame⟩ := hnext ha
  exact (hall ha fun τ hτ => ht τ (List.mem_append_left _ hτ)).trans hsame.symm

/-- The next payload is said. -/
theorem Counts.send {low : Int} {τ : Transmission} (h : Counts s c low t) (hs' : s'.Coherent)
    (ha : s.active = some c) (ha' : s'.active = some c) (hk : τ.message.kind = .send)
    (hseq : τ.message.seq = s.outbox.next) (hnext : s'.outbox.next = s.outbox.next + 1) :
    Counts s' c low (t ++ [τ]) := by
  obtain ⟨high, hle, hrange, hall⟩ := h.range
  refine ⟨hs'.numbered c ha', hs'.not_awaits ha', ?_⟩
  by_cases ht : ∀ τ ∈ t, τ.taken = true
  · obtain rfl := hall ha ht
    rw [heard_append ht, Message.numbers_append, hrange]
    cases hτ : τ.taken with
    | true =>
      refine ⟨s'.outbox.next, by omega, ?_, fun _ _ => rfl⟩
      rw [hnext, Sequence.range_concat hle]
      simp [heard, hτ, Message.numbers, hk, hseq]
    | false =>
      refine ⟨s.outbox.next, hle, by simp [heard, hτ], fun _ h => ?_⟩
      simpa [hτ] using h τ (by simp)
  · refine ⟨high, hle, by rw [heard_append_of_refused ht, hrange], fun _ h => ?_⟩
    exact (ht fun τ hτ => h τ (List.mem_append_left _ hτ)).elim

theorem Counts.fares {low : Int} (h : Counts s c low t) (hs' : s'.Coherent)
    (hf : Fares m s s' c t') : Counts s' c low (t ++ t') := by
  cases hf with
  | stays hn hp ha hnext =>
    exact h.other (hn.mpr h.numbered) (mt hp.mp h.pending) (by simp)
      fun hc => ⟨ha.mp hc, hnext (ha.mp hc)⟩
  | opens hn => exact absurd h.numbered (Nat.not_lt.mpr hn)
  | refuses hp | completes _ hp => exact absurd hp h.pending
  | acks ha ha' hk hnext =>
    exact h.other (hs'.numbered c ha') (hs'.not_awaits ha') (by simp [hk]) fun _ => ⟨ha, hnext⟩
  | sends ha ha' hk hseq hnext => exact h.send hs' ha ha' hk hseq hnext
  | drops hc hd => exact h.other hd.numbered hd.pending (by simp) fun ha => (hd.active ha).elim
  | leaves ha hd hk =>
    exact h.other hd.numbered hd.pending (by simp [hk]) fun ha => (hd.active ha).elim

theorem Counts.fared {low : Int} (h : Counts s c low t) (hf : Fared c s s' t') :
    Counts s' c low (t ++ t') := by
  induction hf generalizing t with
  | nil => simpa using h
  | cons hs hr hone hrest ih =>
    rw [← List.append_assoc]
    exact ih (h.fares hrest.coherent hone)

/-- **When a handshake is completed, the replay starts after the highest acknowledgement.** -/
theorem Counts.of_welcome (hs : s.Coherent) (hs' : s'.Coherent) {acked : Int}
    (ha : s'.active = some c) (ho : s'.outbox = (s.outbox.acknowledge acked).2.reconnect)
    (ht : ∀ τ ∈ t, τ.message.kind ≠ .send) :
    Counts s' c (s'.outbox.highestAck + 1) (t ++ s.welcome m c acked) := by
  refine ⟨hs'.numbered c ha, hs'.not_awaits ha, ?_⟩
  have hle := hs'.outbox.high
  have hnumbers := Message.numbers_greetings hs acked
  have hgreetings : Message.numbers (s.greetings acked) =
      Int.range (s'.outbox.highestAck + 1) s'.outbox.next := by
    rw [hnumbers, ho]
    simp [Outbox.reconnect]
  obtain ⟨hfirst, hall⟩ := welcome_prefix m s c acked
  have hnone : Message.numbers (heard t) = [] := Transmission.numbers_heard_append_other [] ht
  by_cases htaken : ∀ τ ∈ t, τ.taken = true
  · rw [heard_append htaken, Message.numbers_append, hnone, List.nil_append]
    by_cases hw : ∀ τ ∈ s.welcome m c acked, τ.taken = true
    · refine ⟨s'.outbox.next, by omega, ?_, fun _ _ => rfl⟩
      rw [Transmission.heard_of_taken hw, hall hw, hgreetings]
    · have hheard := Transmission.heard_prefix (s.welcome m c acked)
      have hheard := Message.numbers_prefix (hheard.trans hfirst)
      rw [hgreetings] at hheard
      obtain ⟨high, hlow, -, hrange⟩ := Sequence.exists_eq_range_of_prefix (by omega) hheard
      refine ⟨high, hlow, hrange, fun _ h => ?_⟩
      exact (hw fun τ hτ => h τ (List.mem_append_right _ hτ)).elim
  · refine ⟨_, le_rfl, ?_, fun _ h => ?_⟩
    · rw [heard_append_of_refused htaken, hnone, Sequence.range_of_le le_rfl]
    · exact (htaken fun τ hτ => h τ (List.mem_append_left _ hτ)).elim

/-! ### The payloads -/

/-- The payloads that are accepted in a run, in order. -/
def acceptedIn (s : Session) : List (Moment × Input) → List Bytes
  | [] => []
  | (m, input) :: rest => s.accepted m input ++ (s.step m input).1.acceptedIn rest

/-- The number that a send is told when it is done, if its payload was accepted. -/
def granted? : Effect → Option Int
  | .sent _ (.ok n) => some n
  | _ => none

/-- The numbers that sends are told, in order. -/
def granted (effects : List Effect) : List Int := effects.filterMap granted?

/-- The numbers that the layer above is told for its payloads in a step. -/
def grants (m : Moment) (s : Session) : Input → List Int
  | .trySend payload =>
    match (s.trySend m payload).answer with
    | .ok n => [n]
    | .error _ => []
  | .send payload => granted (s.send m payload).effects
  | .resume => granted (s.resume m).2
  | _ => []

/-- The numbers that the layer above is told for its payloads in a run. -/
def grantsIn (s : Session) : List (Moment × Input) → List Int
  | [] => []
  | (m, input) :: rest => s.grants m input ++ (s.step m input).1.grantsIn rest

@[simp] theorem granted_append (e e' : List Effect) : granted (e ++ e') = granted e ++ granted e' :=
  List.filterMap_append

theorem Moves.next (h : Moves m s s' t a) (hs : s.Coherent) :
    s'.outbox.next = s.outbox.next + a.length := by
  induction h with
  | nil => simp
  | cons hm _ ih =>
    rw [ih (hm.coherent hs), (hm.progress hs).next, List.length_append]
    omega

theorem Goes.next (h : Goes m s s' t a) (hs : s.Coherent) :
    s'.outbox.next = s.outbox.next + a.length := by
  cases h with
  | acts h => exact h.next hs
  | opens h => exact (h.progress hs).next
  | hears h => exact (h.progress hs).next
  | refuses => simp

/-- A payload is accepted under the next number, if it is. -/
theorem Coherent.trySend_answer (hs : s.Coherent) (m : Moment) (payload : Bytes) :
    (∃ r, (s.trySend m payload).answer = .error r ∧ granted (s.trySend m payload).effects = [] ∧
        s.accepts m payload = []) ∨
      ((s.trySend m payload).answer = .ok s.outbox.next ∧
        granted (s.trySend m payload).effects = [] ∧ s.accepts m payload = [payload]) := by
  unfold accepts
  rcases hs.trySend m payload with ⟨r, h⟩ | ⟨-, -, n, h⟩ | ⟨c, n, -, -, h⟩ <;> rw [h]
  · exact .inl ⟨r, rfl, rfl, rfl⟩
  · exact .inr ⟨rfl, rfl, rfl⟩
  · exact .inr ⟨rfl, rfl, rfl⟩

/-- A send that tries its luck is told the next number if its payload is accepted. -/
theorem Coherent.granted_attempt (hs : s.Coherent) (m : Moment) (w : Waiting) :
    granted (s.attempt m w).2 =
      Int.range s.outbox.next (s.outbox.next + (s.admits m w).length) := by
  have hnone : ([] : List Int) = Int.range s.outbox.next (s.outbox.next + ([] : List Bytes).length) :=
    (Sequence.range_of_le (by simp)).symm
  unfold Session.attempt admits
  by_cases hw : w.woken = false
  · rw [if_pos hw, if_pos hw]
    exact hnone
  rw [if_neg hw, if_neg hw]
  rcases hs.trySend_answer m w.payload with ⟨r, h, heffects, haccepts⟩ | ⟨h, heffects, haccepts⟩
  · simp only [h, haccepts]
    split
    · exact heffects.trans hnone
    · rw [granted_append, heffects]
      exact hnone
  · simp only [h, haccepts, granted_append, heffects]
    exact (Sequence.range_single s.outbox.next).symm

/-- Sends that try their luck one after the other are told consecutive numbers. -/
theorem Coherent.granted_attemptAll (hs : s.Coherent) (m : Moment) (l : List Waiting)
    (e : List Effect) :
    granted (l.foldl (fun (acc : Session × List Effect) w =>
        ((acc.1.attempt m w).1, acc.2 ++ (acc.1.attempt m w).2)) (s, e)).2 =
      granted e ++ Int.range s.outbox.next (s.outbox.next + (s.admitsAll m l).length) := by
  induction l generalizing s e with
  | nil => simp [admitsAll, Sequence.range_of_le]
  | cons w l ih =>
    have hmoves := (hs.attempt m w).1
    have hnext := hmoves.next hs
    rw [List.foldl_cons, ih (hmoves.coherent hs), granted_append, hs.granted_attempt, hnext,
      List.append_assoc, Sequence.range_append (by omega) (by omega), admitsAll, List.length_append,
      Int.natCast_add, Int.add_assoc]

/-- **The layer above is told the number of each payload** that is accepted. -/
theorem Coherent.grants_eq (hs : s.Coherent) (m : Moment) (input : Input) :
    s.grants m input =
      Int.range s.outbox.next (s.outbox.next + (s.accepted m input).length) := by
  cases input with
  | trySend payload =>
    simp only [grants, accepted]
    rcases hs.trySend_answer m payload with ⟨r, h, -, haccepts⟩ | ⟨h, -, haccepts⟩
    · rw [h, haccepts]
      exact (Sequence.range_of_le (by simp)).symm
    · rw [h, haccepts]
      exact (Sequence.range_single s.outbox.next).symm
  | send payload =>
    have hw := Move.wait (m := m) (s := s) s.waiting (s.nextTicket + 1) s.windowEnd
    exact (hw.coherent hs).granted_attempt m ⟨s.nextTicket, payload, true⟩
  | resume =>
    have hw := Move.wait (m := m) (s := s) [] s.nextTicket s.windowEnd
    exact (hw.coherent hs).granted_attemptAll m s.waiting []
  | _ => exact (Sequence.range_of_le (by simp [accepted])).symm

theorem grantsIn_append (s : Session) (l l' : List (Moment × Input)) :
    s.grantsIn (l ++ l') = s.grantsIn l ++ (s.run l).1.grantsIn l' := by
  induction l generalizing s with
  | nil => rfl
  | cons i l ih => simp only [List.cons_append, grantsIn, run, ih, List.append_assoc]

theorem Coherent.grantsIn_eq (hs : s.Coherent) (inputs : List (Moment × Input)) :
    s.grantsIn inputs =
      Int.range s.outbox.next (s.outbox.next + (s.acceptedIn inputs).length) := by
  induction inputs generalizing s with
  | nil => exact (Sequence.range_of_le (by simp [acceptedIn])).symm
  | cons i inputs ih =>
    have hnext := (hs.step_goes i.1 i.2).next hs
    rw [grantsIn, hs.grants_eq, ih (hs.step i.1 i.2), hnext,
      Sequence.range_append (by omega) (by omega), acceptedIn, List.length_append,
      Int.natCast_add, Int.add_assoc]

end Session

namespace Peer

variable {p : Peer} {id : SessionId} {role : Role} {m : Moment} {s s' : Session}
  {t : List Transmission} {a : List Bytes}

/-- What a side said stays true when it makes moves. -/
theorem Sound.moves (hp : p.Sound id role) (hs : p.session = s) (h : s.Moves m s' t a) :
    (p.after s' t a []).Sound id role := by
  induction h generalizing p with
  | nil =>
    subst hs
    rwa [Peer.after_self]
  | cons hm _ ih =>
    subst hs
    have hone := hp.after (d := []) (hm.coherent hp.coherent) (hm.progress hp.coherent)
      (hm.tells hp.coherent)
    simpa using ih hone rfl

/-- What a side said stays true whatever happens to it. A refusal that names another session is not
counted among what it said. -/
theorem Sound.goes (hp : p.Sound id role) (h : p.session.Goes m s' t a) :
    ∃ t', (p.after s' t' a []).Sound id role ∧ ∀ τ ∈ t, τ.message.kind = .send → τ ∈ t' := by
  have hs := hp.coherent
  cases h with
  | acts h => exact ⟨t, hp.moves rfl h, fun τ hτ _ => hτ⟩
  | opens h => exact ⟨t, hp.after (h.coherent hs) (h.progress hs) (h.tells hs), fun τ hτ _ => hτ⟩
  | hears h => exact ⟨t, hp.after (h.coherent hs) (h.progress hs) (h.tells hs), fun τ hτ _ => hτ⟩
  | refuses hc id =>
    refine ⟨[], by rwa [Peer.after_self], fun τ hτ hk => ?_⟩
    rw [List.mem_singleton.mp hτ] at hk
    cases hk

/-- What a side said stays true in every run. -/
theorem Sound.runs (hp : p.Sound id role) (inputs : List (Moment × Session.Input)) :
    ∃ t', (p.after (p.session.run inputs).1 t' (p.session.acceptedIn inputs) []).Sound id role ∧
      ∀ τ ∈ Effect.transmitted (p.session.run inputs).2, τ.message.kind = .send → τ ∈ t' := by
  induction inputs generalizing p with
  | nil => exact ⟨[], by simpa [Session.run, Session.acceptedIn] using hp, nofun⟩
  | cons i inputs ih =>
    obtain ⟨t, hone, ht⟩ := hp.goes (hp.coherent.step_goes i.1 i.2)
    obtain ⟨t', hrest, ht'⟩ := ih hone
    refine ⟨t ++ t', by simpa [Session.run, Session.acceptedIn] using hrest, fun τ hτ hk => ?_⟩
    simp only [Session.run, Effect.transmitted_append, List.mem_append] at hτ ⊢
    exact hτ.imp (ht τ · hk) (ht' τ · hk)

end Peer

namespace Session

variable {m : Moment} {s s' : Session} {t : List Transmission} {a : List Bytes} {c : ConnectionId}

/-! ### Every run -/

/-- A pending connection becomes the active one when it completes its handshake. -/
theorem Fares.completed (h : Fares m s s' c t) (hs : s.Coherent) (hs' : s'.Coherent)
    (hp : s.Awaits c) (ha : s'.active = some c) :
    ∃ acked, t = s.welcome m c acked ∧ s'.outbox = (s.outbox.acknowledge acked).2.reconnect := by
  have hnot : s.active ≠ some c := fun ha => hs.not_awaits ha hp
  cases h with
  | completes acked _ _ ho => exact ⟨acked, rfl, ho⟩
  | stays _ _ ha' => exact (hnot (ha'.mp ha)).elim
  | opens hn => exact absurd (hs.numbered_of_awaits hp) (Nat.not_lt.mpr hn)
  | refuses _ hp' => exact (hs'.not_awaits ha hp').elim
  | acks ha' | sends ha' | leaves ha' => exact (hnot ha').elim
  | drops _ hd => exact (hd.active ha).elim

theorem Goes.completed (h : Goes m s s' t a) (hs : s.Coherent) (hp : s.Awaits c)
    (ha : s'.active = some c) : ∃ acked, handedTo c t = s.welcome m c acked ∧
      s'.outbox = (s.outbox.acknowledge acked).2.reconnect := by
  have hnot : s.active ≠ some c := fun ha => hs.not_awaits ha hp
  cases h with
  | acts h => exact (hnot ((h.keeps hs).active c ha)).elim
  | opens h => exact (h.fares hs c).completed hs (h.coherent hs) hp ha
  | hears h => exact (h.fares hs c).completed hs (h.coherent hs) hp ha
  | refuses => exact (hnot ha).elim

/-- After a handshake is completed, the payloads that the connection takes are counted from the
lowest that was not acknowledged then. -/
theorem Coherent.counts_run (hs : s.Coherent) {input : Input} (hp : s.Awaits c)
    (ha : (s.step m input).1.active = some c) (ht : ∀ τ ∈ t, τ.message.kind ≠ .send)
    (after : List (Moment × Input)) :
    let s' := (s.step m input).1
    Counts (s'.run after).1 c (s'.outbox.highestAck + 1)
      (t ++ handedTo c (Effect.transmitted (s.run ((m, input) :: after)).2)) := by
  intro s'
  have hs' := hs.step m input
  obtain ⟨acked, hwelcome, ho⟩ := (hs.step_goes m input).completed hs hp ha
  have hcounts := (Counts.of_welcome (m := m) hs hs' ha ho ht).fared (hs'.run_fared after c)
  rw [← hwelcome, List.append_assoc] at hcounts
  simpa only [Session.run, Effect.transmitted_append, Transmission.handedTo_append] using hcounts

/-- **What a session says on a connection in a run**, whatever comes over its connections.

It keeps to the order. When it let go of the connection, it says nothing on it any more. If the
connection takes nothing after what it refused, then the payloads that it took have consecutive
numbers, from the lowest that was not acknowledged when the handshake was completed. And a payload
that is said with a number, on any connection, is the one that was accepted under it. -/
theorem wire_discipline {role : Role} {id : SessionId} {config : Config} {now : Nat} {s₀ : Session}
    (h : create role id config now = .ok s₀) (inputs : List (Moment × Input)) (c : ConnectionId) :
    let s := (s₀.run inputs).1
    let said := Effect.transmitted (s₀.run inputs).2
    Uttered role s c ((handedTo c said).map (·.message.kind)) ∧
      (∀ m input, LetsGo m s c input →
        (input ≠ .close → handedTo c (Effect.transmitted (s.step m input).2) = []) ∧
          ∀ later, handedTo c (Effect.transmitted ((s.step m input).1.run later).2) = []) ∧
      (∀ before m input after, inputs = before ++ (m, input) :: after →
        let s₁ := (s₀.run before).1
        let s₂ := (s₁.step m input).1
        s₁.Awaits c → s₂.active = some c →
        (handedTo c said).Pairwise (fun τ τ' => τ'.taken = true → τ.taken = true) →
        ∃ n : Nat, Message.numbers (((handedTo c said).filter (·.taken)).map (·.message)) =
          Int.range (s₂.outbox.sequences.headD s₂.outbox.next)
            (s₂.outbox.sequences.headD s₂.outbox.next + n)) ∧
      (∀ τ ∈ said, τ.message.kind = .send → 0 ≤ τ.message.seq ∧
        (s₀.acceptedIn inputs)[τ.message.seq.toNat]? = some τ.message.payload) ∧
      s₀.grantsIn inputs = Int.range 0 (s₀.acceptedIn inputs).length := by
  intro s said
  obtain rfl : s₀ = start role id config now := by
    unfold create at h
    split at h <;> cases h
    rfl
  have hs₀ := Sound.start h
  have hsaid (inputs : List (Moment × Input)) : Uttered role
      ((start role id config now).run inputs).1 c ((handedTo c (Effect.transmitted
        ((start role id config now).run inputs).2)).map (·.message.kind)) :=
    Uttered.fared (l := []) (.unknown (Nat.zero_le c)) rfl (hs₀.1.run_fared inputs c)
  refine ⟨hsaid inputs, fun m input hl => (hs₀.run inputs).letsGo hl, ?_, ?_, ?_⟩
  · intro before m input after hinputs s₁ s₂ hp ha hpair
    have hs₁ := hs₀.run before
    have hs₂ := hs₁.step m input
    obtain ⟨n, hprologue⟩ := (hsaid before).of_awaits hs₁.1 hp
    -- before the handshake is completed, no payload is said
    have hnone : ∀ τ ∈ handedTo c (Effect.transmitted ((start role id config now).run before).2),
        τ.message.kind ≠ .send := by
      intro τ hτ hk
      have hmem : Kind.send ∈ role.prologue n := by
        rw [← hprologue, ← hk]
        exact List.mem_map_of_mem hτ
      exact role.send_notMem_prologue n hmem
    have hlog : handedTo c said = handedTo c (Effect.transmitted
        ((start role id config now).run before).2) ++
          handedTo c (Effect.transmitted (s₁.run ((m, input) :: after)).2) := by
      simp only [said, hinputs, run_append_effects, Effect.transmitted_append,
        Transmission.handedTo_append, s₁]
    obtain ⟨high, hle, hrange, -⟩ := (hs₁.1.counts_run hp ha hnone after).range
    obtain ⟨n, rfl⟩ : ∃ n : Nat, high = s₂.outbox.highestAck + 1 + n :=
      Int.exists_add_of_le hle
    rw [Transmission.heard_of_pairwise hpair, hlog, hrange, hs₂.1.outbox.lowest]
    exact ⟨n, rfl⟩
  · intro τ hτ hk
    obtain ⟨t, hsound, ht⟩ := (Peer.Sound.create h).runs inputs
    have htrue := hsound.truthful τ.message (List.mem_map_of_mem (ht τ hτ hk))
    exact (htrue.body.resolve_right fun hb => hb.1 hk).2
  · have hgrants := hs₀.1.grantsIn_eq inputs
    simpa [start, Outbox.new] using hgrants

/-- A client sends while it has no connection, and comes back before the server knows of a loss.
On the second connection it is asked for another session once, and the last payload but the
goodbye is more than the connection takes. -/
def comeback (m : Moment) : List (Moment × Input) :=
  let agree (c : Nat) (acked : Int) : Input := .frame c (Message.handshakeOk (.ofNat 1) acked).encode
  [(m, .trySend [10]), (m, .connect), (m, .send [11]), (m, agree 0 noSequence), (m, .connect),
    (m, .frame 1 (Message.handshake (.ofNat 2) 0 noSequence).encode), (m, agree 1 0),
    (m, .trySend [12]), (m, .trySend [13]), (m, .close)]

/-- The client keeps to the order, and the second connection takes the payloads from the first one
that was not acknowledged. -/
theorem wire_discipline_comeback :
    let m : Moment := ⟨0, fun _ x => x.kind ≠ .goodbye ∧ x.seq < 3⟩
    let s₀ := start .client (.ofNat 1) {} 0
    let s := (s₀.run (comeback m)).1
    let log := handedTo 1 (Effect.transmitted (s₀.run (comeback m)).2)
    log.map (·.message.kind) =
        [.handshake, .handshakeFail, .send, .send, .send, .goodbye] ∧
      Uttered .client s 1 (log.map (·.message.kind)) ∧
      (∃ n : Nat, Message.numbers ((log.filter (·.taken)).map (·.message)) =
        Int.range 1 (1 + n)) ∧
      (∀ later, handedTo 1 (Effect.transmitted ((s.step m (.disconnected 1 false)).1.run later).2) =
        []) ∧
      s₀.grantsIn (comeback m) = [0, 1, 2, 3] := by
  intro m s₀ s log
  have hs₀ : create .client (.ofNat 1) {} 0 = .ok s₀ := rfl
  obtain ⟨huttered, hsilent, hcounted, -, hgrants⟩ := wire_discipline hs₀ (comeback m) 1
  have hlog : log.map (·.message.kind) =
      [.handshake, .handshakeFail, .send, .send, .send, .goodbye] := by decide +kernel
  refine ⟨hlog, huttered, ?_, ?_, ?_⟩
  · let agree : Input := .frame 1 (Message.handshakeOk (.ofNat 1) 0).encode
    have hsplit : comeback m = (comeback m).take 6 ++ (m, agree) :: (comeback m).drop 7 := rfl
    have hpending : (s₀.run ((comeback m).take 6)).1.Awaits 1 := awaits_iff.mp (by decide +kernel)
    have hactive : ((s₀.run ((comeback m).take 6)).1.step m agree).1.active = some 1 := by
      decide +kernel
    have hlow : (((s₀.run ((comeback m).take 6)).1.step m agree).1.outbox.sequences.headD
        ((s₀.run ((comeback m).take 6)).1.step m agree).1.outbox.next) = 1 := by decide +kernel
    have hpairwise : log.Pairwise fun τ τ' => τ'.taken = true → τ.taken = true := by
      decide +kernel
    obtain ⟨n, hn⟩ := hcounted _ m agree _ hsplit hpending hactive hpairwise
    rw [hlow] at hn
    exact ⟨n, hn⟩
  · exact (hsilent m _ (.lost false (by decide +kernel) rfl)).2
  · rw [hgrants]
    decide +kernel

end Session

end Tether
