import Tether.Proofs.Session.Clock
import Tether.Proofs.Session.Transport

/-!
# What a session acknowledges

Payloads, acknowledgements and both sides of a handshake tell the peer what was received, and a
session says them on many occasions. Whatever the occasion, the number in them is the latest that
was received (`Goes.acknowledgements`), and what was delivered has the numbers up to that one
(`Coherent.deliveriesIn_eq`). So what a session acknowledges is true, and it never takes back what
it acknowledged on any of its connections.

Main result: this holds in every run (`acknowledges_received`).
-/

namespace Tether

/-- The message tells the peer what was received. -/
def Kind.Acknowledges (k : Kind) : Prop :=
  k = .send ∨ k = .ack ∨ k = .handshake ∨ k = .handshakeOk

instance (k : Kind) : Decidable k.Acknowledges := inferInstanceAs (Decidable (_ ∨ _))

namespace Transmission

/-- What the peer is told to have been received, in order. -/
def acknowledgements (t : List Transmission) : List Int :=
  (t.filter (·.message.kind.Acknowledges)).map (·.message.acked)

variable {t t' : List Transmission} {n : Int}

@[simp] theorem acknowledgements_append :
    acknowledgements (t ++ t') = acknowledgements t ++ acknowledgements t' := by
  simp [acknowledgements]

theorem mem_acknowledgements :
    n ∈ acknowledgements t ↔ ∃ τ ∈ t, τ.message.kind.Acknowledges ∧ τ.message.acked = n := by
  simp [acknowledgements, and_assoc]

end Transmission

open Transmission (acknowledgements acknowledgements_append mem_acknowledgements)

namespace Session

variable {m : Moment} {s s' : Session} {t : List Transmission} {a d : List Bytes}
  {c : ConnectionId} {x : Message}

section
variable (m : Moment) (c : ConnectionId) (id : SessionId) (seq acked : Int) (payload : Bytes)

@[simp] theorem acknowledgements_send :
    acknowledgements [handing m c (.send id seq acked payload)] = [acked] := rfl

@[simp] theorem acknowledgements_ack : acknowledgements [handing m c (.ack id acked)] = [acked] :=
  rfl

@[simp] theorem acknowledgements_handshake (count : Int) :
    acknowledgements [handing m c (.handshake id count acked)] = [acked] := rfl

@[simp] theorem acknowledgements_goodbye : acknowledgements [handing m c (.goodbye id)] = [] := rfl

@[simp] theorem acknowledgements_handshakeFail :
    acknowledgements [handing m c (.handshakeFail id)] = [] := rfl

end

/-! ### What is acknowledged -/

theorem Move.received (h : Move m s s' t a) : s'.inbox.received = s.inbox.received := by
  cases h <;> rfl

theorem Move.acknowledgements (h : Move m s s' t a) :
    ∀ n ∈ acknowledgements t, n = s'.inbox.received := by
  cases h with
  | wait | defer | giveUp | lose | finish => nofun
  | send | flush => simp [Inbox.flush]
  | farewell => simp

theorem Moves.acknowledgements (h : Moves m s s' t a) :
    s'.inbox.received = s.inbox.received ∧ ∀ n ∈ acknowledgements t, n = s'.inbox.received := by
  induction h with
  | nil => exact ⟨rfl, nofun⟩
  | cons hm _ ih =>
    obtain ⟨hsame, hrest⟩ := ih
    refine ⟨hsame.trans hm.received, fun n hn => ?_⟩
    rw [acknowledgements_append, List.mem_append] at hn
    exact hn.elim (fun hn => (hm.acknowledgements n hn).trans hsame.symm) (hrest n)

theorem Opens.acknowledgements (h : Opens m s s' t) :
    ∀ n ∈ acknowledgements t, n = s'.inbox.received := by
  cases h with
  | refused | waits => nofun
  | asks => simp [Inbox.flush]

/-- All that is said when a handshake is completed tells what was received. -/
theorem acked_welcome {τ : Transmission} {acked : Int} (h : τ ∈ s.welcome m c acked) :
    τ.message.kind.Acknowledges ∧ τ.message.acked = s.inbox.received := by
  rcases List.mem_append.mp h with h | h
  · split at h
    · obtain rfl := List.mem_singleton.mp h
      exact ⟨by simp [Kind.Acknowledges, handing, Message.handshakeOk, Message.control], rfl⟩
    · cases h
  · obtain ⟨r, -, hr⟩ := List.mem_map.mp (mem_handAll h).2
    rw [← hr]
    exact ⟨.inl rfl, rfl⟩

theorem Hears.acknowledgements (h : Hears m s c x s' t d) :
    ∀ n ∈ acknowledgements t, n = s'.inbox.received := by
  cases h with
  | ignored | held | acked | left => nofun
  | completed =>
    intro n hn
    obtain ⟨τ, hτ, -, rfl⟩ := mem_acknowledgements.mp hn
    exact (acked_welcome hτ).2
  | answered | repeated => simp [Inbox.flush]

/-- **Whatever a step acknowledges is what was received.** -/
theorem Goes.acknowledgements (h : Goes m s s' t a) :
    ∀ n ∈ acknowledgements t, n = s'.inbox.received := by
  cases h with
  | acts h => exact h.acknowledgements.2
  | opens h => exact h.acknowledgements
  | hears h => exact h.acknowledgements
  | refuses => simp

/-- **What is acknowledged in a run only grows**, from what was received before it to what was
received at its end. -/
theorem Coherent.acknowledgements_run (hs : s.Coherent) (inputs : List (Moment × Input)) :
    let said := acknowledgements (Effect.transmitted (s.run inputs).2)
    said.Pairwise (· ≤ ·) ∧
      ∀ n ∈ said, s.inbox.received ≤ n ∧ n ≤ (s.run inputs).1.inbox.received := by
  induction inputs generalizing s with
  | nil => exact ⟨.nil, nofun⟩
  | cons i inputs ih =>
    have hs' := hs.step i.1 i.2
    have hstep := (hs.step_goes i.1 i.2).acknowledgements
    have hgrows := (hs.step_grows i.1 i.2).received
    have hgrows' := (hs'.run_grows inputs).received
    obtain ⟨hpair, hrange⟩ := ih hs'
    simp only [run, Effect.transmitted_append, acknowledgements_append, List.mem_append]
    refine ⟨List.pairwise_append.mpr ⟨?_, hpair, fun n hn n' hn' => ?_⟩, fun n hn => ?_⟩
    · exact List.pairwise_of_forall_mem_list fun n hn n' hn' =>
        ((hstep n hn).trans (hstep n' hn').symm).le
    · exact (hstep n hn).le.trans (hrange n' hn').1
    · rcases hn with hn | hn
      · rw [hstep n hn]
        exact ⟨hgrows, hgrows'⟩
      · exact ⟨hgrows.trans (hrange n hn).1, (hrange n hn).2⟩

/-! ### What is delivered -/

/-- What is delivered in a step, with the number under which it came. -/
def deliveries (m : Moment) (s : Session) : Input → List (Int × Bytes)
  | .frame c bytes =>
    match Message.decode bytes with
    | .error _ => []
    | .ok x => (Effect.delivered (s.receiveMessage m c x).effects).map (x.seq, ·)
  | _ => []

/-- What is delivered in a run, with the numbers under which it came. -/
def deliveriesIn (s : Session) : List (Moment × Input) → List (Int × Bytes)
  | [] => []
  | (m, input) :: rest => s.deliveries m input ++ (s.step m input).1.deliveriesIn rest

/-- The next message is delivered, or nothing. -/
theorem Hears.delivers (h : Hears m s c x s' t d) :
    (d = [] ∧ s'.inbox.received = s.inbox.received) ∨
      (d = [x.payload] ∧ x.seq = s.inbox.received + 1 ∧ s'.inbox.received = x.seq ∧
        (t = [] ∨ t = [handing m c (.ack s.id x.seq)])) := by
  cases h with
  | ignored | completed | repeated | acked | left => exact .inl ⟨rfl, rfl⟩
  | held waiting hc hk hn => exact .inr ⟨rfl, hn, rfl, .inl rfl⟩
  | answered waiting hc hk hn => exact .inr ⟨rfl, hn, rfl, .inr rfl⟩

/-- **A step delivers the next message, or nothing.** While it delivers one, it says nothing but
that it was received. -/
theorem Coherent.step_delivers (hs : s.Coherent) (m : Moment) (input : Input) :
    let s' := (s.step m input).1
    let delivered := s.deliveries m input
    delivered.map (·.2) = Effect.delivered (s.step m input).2 ∧
      ((delivered = [] ∧ s'.inbox.received = s.inbox.received) ∨
        ∃ payload, delivered = [(s'.inbox.received, payload)] ∧
          s'.inbox.received = s.inbox.received + 1 ∧
          (Effect.transmitted (s.step m input).2 = [] ∨ ∃ c, Effect.transmitted (s.step m input).2 =
            [handing m c (.ack s.id s'.inbox.received)])) := by
  intro s' delivered
  by_cases hi : input.Own
  · have hnone : delivered = [] := by
      cases input with
      | connect | frame => exact hi.elim
      | _ => rfl
    rw [hnone, (hs.step_moves m hi).2]
    exact ⟨rfl, .inl ⟨rfl, (hs.step_keeps m input hi).received⟩⟩
  cases input with
  | connect =>
    obtain ⟨hopens, hnone⟩ := opens_connect m s
    exact ⟨hnone.symm, .inl ⟨rfl, hopens.received⟩⟩
  | frame c bytes =>
    simp only [delivered, s', deliveries, Session.step, Session.receive]
    cases Message.decode bytes with
    | error e => exact ⟨rfl, .inl ⟨rfl, rfl⟩⟩
    | ok x =>
      refine ⟨by simp, ?_⟩
      by_cases hx : x.session = s.id
      · rcases (hs.receiveMessage m c hx).delivers with ⟨hd, hsame⟩ | ⟨hd, hn, hnew, hsaid⟩
        · exact .inl ⟨by simp [hd], hsame⟩
        · refine .inr ⟨x.payload, by simp [hd, hnew], hnew.trans hn, hsaid.imp_right fun h => ?_⟩
          exact ⟨c, by rw [h, hnew]⟩
      · refine .inl ⟨?_, by simp [Session.receiveMessage, hx]⟩
        simp only [Session.receiveMessage, hx, ne_eq, not_false_eq_true, if_true]
        split <;> rfl
  | _ => exact (hi trivial).elim

/-- **What is delivered in a run has consecutive numbers.** -/
theorem Coherent.deliveriesIn_eq (hs : s.Coherent) (inputs : List (Moment × Input)) :
    (s.deliveriesIn inputs).map (·.1) =
        Int.range (s.inbox.received + 1) ((s.run inputs).1.inbox.received + 1) ∧
      (s.deliveriesIn inputs).map (·.2) = Effect.delivered (s.run inputs).2 := by
  induction inputs generalizing s with
  | nil => exact ⟨(Sequence.range_of_le le_rfl).symm, rfl⟩
  | cons i inputs ih =>
    have hs' := hs.step i.1 i.2
    have hgrows := (hs.step_grows i.1 i.2).received
    have hgrows' := (hs'.run_grows inputs).received
    obtain ⟨hpayloads, hstep⟩ := hs.step_delivers i.1 i.2
    obtain ⟨hnumbers, hrest⟩ := ih hs'
    have hone : (s.deliveries i.1 i.2).map (·.1) = Int.range (s.inbox.received + 1)
        ((s.step i.1 i.2).1.inbox.received + 1) := by
      rcases hstep with ⟨hnone, hsame⟩ | ⟨payload, hsome, hnext, -⟩
      · rw [hnone, hsame]
        exact (Sequence.range_of_le le_rfl).symm
      · rw [hsome, hnext]
        exact (Sequence.range_single _).symm
    simp only [deliveriesIn, run, List.map_append, Effect.delivered_append, hone, hnumbers,
      hpayloads, hrest, and_true]
    exact Sequence.range_append (by omega) (by omega)

/-! ### Every run -/

/-- **What a session acknowledges is what it received**, whatever comes over its connections.

At any time the messages up to the latest that was received were delivered, in order and each
once, and no other. Every payload, acknowledgement and handshake that the session hands to a
connection next carries the number of that message, and if it receives one then it says nothing
but that. So what it acknowledges never decreases, over all its connections, and at the end of each
operation it is not more than was delivered. Within one it may be ahead: the acknowledgement of a
message is handed over just before the message itself is given to the layer above. What was received
never decreases, nor what was noted as acknowledged. -/
theorem acknowledges_received {role : Role} {id : SessionId} {config : Config} {now : Nat}
    {s₀ : Session} (h : create role id config now = .ok s₀) (inputs : List (Moment × Input)) :
    let s := (s₀.run inputs).1
    let delivered := s₀.deliveriesIn inputs
    let acked := acknowledgements (Effect.transmitted (s₀.run inputs).2)
    (delivered.map (·.1) = Int.range 0 (s.inbox.received + 1) ∧
        delivered.map (·.2) = Effect.delivered (s₀.run inputs).2) ∧
      (acked.Pairwise (· ≤ ·) ∧ ∀ n ∈ acked, n ≤ s.inbox.received) ∧
      ∀ m input,
        let s' := (s.step m input).1
        let said := Effect.transmitted (s.step m input).2
        (∀ τ ∈ said, τ.message.kind.Acknowledges → τ.message.acked = s'.inbox.received) ∧
          (s'.inbox.received = s.inbox.received ∨ s'.inbox.received = s.inbox.received + 1 ∧
            (said = [] ∨ ∃ c, said = [handing m c (.ack s.id s'.inbox.received)])) ∧
          s.inbox.received ≤ s'.inbox.received ∧ s.inbox.acked ≤ s'.inbox.acked := by
  intro s delivered acked
  have hs₀ := Sound.start h
  have hs : s.Coherent := (hs₀.run inputs).1
  have hnone : s₀.inbox.received = -1 := by
    rw [eq_start h]
    rfl
  have hdelivered := hs₀.1.deliveriesIn_eq inputs
  rw [hnone] at hdelivered
  obtain ⟨hpair, hrange⟩ := hs₀.1.acknowledgements_run inputs
  refine ⟨hdelivered, ⟨hpair, fun n hn => (hrange n hn).2⟩, fun m input => ?_⟩
  intro s' said
  have hgoes := hs.step_goes m input
  have hgrows := hs.step_grows m input
  refine ⟨fun τ hτ hk => ?_, ?_, hgrows.received, hgrows.acked⟩
  · exact hgoes.acknowledgements _ (mem_acknowledgements.mpr ⟨τ, hτ, hk, rfl⟩)
  · rcases (hs.step_delivers m input).2 with ⟨-, hsame⟩ | ⟨payload, -, hnext, hsaid⟩
    · exact .inl hsame
    · exact .inr ⟨hnext, hsaid⟩

/-- A client gets payloads and sends one, and goes over to a second connection. There a payload
comes again, one comes too early, and then the next one. -/
def traffic (m : Moment) : List (Moment × Input) :=
  let agree (c : Nat) : Input := .frame c (Message.handshakeOk (.ofNat 1) noSequence).encode
  let payload (c : Nat) (n : Int) : Input :=
    .frame c (Message.send (.ofNat 1) n noSequence []).encode
  [(m, .connect), (m, agree 0), (m, payload 0 0), (m, .trySend [7]), (m, payload 0 1),
    (m, payload 0 2), (m, .connect), (m, payload 0 3), (m, agree 1), (m, payload 1 3),
    (m, payload 1 9), (m, payload 1 4)]

/-- It asks for handshakes, sends and replays the payload, acknowledges two payloads at once, and
answers those that are out of order. What it held back at last it acknowledges when it is time. -/
theorem acknowledges_received_traffic :
    let m : Moment := ⟨0, fun _ _ => true⟩
    let s₀ := start .client (.ofNat 1) { maxDelayedAcks := 2 } 0
    let s := (s₀.run (traffic m)).1
    let acked := acknowledgements (Effect.transmitted (s₀.run (traffic m)).2)
    let said := Effect.transmitted (s.step m .flush).2
    acked = [-1, 0, 2, 2, 3, 3, 3] ∧ acked.Pairwise (· ≤ ·) ∧
      (s₀.deliveriesIn (traffic m)).map (·.1) = Int.range 0 5 ∧
      said.map (·.message.kind) = [.ack] ∧ ∀ τ ∈ said, τ.message.acked = 4 := by
  intro m s₀ s acked said
  have hs₀ : create .client (.ofNat 1) { maxDelayedAcks := 2 } 0 = .ok s₀ := rfl
  obtain ⟨⟨hnumbers, -⟩, ⟨hpair, -⟩, hstep⟩ := acknowledges_received hs₀ (traffic m)
  have hreceived : s.inbox.received = 4 ∧ (s.step m .flush).1.inbox.received = 4 := by
    decide +kernel
  have hkinds : said.map (·.message.kind) = [.ack] := by decide +kernel
  have hall : ∀ τ ∈ said, τ.message.kind.Acknowledges := by
    intro τ hτ
    have hk : τ.message.kind ∈ said.map (·.message.kind) := List.mem_map_of_mem hτ
    rw [hkinds] at hk
    exact .inr (.inl (List.mem_singleton.mp hk))
  refine ⟨by decide +kernel, hpair, ?_, hkinds, fun τ hτ => ?_⟩
  · rw [hnumbers, hreceived.1]
    rfl
  · rw [(hstep m .flush).1 τ hτ (hall τ hτ), hreceived.2]

end Session

end Tether
