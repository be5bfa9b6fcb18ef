import Tether.Proofs.Session.Discipline
import Tether.Proofs.Session.Senders

/-!
# What awaits a connection

Payloads that are accepted while there is no connection await the next one. An outbox counts them,
and accepts no more than the queue cap allows. When a connection completes its handshake all that is
retained is replayed on it, and the count starts over. But the connection may not take all of it,
and then there are messages that no connection ever took and that are no longer counted
(`Outbox.Behind`).

Main result: the messages that await a connection are at most as many as the queue cap, once more
for each replay that broke off since one was taken in full (`backlog_le`).
-/

namespace Tether

/-- The numbers of the payloads that connections took. -/
def Transmission.carried (t : List Transmission) : List Int :=
  Message.numbers ((t.filter (·.taken)).map (·.message))

theorem Transmission.carried_append (t t' : List Transmission) :
    carried (t ++ t') = carried t ++ carried t' := by
  simp [carried]

/-- The numbers in a range that were deferred and not carried. -/
def missed (deferred carried : List Int) (low high : Int) : List Int :=
  (Int.range low high).filter fun n => n ∈ deferred ∧ n ∉ carried

section
variable {deferred carried deferred' carried' : List Int} {low high : Int}

theorem length_missed_le : (missed deferred carried low high).length ≤ (high - low).toNat := by
  refine (List.length_filter_le ..).trans_eq ?_
  simp [Int.range]

theorem missed_append (mid : Int) (h₁ : low ≤ mid) (h₂ : mid ≤ high) :
    missed deferred carried low mid ++ missed deferred carried mid high =
      missed deferred carried low high := by
  rw [missed, missed, ← List.filter_append, Sequence.range_append h₁ h₂]
  rfl

theorem missed_eq_nil (h : ∀ n ∈ Int.range low high, n ∈ deferred → n ∈ carried) :
    missed deferred carried low high = [] :=
  List.filter_eq_nil_iff.mpr fun n hn => by simpa using h n hn

/-- Fewer numbers are missed if more are carried. -/
theorem length_missed_mono
    (h : ∀ n ∈ Int.range low high, n ∈ deferred' → n ∉ carried' → n ∈ deferred ∧ n ∉ carried) :
    (missed deferred' carried' low high).length ≤ (missed deferred carried low high).length := by
  unfold missed
  rw [← List.countP_eq_length_filter, ← List.countP_eq_length_filter]
  refine List.countP_mono_left fun n hn hm => ?_
  obtain ⟨hd, hc⟩ := of_decide_eq_true hm
  exact decide_eq_true (h n hn hd hc)

end

/-! ### Outboxes -/

namespace Outbox

/-- Some payloads are accepted, and what awaits a connection is counted. -/
structure Fills (o o' : Outbox) : Prop where
  queueCap : o'.queueCap = o.queueCap
  connected : o'.connected = o.connected
  highestAck : o'.highestAck = o.highestAck
  next : o.next ≤ o'.next
  counted : (o'.unsent : Int) = o.unsent + if o.connected then 0 else o'.next - o.next
  capped : o.unsent ≤ o.queueCap → o'.unsent ≤ o.queueCap

variable {o o' o'' : Outbox} {deferred carried : List Int} {cap k : Nat}

theorem Fills.refl (o : Outbox) : o.Fills o := ⟨rfl, rfl, rfl, le_rfl, by simp, fun h => h⟩

theorem Fills.trans (h : o.Fills o') (h' : o'.Fills o'') : o.Fills o'' where
  queueCap := h'.queueCap.trans h.queueCap
  connected := h'.connected.trans h.connected
  highestAck := h'.highestAck.trans h.highestAck
  next := h.next.trans h'.next
  counted := by
    have hcounted := h.counted
    have hcounted' := h'.counted
    rw [h.connected] at hcounted'
    by_cases hc : o.connected = true
    · rw [if_pos hc] at hcounted hcounted' ⊢
      omega
    · rw [if_neg hc] at hcounted hcounted' ⊢
      omega
  capped := fun hle => h.queueCap ▸ h'.capped (h.queueCap.symm ▸ h.capped hle)

/-- A payload is accepted without a connection only if there is room in the queue. -/
theorem fills_accept {payload : Bytes} {a : Accepted} (h : o.accept payload = .ok (a, o')) :
    o.Fills o' := by
  have hroom : ¬ o.QueueFull := by
    intro hfull
    have hrefused : o.refusal? payload ≠ none := by
      unfold refusal?
      split_ifs <;> simp
    unfold accept at h
    split at h
    · cases h
    · next hnone => exact hrefused hnone
  obtain ⟨-, ⟨hc, rfl, rfl⟩ | ⟨hc, rfl, rfl⟩⟩ := accept_eq_ok h
  · exact ⟨rfl, rfl, rfl, by simp [retain], by simp [retain, hc], fun h => h⟩
  · refine ⟨rfl, rfl, rfl, by simp [retain], by simp [retain, hc], fun _ => ?_⟩
    exact not_le.mp fun hle => hroom ⟨hc, hle⟩

/-- **What an outbox no longer counts**: of the messages before those it counts, no more were
deferred and not carried than the cap allows, once for each replay that broke off. -/
structure Behind (o : Outbox) (cap : Nat) (deferred carried : List Int) (broken : Nat) :
    Prop where
  queueCap : o.queueCap = cap
  /-- What was deferred has a number that was given out. -/
  known : ∀ n ∈ deferred, n < o.next
  /-- What is counted is not acknowledged. -/
  low : o.highestAck < o.next - o.unsent
  capped : o.unsent ≤ cap
  connected : o.connected = true → o.unsent = 0
  missed : (missed deferred carried (o.highestAck + 1) (o.next - o.unsent)).length ≤ cap * broken

theorem Behind.carry (h : o.Behind cap deferred carried k) (more : List Int) :
    o.Behind cap deferred (carried ++ more) k :=
  { h with
    missed := (length_missed_mono fun _ _ hd hn =>
      ⟨hd, fun hc => hn (List.mem_append_left _ hc)⟩).trans h.missed }

/-- What is accepted while there is a connection is not deferred. -/
theorem Behind.fills_of_connected (h : o.Behind cap deferred carried k) (hf : o.Fills o')
    (hc : o.connected = true) : o'.Behind cap deferred carried k := by
  have hnext := hf.next
  have hlow := h.low
  have hmissed := h.missed
  have hcounted := hf.counted
  have hzero := h.connected hc
  have hzero' : o'.unsent = 0 := by
    rw [if_pos hc] at hcounted
    omega
  rw [hzero, Int.natCast_zero, sub_zero] at hlow hmissed
  have hlater : Tether.missed deferred carried o.next o'.next = [] := by
    refine missed_eq_nil fun n hn hd => ?_
    have hold := h.known n hd
    have hnew := (Int.mem_range_iff.mp hn).1
    omega
  refine ⟨hf.queueCap.trans h.queueCap, fun n hn => (h.known n hn).trans_le hnext, ?_, ?_,
    fun _ => hzero', ?_⟩
  · rw [hf.highestAck, hzero']
    exact (hlow.trans_le hnext).trans_eq (sub_zero _).symm
  · rw [hzero']
    exact Nat.zero_le cap
  · rw [hf.highestAck, hzero', Int.natCast_zero, sub_zero, ← missed_append o.next hlow hnext, hlater,
      List.append_nil]
    exact hmissed

/-- What is accepted while there is no connection is deferred and counted. -/
theorem Behind.fills_of_disconnected (h : o.Behind cap deferred carried k) (hf : o.Fills o')
    (hc : o.connected = false) :
    o'.Behind cap (deferred ++ Int.range o.next o'.next) carried k := by
  have hlow := h.low
  have hsame : o'.next - o'.unsent = o.next - o.unsent := by
    have hcounted := hf.counted
    simp only [hc, Bool.false_eq_true, if_false] at hcounted
    omega
  refine ⟨hf.queueCap.trans h.queueCap, fun n hn => ?_, ?_, ?_, fun hc' => ?_, ?_⟩
  · rcases List.mem_append.mp hn with hn | hn
    · exact (h.known n hn).trans_le hf.next
    · exact (Int.mem_range_iff.mp hn).2
  · rw [hf.highestAck, hsame]
    exact hlow
  · exact h.queueCap ▸ hf.capped (h.queueCap.symm ▸ h.capped)
  · rw [hf.connected, hc] at hc'
    cases hc'
  · rw [hf.highestAck, hsame]
    refine (length_missed_mono fun n hn hd hcarried => ⟨?_, hcarried⟩).trans h.missed
    refine (List.mem_append.mp hd).resolve_right fun hd => ?_
    have hold := (Int.mem_range_iff.mp hn).2
    have hnew := (Int.mem_range_iff.mp hd).1
    omega

theorem acknowledge_queueCap (o : Outbox) (acked : Int) :
    (o.acknowledge acked).2.queueCap = o.queueCap := by
  unfold acknowledge
  split <;> rfl

/-- No more are counted than are retained. -/
theorem acknowledge_unsent (h : o.unsent ≤ o.retained.size) (acked : Int) :
    (o.acknowledge acked).2.unsent = min o.unsent (o.acknowledge acked).2.retained.size := by
  unfold acknowledge
  split
  · exact (min_eq_left h).symm
  · rfl

theorem Behind.acknowledge (h : o.Behind cap deferred carried k) (hc : o.Contiguous)
    (acked : Int) : (o.acknowledge acked).2.Behind cap deferred carried k := by
  have hsize := hc.size
  have hlow := h.low
  have hcapped := h.capped
  have hmissed := h.missed
  have hsize' := (hc.acknowledge acked).size
  have hhigh' := (hc.acknowledge acked).high
  have hle := le_acknowledge_highestAck hc acked
  have hunsent := acknowledge_unsent (show o.unsent ≤ o.retained.size by omega) acked
  have hnext := acknowledge_next o acked
  have hcap := acknowledge_queueCap o acked
  have hconnected := acknowledge_connected o acked
  generalize (o.acknowledge acked).2 = o' at *
  refine ⟨hcap.trans h.queueCap, fun n hn => hnext ▸ h.known n hn, by omega, by omega,
    fun hc' => ?_, ?_⟩
  · rw [hunsent, h.connected (hconnected ▸ hc')]
    exact Nat.zero_min _
  · by_cases hretired : o'.retained.size ≤ o.unsent
    · -- all that is not counted is retired
      rw [Tether.missed, Sequence.range_of_le (by omega)]
      exact Nat.zero_le _
    · have hsame : o'.next - o'.unsent = o.next - o.unsent := by omega
      rw [← missed_append (o'.highestAck + 1) (by omega) (by omega), List.length_append] at hmissed
      rw [hsame]
      exact (Nat.le_add_left ..).trans hmissed

theorem Behind.disconnect (h : o.Behind cap deferred carried k) :
    o.disconnect.Behind cap deferred carried k :=
  { h with connected := nofun }

/-- What awaits a connection is what is counted, and what is not. -/
theorem Behind.length_missed_le (h : o.Behind cap deferred carried k) :
    (Tether.missed deferred carried (o.highestAck + 1) o.next).length ≤ cap * (k + 1) := by
  have hlow := h.low
  have hcounted :
      (Tether.missed deferred carried (o.next - o.unsent) o.next).length ≤ o.unsent := by
    refine Tether.length_missed_le.trans ?_
    omega
  rw [← missed_append (o.next - o.unsent) (by omega) (by omega), List.length_append,
    Nat.mul_add_one]
  exact Nat.add_le_add h.missed (hcounted.trans h.capped)

/-- After a replay nothing is counted. -/
theorem Behind.reconnect_of_le {k' : Nat} (h : o.Behind cap deferred carried k)
    (hc : o.Contiguous)
    (hm : (Tether.missed deferred carried (o.highestAck + 1) o.next).length ≤ cap * k') :
    o.reconnect.Behind cap deferred carried k' where
  queueCap := h.queueCap
  known := h.known
  low := by simpa [Outbox.reconnect] using hc.high
  capped := Nat.zero_le _
  connected := fun _ => rfl
  missed := by simpa [Outbox.reconnect] using hm

/-- A replay that breaks off leaves behind what was counted. -/
theorem Behind.reconnect (h : o.Behind cap deferred carried k) (hc : o.Contiguous) :
    o.reconnect.Behind cap deferred carried (k + 1) := h.reconnect_of_le hc h.length_missed_le

/-- A replay that is taken in full leaves nothing behind. -/
theorem Behind.reconnect_of_carried (h : o.Behind cap deferred carried k) (hc : o.Contiguous)
    (hall : ∀ n ∈ Int.range (o.highestAck + 1) o.next, n ∈ carried) :
    o.reconnect.Behind cap deferred carried 0 := by
  refine h.reconnect_of_le hc ?_
  rw [missed_eq_nil fun n hn _ => hall n hn]
  exact Nat.zero_le _

end Outbox

/-- All payloads that are handed over are taken. -/
def Transmission.Carries (t : List Transmission) : Prop :=
  ∀ τ ∈ t, τ.message.kind = .send → τ.taken = true

instance (t : List Transmission) : Decidable (Transmission.Carries t) :=
  inferInstanceAs (Decidable (∀ τ ∈ t, _ → _))

open Transmission (carried carried_append Carries)

namespace Session

variable {m : Moment} {s s' : Session} {t : List Transmission} {a d : List Bytes}
  {deferred taken : List Int} {cap k : Nat}

/-! ### Sends -/

theorem fills_trySend (m : Moment) (s : Session) (payload : Bytes) :
    s.outbox.Fills (s.trySend m payload).session.outbox := by
  unfold trySend
  split
  · exact .refl s.outbox
  cases ha : s.outbox.accept payload with
  | error r => exact .refl s.outbox
  | ok r =>
    obtain ⟨way, outbox⟩ := r
    have hfills := Outbox.fills_accept ha
    cases way with
    | deferred => exact hfills
    | transmit => cases s.active <;> exact hfills

theorem fills_attempt (m : Moment) (s : Session) (w : Waiting) :
    s.outbox.Fills (s.attempt m w).1.outbox := by
  have hfills := fills_trySend m s w.payload
  unfold attempt
  split
  · exact .refl s.outbox
  · simp only
    split
    · exact hfills
    · split <;> exact hfills

theorem fills_attemptAll (m : Moment) (s : Session) (waiting : List Waiting) :
    s.outbox.Fills (s.attemptAll m waiting).1.outbox := by
  induction waiting generalizing s with
  | nil => exact .refl s.outbox
  | cons w waiting ih => exact (fills_attempt m s w).trans (ih _)

theorem fills_step (m : Moment) (s : Session) {input : Input} (hi : input.Sends) :
    s.outbox.Fills (s.step m input).1.outbox := by
  cases input with
  | trySend payload => exact fills_trySend m s payload
  | send payload => exact fills_attempt m { s with nextTicket := s.nextTicket + 1 } _
  | resume =>
    rw [step, resume_eq]
    exact fills_attemptAll m { s with waiting := [] } s.waiting
  | _ => exact hi.elim

/-! ### Everything else -/

/-- A move that accepts nothing leaves the outbox as it is, or lets go of the connection. -/
theorem Move.outbox_of_idle (h : Move m s s' t a) (ha : a = []) :
    s'.outbox = s.outbox ∨ s'.outbox = s.outbox.disconnect := by
  cases h with
  | wait | flush | giveUp => exact .inl rfl
  | lose | finish | farewell => exact .inr rfl
  | defer | send => cases ha

theorem Moves.outbox_of_idle (h : Moves m s s' t a) (ha : a = []) :
    s'.outbox = s.outbox ∨ s'.outbox = s.outbox.disconnect := by
  induction h with
  | nil => exact .inl rfl
  | cons hm _ ih =>
    obtain ⟨hfirst, hrest⟩ := List.append_eq_nil_iff.mp ha
    rcases ih hrest with h | h <;> rcases hm.outbox_of_idle hfirst with h' | h' <;>
      simp [h, h', Outbox.disconnect]

/-- How many replays broke off in a row, if `k` did before. -/
def breaks (k : Nat) (s s' : Session) (t : List Transmission) : Nat :=
  if s'.handshakes = s.handshakes then k else if Carries t then 0 else k + 1

/-- Only a handshake changes it. -/
theorem behind_of_same (h : s'.handshakes = s.handshakes)
    (hb : s'.outbox.Behind cap deferred taken k) :
    s'.outbox.Behind cap deferred (taken ++ carried t) (breaks k s s' t) := by
  rw [breaks, if_pos h]
  exact hb.carry _

/-- If all payloads of a replay are taken, then all that is retained is carried. -/
theorem mem_carried_welcome {c : ConnectionId} {acked n : Int} (hs : s.Coherent)
    (hall : Carries (s.welcome m c acked))
    (hn : n ∈ Int.range ((s.outbox.acknowledge acked).2.highestAck + 1)
      (s.outbox.acknowledge acked).2.next) : n ∈ carried (s.welcome m c acked) := by
  rw [Outbox.acknowledge_next, ← Message.numbers_greetings hs acked, Message.mem_numbers] at hn
  obtain ⟨x, hx, hk, rfl⟩ := hn
  have hreplay : x ∈ (s.outbox.acknowledge acked).2.replay s.inbox.received := by
    refine (List.mem_append.mp hx).resolve_left fun hx => ?_
    split at hx
    · rw [List.mem_singleton.mp hx] at hk
      cases hk
    · cases hx
  obtain ⟨-, hprefix⟩ :=
    handAll_prefix m c ((s.outbox.acknowledge acked).2.replay s.inbox.received)
  have hsends {τ : Transmission}
      (hτ : τ ∈ handAll m c ((s.outbox.acknowledge acked).2.replay s.inbox.received)) :
      τ.message.kind = .send := by
    obtain ⟨r, -, hr⟩ := List.mem_map.mp (mem_handAll hτ).2
    exact hr ▸ rfl
  have htaken {τ : Transmission}
      (hτ : τ ∈ handAll m c ((s.outbox.acknowledge acked).2.replay s.inbox.received)) :
      τ.taken = true := hall τ (List.mem_append_right _ hτ) (hsends hτ)
  rw [← hprefix fun τ hτ => htaken hτ] at hreplay
  obtain ⟨τ, hτ, rfl⟩ := List.mem_map.mp hreplay
  refine Message.mem_numbers.mpr ⟨τ.message, List.mem_map_of_mem ?_, hk, rfl⟩
  exact List.mem_filter.mpr ⟨List.mem_append_right _ hτ, htaken hτ⟩

theorem Hears.behind {c : ConnectionId} {x : Message} (h : Hears m s c x s' t d) (hs : s.Coherent)
    (hb : s.outbox.Behind cap deferred taken k) :
    s'.outbox.Behind cap deferred (taken ++ carried t) (breaks k s s' t) := by
  have hacked := hb.acknowledge hs.outbox x.acked
  cases h with
  | ignored => exact behind_of_same rfl hb
  | held | answered | repeated | acked => exact behind_of_same rfl hacked
  | left => exact behind_of_same rfl hb.disconnect
  | completed lifecycle waiting hc hk hp =>
    have hcontiguous := hs.outbox.acknowledge x.acked
    rw [breaks, if_neg (Nat.succ_ne_self s.handshakes)]
    by_cases hall : Carries (s.welcome m c x.acked)
    · rw [if_pos hall]
      exact (hacked.carry _).reconnect_of_carried hcontiguous fun n hn =>
        List.mem_append_right _ (mem_carried_welcome hs hall hn)
    · rw [if_neg hall]
      exact (hacked.carry _).reconnect hcontiguous

/-- What a step that accepts nothing leaves behind. -/
theorem Goes.behind (h : Goes m s s' t a) (ha : a = []) (hs : s.Coherent)
    (hb : s.outbox.Behind cap deferred taken k) :
    s'.outbox.Behind cap deferred (taken ++ carried t) (breaks k s s' t) := by
  cases h with
  | hears h => exact h.behind hs hb
  | acts h =>
    refine behind_of_same (h.keeps hs).handshakes ?_
    rcases h.outbox_of_idle ha with ho | ho <;> rw [ho]
    · exact hb
    · exact hb.disconnect
  | opens h => cases h <;> exact behind_of_same rfl hb
  | refuses => exact behind_of_same rfl hb

/-! ### Runs -/

/-- The numbers that are given out in a step while no connection is active. -/
def deferrals (m : Moment) (s : Session) (input : Input) : List Int :=
  if s.active = none then s.grants m input else []

/-- The numbers that are given out in a run while no connection is active. -/
def deferralsIn (s : Session) : List (Moment × Input) → List Int
  | [] => []
  | (m, input) :: rest => s.deferrals m input ++ (s.step m input).1.deferralsIn rest

/-- How many replays broke off since one was taken in full, if `k` did before the run. -/
def brokenReplays (k : Nat) (s : Session) : List (Moment × Input) → Nat
  | [] => k
  | (m, input) :: rest =>
    let r := s.step m input
    brokenReplays (breaks k s r.1 (Effect.transmitted r.2)) r.1 rest

theorem accepted_of_not_sends {input : Input} (hi : ¬ input.Sends) : s.accepted m input = [] := by
  cases input with
  | trySend | send | resume => exact (hi trivial).elim
  | _ => rfl

/-- **A step falls behind only when a replay breaks off.** -/
theorem Coherent.behind_step (hs : s.Coherent) (hb : s.outbox.Behind cap deferred taken k)
    (m : Moment) (input : Input) :
    let r := s.step m input
    r.1.outbox.Behind cap (deferred ++ s.deferrals m input)
      (taken ++ carried (Effect.transmitted r.2)) (breaks k s r.1 (Effect.transmitted r.2)) := by
  intro r
  have hgoes : Goes m s r.1 (Effect.transmitted r.2) (s.accepted m input) := hs.step_goes m input
  have hgrants : s.grants m input = Int.range s.outbox.next r.1.outbox.next := by
    rw [hs.grants_eq, hgoes.next hs]
  by_cases hi : input.Sends
  · have hown : input.Own := by
      cases input with
      | connect | frame => exact hi.elim
      | _ => trivial
    refine behind_of_same (hs.step_keeps m input hown).handshakes ?_
    have hfills := fills_step m s hi
    by_cases ha : s.active = none
    · rw [deferrals, if_pos ha, hgrants]
      exact hb.fills_of_disconnected hfills (by rw [hs.connected, ha]; rfl)
    · rw [deferrals, if_neg ha, List.append_nil]
      exact hb.fills_of_connected hfills (by rw [hs.connected, Option.isSome_iff_ne_none]; exact ha)
  · have hidle : s.accepted m input = [] := accepted_of_not_sends hi
    have hnone : s.deferrals m input = [] := by
      rw [deferrals, hs.grants_eq, hidle, Sequence.range_of_le (by simp), ite_self]
    rw [hnone, List.append_nil]
    exact hgoes.behind hidle hs hb

theorem Coherent.behind_run (hs : s.Coherent) (hb : s.outbox.Behind cap deferred taken k)
    (inputs : List (Moment × Input)) :
    (s.run inputs).1.outbox.Behind cap (deferred ++ s.deferralsIn inputs)
      (taken ++ carried (Effect.transmitted (s.run inputs).2)) (s.brokenReplays k inputs) := by
  induction inputs generalizing s deferred taken k with
  | nil => simpa [deferralsIn, brokenReplays, run, carried] using hb
  | cons i inputs ih =>
    have hrest := ih (hs.step i.1 i.2) (hs.behind_step hb i.1 i.2)
    rw [List.append_assoc, List.append_assoc] at hrest
    simp only [run, Effect.transmitted_append, carried_append]
    exact hrest

/-- The messages that await a connection after a run: they are retained, they were accepted while no
connection was active, and no connection took them. -/
def backlog (s : Session) (inputs : List (Moment × Input)) : List Int :=
  let r := s.run inputs
  r.1.outbox.sequences.filter fun n =>
    n ∈ s.deferralsIn inputs ∧ n ∉ carried (Effect.transmitted r.2)

/-- **The queue cap bounds what awaits a connection, up to the replays that broke off.**

After every run the messages that were accepted while no connection was active, that are not
acknowledged, and that no connection ever took, are at most as many as the queue cap. They may be as
many once more for each replay that broke off since the last one that was taken in full. -/
theorem backlog_le {role : Role} {id : SessionId} {config : Config} {now : Nat} {s₀ : Session}
    (h : create role id config now = .ok s₀) (inputs : List (Moment × Input)) :
    (s₀.backlog inputs).length ≤ config.queueCap * (s₀.brokenReplays 0 inputs + 1) := by
  have hs₀ : s₀.Coherent := Coherent.start h
  have hb : s₀.outbox.Behind config.queueCap [] [] 0 := by
    rw [eq_start h]
    have hlow : noSequence < 0 - (0 : Nat) := by decide
    exact ⟨rfl, nofun, hlow, Nat.zero_le _, nofun, Nat.zero_le _⟩
  have hbehind := hs₀.behind_run hb inputs
  have hs : (s₀.run inputs).1.Coherent := ((Sound.start h).run inputs).1
  rw [backlog, hs.outbox.sequences]
  exact hbehind.length_missed_le

/-- A payload is sent before a connection completes its handshake, and another one after it is lost,
and so on for the next connections. -/
def retries (m : Moment) (connections : List Nat) : List (Moment × Input) :=
  connections.flatMap fun c =>
    [(m, .trySend [c.toUInt8]), (m, .connect),
      (m, .frame c (Message.handshake (.ofNat 1) c noSequence).encode), (m, .disconnected c false)]

/-- Two connections take nothing, and what is left behind is twice what the queue takes. The next
one takes all. -/
theorem backlog_le_retries :
    let deaf : Moment := ⟨0, fun _ _ => false⟩
    let m : Moment := ⟨0, fun _ _ => true⟩
    let s₀ := start .server (.ofNat 1) { queueCap := 1 } 0
    let later := retries deaf [0, 1] ++ [(deaf, .trySend [])]
    s₀.backlog later = [0, 1, 2] ∧ s₀.brokenReplays 0 later = 2 ∧
      (s₀.backlog later).length ≤ 1 * (2 + 1) ∧
      s₀.brokenReplays 0 (later ++ retries m [2]) = 0 ∧
      (s₀.backlog (later ++ retries m [2])).length ≤ 1 := by
  intro deaf m s₀ later
  have hs₀ : create .server (.ofNat 1) { queueCap := 1 } 0 = .ok s₀ := rfl
  have hbroken : s₀.brokenReplays 0 later = 2 := by decide +kernel
  have hmended : s₀.brokenReplays 0 (later ++ retries m [2]) = 0 := by decide +kernel
  have hbound := backlog_le hs₀ later
  have hbound' := backlog_le hs₀ (later ++ retries m [2])
  rw [hbroken] at hbound
  rw [hmended] at hbound'
  exact ⟨by decide +kernel, hbroken, hbound, hmended, hbound'⟩

/-- Once its replay broke off a payload no longer counts, though no connection took it. With room for
one payload in the queue a second one is accepted, and then two await a connection. -/
theorem queue_cap_exceeded :
    let deaf : Moment := ⟨0, fun _ _ => false⟩
    let s₀ := start .server (.ofNat 1) { queueCap := 1 } 0
    let s := (s₀.run (retries deaf [0])).1
    (s.trySend deaf []).answer = .ok 1 ∧
      s₀.backlog (retries deaf [0] ++ [(deaf, .trySend [])]) = [0, 1] := by
  decide +kernel

end Session

end Tether
