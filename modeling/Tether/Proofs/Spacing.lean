import Tether.Proofs.Delivery

/-!
# How far acknowledgements are apart

An inbox does not count the messages that it delivers without an acknowledgement. It compares the
number of the next one with the highest that it acknowledged. That is the same count, as long as
all that flushes what is held back also notes it as acknowledged (`Counts`): an acknowledgement
because of the limit, for a duplicate or a gap, or with something else that is sent, and a reset.

Main result: fewer messages are held back than the limit after any calls, the counters never
decrease but for a reset, and a message that is delivered is acknowledged exactly if it is the one
that reaches the limit. The sums and differences of such counters fit in eight bytes, however high
they are (`acknowledgements_spaced`).
-/

namespace Tether.Inbox

/-! ### Calls -/

/-- A request, or a reset. -/
inductive Call where
  /-- Something is asked of the inbox. -/
  | request (r : Request)
  /-- The inbox starts over for another session. -/
  | reset

/-- What an inbox replies to a call, and leaves. A reset is not replied to. -/
def call (maxDelayed : Int) (i : Inbox) : Call → Option Reply × Inbox
  | .request r => (some (i.serve maxDelayed r).1, (i.serve maxDelayed r).2)
  | .reset => (none, i.reset)

/-- What an inbox replies to some calls, and leaves. -/
def callAll (maxDelayed : Int) (i : Inbox) : List Call → List (Option Reply) × Inbox
  | [] => ([], i)
  | c :: rest =>
    let one := i.call maxDelayed c
    let more := one.2.callAll maxDelayed rest
    (one.1 :: more.1, more.2)

/-- How many messages were delivered since the last flush, if some were before, and then a call was
replied to. -/
def sinceFlush (n : Nat) : Option Reply → Nat
  -- delivered, and the acknowledgement is held back
  | some (.reception (.deliver none)) => n + 1
  -- what was received is acknowledged, whatever the cause
  | some (.reception (.deliver (some _))) => 0
  | some (.reception (.duplicate _)) => 0
  | some (.reception (.gap _)) => 0
  | some (.acknowledged _) => 0
  | some (.flushed _) => 0
  -- a reset
  | none => 0

/-- **How many messages were delivered since the last flush**, or since the beginning. -/
def deliveredSince (replies : List (Option Reply)) : Nat := replies.foldl sinceFlush 0

variable {i : Inbox} {maxDelayed seq : Int} {n : Nat} {calls : List Call}

/-! ### Counting -/

/-- **The counters say how much is held back**, and that is less than the limit. -/
structure Counts (i : Inbox) (maxDelayed : Int) (n : Nat) : Prop where
  bounded : i.Bounded maxDelayed
  held : i.received - i.acked = n

theorem Counts.new (h : 0 < maxDelayed) : Counts {} maxDelayed 0 := ⟨.new h, rfl⟩

theorem Counts.flush (h : i.Counts maxDelayed n) : i.flush.Counts maxDelayed 0 :=
  ⟨h.bounded.flush, Int.sub_self _⟩

theorem Counts.receive (h : i.Counts maxDelayed n) (seq : Int) :
    (i.receive maxDelayed seq).2.Counts maxDelayed
      (sinceFlush n (some (.reception (i.receive maxDelayed seq).1))) := by
  have hheld := h.held
  refine ⟨h.bounded.receive seq, ?_⟩
  by_cases hseq : seq = i.received + 1
  · subst hseq
    rw [receive_next]
    split
    · exact Int.sub_self _
    · simp only [sinceFlush]
      omega
  · -- every other message is answered with all that was received
    obtain ⟨hreply, hleft⟩ : _ ∧ (i.receive maxDelayed seq).2 = i.flush := receive_of_ne hseq
    rw [hleft]
    rcases hreply with hreply | hreply <;> rw [hreply] <;> exact Int.sub_self _

theorem Counts.serve (h : i.Counts maxDelayed n) (r : Request) :
    (i.serve maxDelayed r).2.Counts maxDelayed (sinceFlush n (some (i.serve maxDelayed r).1)) := by
  cases r with
  | receive seq => exact h.receive seq
  | acknowledge => exact h.flush
  | flush =>
    simp only [Inbox.serve, sinceFlush]
    cases hback : i.heldBack with
    | some ack => exact h.flush
    | none =>
      -- nothing is held back, so nothing was delivered since the last flush
      have hle := h.bounded.acked_le
      have hnot : ¬ i.acked < i.received := by
        simpa [Inbox.heldBack] using hback
      show i.Counts maxDelayed 0
      exact ⟨h.bounded, by omega⟩

/-- **Every call keeps count.** -/
theorem Counts.call (h : i.Counts maxDelayed n) (c : Call) :
    (i.call maxDelayed c).2.Counts maxDelayed (sinceFlush n (i.call maxDelayed c).1) := by
  cases c with
  | request r => exact h.serve r
  | reset =>
    have hpos := h.bounded.held
    have hle := h.bounded.acked_le
    exact .new (by omega)

theorem Counts.callAll (h : i.Counts maxDelayed n) (calls : List Call) :
    (i.callAll maxDelayed calls).2.Counts maxDelayed
      ((i.callAll maxDelayed calls).1.foldl sinceFlush n) := by
  induction calls generalizing i n with
  | nil => exact h
  | cons c calls ih => exact ih (h.call c)

/-- **A message that is delivered is acknowledged if it reaches the limit**, and only then. -/
theorem Counts.acknowledges (h : i.Counts maxDelayed n) {ack : Option Int}
    (hd : (i.receive maxDelayed seq).1 = .deliver ack) :
    ack = if (n : Int) + 1 = maxDelayed then some seq else none := by
  have hheld := h.held
  have hlt := h.bounded.held
  by_cases hseq : seq = i.received + 1
  · subst hseq
    rw [receive_next] at hd
    split at hd
    · next hle =>
      rw [if_pos (by omega)]
      exact (Reception.deliver.inj hd).symm
    · next hle =>
      rw [if_neg (by omega)]
      exact (Reception.deliver.inj hd).symm
  · obtain ⟨hreply, -⟩ : _ ∧ (i.receive maxDelayed seq).2 = i.flush := receive_of_ne hseq
    rcases hreply with hreply | hreply <;> rw [hreply] at hd <;> cases hd

/-! ### Growth -/

/-- Neither counter decreases. -/
structure Grows (i i' : Inbox) : Prop where
  acked : i.acked ≤ i'.acked
  received : i.received ≤ i'.received

theorem Grows.refl (i : Inbox) : Grows i i := ⟨le_rfl, le_rfl⟩

theorem Grows.trans {i i' i'' : Inbox} (h : Grows i i') (h' : Grows i' i'') : Grows i i'' :=
  ⟨h.acked.trans h'.acked, h.received.trans h'.received⟩

theorem Bounded.grows_flush (h : i.Bounded maxDelayed) : Grows i i.flush := ⟨h.acked_le, le_rfl⟩

theorem Bounded.grows_serve (h : i.Bounded maxDelayed) (r : Request) :
    Grows i (i.serve maxDelayed r).2 := by
  cases r with
  | receive seq =>
    simp only [Inbox.serve]
    by_cases hseq : seq = i.received + 1
    · have hle := h.acked_le
      subst hseq
      rw [receive_next]
      split
      · exact ⟨by simp only; omega, by simp only; omega⟩
      · exact ⟨le_rfl, by simp only; omega⟩
    · rw [(receive_of_ne hseq).2]
      exact h.grows_flush
  | acknowledge => exact h.grows_flush
  | flush =>
    simp only [Inbox.serve]
    split
    · exact h.grows_flush
    · exact .refl i

/-- **As long as nothing starts over, the counters only grow.** -/
theorem Counts.grows_serveAll (h : i.Counts maxDelayed n) (requests : List Request) :
    Grows i (i.serveAll maxDelayed requests).2 := by
  induction requests generalizing i n with
  | nil => exact .refl i
  | cons r requests ih => exact (h.bounded.grows_serve r).trans (ih (h.serve r))

/-! ### Limits of the numbers -/

/-- **The numbers that are computed on the way fit**, each of them if it is computed at all. -/
theorem Bounded.receiveChecked_eq (h : i.Bounded maxDelayed) (hm : InRange maxDelayed)
    (hi : InRange i.received) (hs : InRange seq) :
    i.receiveChecked maxDelayed seq = .ok (i.receive maxDelayed seq) := by
  obtain ⟨hlow, hle, hheld⟩ := h
  simp only [noSequence, InRange] at hlow hm hi hs
  unfold Inbox.receiveChecked Inbox.receive
  by_cases hold : seq ≤ i.received
  · rw [if_pos hold, if_pos hold]
  -- there is a number above what was received, so the next one fits
  have hnext : InRange (i.received + 1) := ⟨by omega, by omega⟩
  rw [if_neg hold, if_neg hold, Sequence.plus_of_inRange hnext]
  simp only [bind, Except.bind, pure, Except.pure]
  by_cases hgap : i.received + 1 < seq
  · rw [if_pos hgap, if_pos hgap]
  -- it is the next message, and less is held back than the limit
  have hdifference : InRange (seq - i.acked) := ⟨by omega, by omega⟩
  rw [if_neg hgap, if_neg hgap, Sequence.minus_of_inRange hdifference]
  exact (apply_ite Except.ok _ _ _).symm

/-- The number of a message that is to be received. -/
def Call.number? : Call → Option Int
  | .request r => r.number?
  | .reset => none

theorem inRange_call (hi : InRange i.received) {c : Call} (hc : ∀ seq ∈ c.number?, InRange seq) :
    InRange (i.call maxDelayed c).2.received := by
  cases c with
  | request r =>
    simp only [Inbox.call, received_serve]
    split
    · next hr =>
      refine hc _ ?_
      rw [hr]
      rfl
    · exact hi
  | reset => exact (by decide : InRange noSequence)

theorem inRange_callAll (hi : InRange i.received)
    (hc : ∀ seq ∈ calls.filterMap Call.number?, InRange seq) :
    InRange (i.callAll maxDelayed calls).2.received := by
  induction calls generalizing i with
  | nil => exact hi
  | cons c calls ih =>
    refine ih (inRange_call hi fun seq hseq => hc seq ?_) fun seq hseq => hc seq ?_
    · exact List.mem_filterMap.mpr ⟨c, List.mem_cons_self, hseq⟩
    · obtain ⟨c', hmem, hnumber⟩ := List.mem_filterMap.mp hseq
      exact List.mem_filterMap.mpr ⟨c', List.mem_cons_of_mem c hmem, hnumber⟩

/-! ### Spacing -/

/-- **Acknowledgements are spaced by the limit.** After any calls, a new inbox has acknowledged no
more than it received, and holds back less than the limit. Until it is reset its counters do not
decrease. A message that is delivered is acknowledged exactly if as many were delivered since the
last flush, this one included, as the limit says. And wherever the counters are between those
bounds, whatever number comes, what is computed from them fits in eight bytes. -/
theorem acknowledgements_spaced (hpos : 0 < maxDelayed) (hm : InRange maxDelayed) :
    (∀ calls : List Call,
      let run := callAll maxDelayed {} calls
      run.2.Bounded maxDelayed ∧
      (∀ requests, Grows run.2 (run.2.serveAll maxDelayed requests).2) ∧
      (∀ seq ack, (run.2.receive maxDelayed seq).1 = .deliver ack →
        ack = if (deliveredSince run.1 : Int) + 1 = maxDelayed then some seq else none) ∧
      ((∀ seq ∈ calls.filterMap Call.number?, InRange seq) → InRange run.2.received)) ∧
    ∀ (i : Inbox) (seq : Int), i.Bounded maxDelayed → InRange i.received → InRange seq →
      i.receiveChecked maxDelayed seq = .ok (i.receive maxDelayed seq) := by
  refine ⟨?_, fun i seq hi hr hs => hi.receiveChecked_eq hm hr hs⟩
  intro calls run
  have hcounts : run.2.Counts maxDelayed (deliveredSince run.1) := (Counts.new hpos).callAll calls
  exact ⟨hcounts.bounded, hcounts.grows_serveAll, fun _ _ hd => hcounts.acknowledges hd,
    inRange_callAll (by decide)⟩

/-- Messages come again and too early, and there is a reset. -/
def restart : List Call :=
  [.request (.receive 0), .request (.receive 1), .reset, .request (.receive 0),
    .request (.receive 0), .request (.receive 1), .request (.receive 3), .request .flush,
    .request (.receive 2), .request (.receive 3)]

/-- Two messages were delivered since the last flush, so with a limit of three the next one is
acknowledged. With the highest limit there is, as much is held back as can be when the highest
number but one comes. -/
theorem acknowledgements_spaced_limits :
    let run := callAll 3 {} restart
    let highest : Int := 0x7FFFFFFFFFFFFFFF
    let i : Inbox := ⟨highest - 2, noSequence⟩
    (InRange 3 ∧ run.2.Bounded 3 ∧ run.2 = ⟨3, 1⟩ ∧ deliveredSince run.1 = 2 ∧
      (∃ ack, (run.2.receive 3 4).1 = .deliver ack ∧ ack = some 4) ∧
      Grows run.2 (run.2.serveAll 3 [.receive 4, .receive 4, .flush]).2 ∧
      (∀ seq ∈ restart.filterMap Call.number?, InRange seq) ∧ InRange run.2.received) ∧
    InRange highest ∧ i.Bounded highest ∧ InRange i.received ∧ InRange (highest - 1) ∧
      i.receiveChecked highest (highest - 1) =
        .ok (.deliver (some (highest - 1)), ⟨highest - 1, highest - 1⟩) := by
  intro run highest i
  obtain ⟨hruns, -⟩ := acknowledgements_spaced (show (0 : Int) < 3 by decide) (by decide)
  obtain ⟨hbounded, hgrows, hspaced, hrange⟩ := hruns restart
  obtain ⟨-, hchecked⟩ := acknowledgements_spaced (show 0 < highest by decide) (by decide)
  have hcount : deliveredSince run.1 = 2 := by decide
  have hfour : (run.2.receive 3 4).1 = .deliver (some 4) := by decide
  have hnumbers : ∀ seq ∈ restart.filterMap Call.number?, InRange seq := by decide
  have hi : i.Bounded highest := ⟨by decide, by decide, by decide⟩
  exact ⟨⟨by decide, hbounded, by decide, hcount, ⟨_, hfour, hspaced 4 _ hfour⟩, hgrows _, hnumbers,
      hrange hnumbers⟩, by decide, hi, by decide, by decide,
    (hchecked i (highest - 1) hi (by decide) (by decide)).trans (by decide)⟩

end Tether.Inbox
