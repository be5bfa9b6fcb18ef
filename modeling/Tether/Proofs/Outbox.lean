import Tether.Outbox
import Tether.Proofs.Sequence

/-!
# What an outbox retains

The numbers that an outbox retains are those above the highest acknowledgement, up to
the last one that was given out (`Contiguous`). Accepting a payload adds the next
number at the end, and an acknowledgement takes numbers away at the front; nothing
else changes them.
-/

namespace Tether.Outbox

/-- **What is retained is all that is not acknowledged**, in order and without gaps. -/
structure Contiguous (o : Outbox) : Prop where
  low : noSequence ≤ o.highestAck
  high : o.highestAck < o.next
  sequences : o.sequences = Int.range (o.highestAck + 1) o.next

theorem Contiguous.new (session : SessionId) (config : Config) :
    (Outbox.new session config).Contiguous :=
  ⟨le_rfl, (by decide : noSequence < 0), (by decide : [] = Int.range (noSequence + 1) 0)⟩

theorem Contiguous.size {o : Outbox} (h : o.Contiguous) :
    (o.retained.size : Int) = o.next - 1 - o.highestAck := by
  have hlen := congrArg List.length h.sequences
  simp only [Outbox.sequences, List.length_map, Array.length_toList, Int.range, List.length_range]
    at hlen
  have := h.high
  omega

theorem Contiguous.seq_range {o : Outbox} (h : o.Contiguous) {r : Retained}
    (hr : r ∈ o.retained.toList) : o.highestAck < r.seq ∧ r.seq < o.next := by
  have hmem : r.seq ∈ o.sequences := List.mem_map_of_mem hr
  rw [h.sequences, Int.mem_range_iff] at hmem
  omega

/-- The lowest number that is retained, or the next one if there is none. -/
theorem Contiguous.lowest {o : Outbox} (h : o.Contiguous) :
    o.sequences.headD o.next = o.highestAck + 1 := by
  have hhigh := h.high
  rw [h.sequences]
  by_cases hlt : o.highestAck + 1 < o.next
  · rw [Sequence.range_cons hlt]
    rfl
  · rw [Sequence.range_of_le (by omega)]
    show o.next = o.highestAck + 1
    omega

/-! ### Accepting -/

/-- Accepting a payload retains it, and on a connection it is to be transmitted. -/
theorem accept_eq_ok {o o' : Outbox} {payload : Bytes} {a : Accepted}
    (h : o.accept payload = .ok (a, o')) :
    payload.length ≤ o.maxPayload ∧
      ((o.connected = true ∧ a = .transmit o.next ∧ o' = o.retain payload o.unsent) ∨
        (o.connected = false ∧ a = .deferred o.next ∧ o' = o.retain payload (o.unsent + 1))) := by
  unfold accept at h
  split at h
  · cases h
  · next hr =>
    have hlen : payload.length ≤ o.maxPayload := by
      unfold refusal? at hr
      split at hr
      · cases hr
      · omega
    refine ⟨hlen, ?_⟩
    split at h <;> rename_i hc <;> cases h
    · exact .inl ⟨hc, rfl, rfl⟩
    · exact .inr ⟨by simpa using hc, rfl, rfl⟩

@[simp] theorem sequences_retain (o : Outbox) (payload : Bytes) (n : Nat) :
    (o.retain payload n).sequences = o.sequences ++ [o.next] := by
  simp [sequences, retain]

theorem Contiguous.retain {o : Outbox} (h : o.Contiguous) (payload : Bytes) (n : Nat) :
    (o.retain payload n).Contiguous where
  low := h.low
  high := by have := h.high; simp only [Outbox.retain]; omega
  sequences := by
    have := h.high
    rw [sequences_retain, h.sequences]
    exact (Sequence.range_concat (by omega)).symm

/-! ### Acknowledging -/

section
variable (o : Outbox) (acked : Int)

@[simp] theorem acknowledge_next : (o.acknowledge acked).2.next = o.next := by
  unfold acknowledge; split <;> rfl

@[simp] theorem acknowledge_session : (o.acknowledge acked).2.session = o.session := by
  unfold acknowledge; split <;> rfl

@[simp] theorem acknowledge_connected : (o.acknowledge acked).2.connected = o.connected := by
  unfold acknowledge; split <;> rfl

@[simp] theorem acknowledge_window : (o.acknowledge acked).2.window = o.window := by
  unfold acknowledge; split <;> rfl

@[simp] theorem acknowledge_maxPayload : (o.acknowledge acked).2.maxPayload = o.maxPayload := by
  unfold acknowledge; split <;> rfl

theorem acknowledge_retained_sublist :
    (o.acknowledge acked).2.retained.toList.Sublist o.retained.toList := by
  unfold acknowledge
  split
  · exact List.Sublist.refl _
  · exact List.dropWhile_sublist _

variable {o acked}

/-- An acknowledgement of a number that was given out counts if it is the highest. -/
theorem acknowledge_highestAck (h : acked < o.next) :
    (o.acknowledge acked).2.highestAck = max o.highestAck acked := by
  unfold acknowledge
  split
  · next hle => exact (max_eq_left hle).symm
  · next hle =>
    simp only [credible, if_neg (not_le.mpr h)]
    exact (max_eq_right (not_le.mp hle).le).symm

theorem le_acknowledge (h : acked < o.next) : acked ≤ (o.acknowledge acked).2.highestAck := by
  rw [acknowledge_highestAck h]
  exact le_max_right _ _

end

theorem Contiguous.acknowledge {o : Outbox} (h : o.Contiguous) (acked : Int) :
    (o.acknowledge acked).2.Contiguous := by
  have hlow := h.low
  have hhigh := h.high
  unfold Outbox.acknowledge
  split
  · exact h
  · next hle =>
    have hc : o.highestAck ≤ o.credible acked ∧ o.credible acked < o.next := by
      unfold credible; split <;> omega
    refine ⟨?_, hc.2, ?_⟩
    · show noSequence ≤ o.credible acked
      omega
    · have hseq := h.sequences
      simp only [Outbox.sequences] at hseq ⊢
      have hmap := List.dropWhile_map (f := Retained.seq) (p := fun n => decide (n ≤ o.credible acked))
        (l := o.retained.toList)
      rw [hseq, Sequence.dropWhile_range (by omega) hc.2] at hmap
      exact hmap.symm

/-- The highest acknowledgement never decreases. -/
theorem le_acknowledge_highestAck {o : Outbox} (h : o.Contiguous) (acked : Int) :
    o.highestAck ≤ (o.acknowledge acked).2.highestAck := by
  have hhigh := h.high
  unfold acknowledge credible
  split
  · exact le_rfl
  · dsimp only
    split <;> omega

/-! ### Connections -/

theorem Contiguous.disconnect {o : Outbox} (h : o.Contiguous) : o.disconnect.Contiguous :=
  ⟨h.low, h.high, h.sequences⟩

theorem Contiguous.reconnect {o : Outbox} (h : o.Contiguous) : o.reconnect.Contiguous :=
  ⟨h.low, h.high, h.sequences⟩

/-! ### Bounds -/

/-- The outbox is one of a session with a configuration: it has its bounds, and keeps
to them. -/
structure Serves (o : Outbox) (id : SessionId) (c : Config) : Prop where
  session : o.session = id
  window : o.window = c.window
  maxPayload : o.maxPayload = c.maxPayload
  /-- What is retained fits in frames. -/
  short : ∀ r ∈ o.retained.toList, r.payload.length ≤ c.maxPayload

section
variable {o : Outbox} {id : SessionId} {c : Config}

theorem Serves.new (id : SessionId) (c : Config) : (Outbox.new id c).Serves id c :=
  ⟨rfl, rfl, rfl, fun _ h => by cases h⟩

theorem Serves.retain (h : o.Serves id c) {payload : Bytes} (hp : payload.length ≤ o.maxPayload)
    (n : Nat) : (o.retain payload n).Serves id c :=
  { h with
    short := fun r hr => by
      simp only [Outbox.retain, Array.toList_push, List.mem_append, List.mem_singleton] at hr
      rcases hr with hr | rfl
      · exact h.short r hr
      · exact h.maxPayload ▸ hp }

theorem Serves.acknowledge (h : o.Serves id c) (acked : Int) :
    (o.acknowledge acked).2.Serves id c where
  session := (acknowledge_session o acked).trans h.session
  window := (acknowledge_window o acked).trans h.window
  maxPayload := (acknowledge_maxPayload o acked).trans h.maxPayload
  short := fun r hr => h.short r ((acknowledge_retained_sublist o acked).subset hr)

end

end Tether.Outbox
