import Mathlib.Order.Lattice
import Tether.Inbox

/-!
# What an inbox holds back

Fewer acknowledgements are held back than the limit (`Bounded`). Only the message that
is next in order is delivered; every other one is answered with all that was received.
-/

namespace Tether.Inbox

/-- **Less is held back than the limit**, and nothing is acknowledged that was not
received. -/
structure Bounded (i : Inbox) (maxDelayed : Int) : Prop where
  low : noSequence ≤ i.acked
  acked_le : i.acked ≤ i.received
  held : i.received - i.acked < maxDelayed

variable {i : Inbox} {maxDelayed seq : Int}

theorem Bounded.new (h : 0 < maxDelayed) : ({} : Inbox).Bounded maxDelayed :=
  ⟨le_rfl, le_rfl, by simpa using h⟩

theorem Bounded.flush (h : i.Bounded maxDelayed) : i.flush.Bounded maxDelayed where
  low := h.low.trans h.acked_le
  acked_le := le_rfl
  held := by have := h.acked_le; have := h.held; simp only [Inbox.flush]; omega

/-- A message that is not the next one is answered, and that is all. -/
theorem receive_of_ne (h : seq ≠ i.received + 1) :
    ((i.receive maxDelayed seq).1 = .duplicate i.received ∨
      (i.receive maxDelayed seq).1 = .gap i.received) ∧ (i.receive maxDelayed seq).2 = i.flush := by
  unfold receive
  split
  · exact ⟨.inl rfl, rfl⟩
  · rw [if_pos (by omega)]
    exact ⟨.inr rfl, rfl⟩

/-- The next message is delivered, and answered if enough is held back. -/
theorem receive_next :
    i.receive maxDelayed (i.received + 1) =
      if maxDelayed ≤ i.received + 1 - i.acked then
        (.deliver (some (i.received + 1)), ⟨i.received + 1, i.received + 1⟩)
      else (.deliver none, { i with received := i.received + 1 }) := by
  unfold receive
  rw [if_neg (by omega), if_neg (by omega)]

theorem Bounded.receive (h : i.Bounded maxDelayed) (seq : Int) :
    (i.receive maxDelayed seq).2.Bounded maxDelayed := by
  have hlow := h.low
  have hle := h.acked_le
  have hheld := h.held
  by_cases hseq : seq = i.received + 1
  · subst hseq
    rw [receive_next]
    split
    · exact ⟨by simp only; omega, le_rfl, by simp only; omega⟩
    · exact ⟨hlow, by simp only; omega, by simp only; omega⟩
  · rw [(receive_of_ne hseq).2]
    exact h.flush

/-- A message is a gap only if one before it is missing. -/
theorem lt_of_receive_gap {n : Int} (h : (i.receive maxDelayed seq).1 = .gap n) :
    i.received + 1 < seq := by
  unfold receive at h
  split at h
  · cases h
  · split at h
    · assumption
    · split at h <;> cases h

theorem heldBack_eq_some {n : Int} :
    i.heldBack = some n ↔ i.acked < i.received ∧ n = i.received := by
  unfold heldBack
  split
  · next h => simp [h, eq_comm]
  · next h => simp [h]

end Tether.Inbox
