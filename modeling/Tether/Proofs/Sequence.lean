import Mathlib.Data.Int.Range
import Tether.Sequence

/-!
# Consecutive numbers

Sequence numbers come in ranges: a sender retains one, a connection carries one. The
range `Int.range low high` has the numbers from `low` up to, but not including,
`high`.
-/

namespace Tether.Sequence

theorem range_of_le {low high : Int} (h : high ≤ low) : Int.range low high = [] := by
  simp [Int.range, Int.toNat_of_nonpos (by omega : high - low ≤ 0)]

theorem range_cons {low high : Int} (h : low < high) :
    Int.range low high = low :: Int.range (low + 1) high := by
  obtain ⟨n, hn⟩ : ∃ n : Nat, high - low = n + 1 := ⟨(high - low - 1).toNat, by omega⟩
  have hn' : high - (low + 1) = n := by omega
  have hsucc : ((n : Int) + 1).toNat = n + 1 := by omega
  simp only [Int.range, hn, hn', hsucc, Int.toNat_natCast, List.range_succ_eq_map, List.map_cons,
    List.map_map]
  refine congrArg₂ List.cons (by omega) (List.map_congr_left fun k _ => ?_)
  simp only [Function.comp]
  omega

theorem range_concat {low high : Int} (h : low ≤ high) :
    Int.range low (high + 1) = Int.range low high ++ [high] := by
  obtain ⟨n, hn⟩ : ∃ n : Nat, high - low = n := ⟨(high - low).toNat, by omega⟩
  have hn' : high + 1 - low = (n + 1 : Nat) := by omega
  simp only [Int.range, hn, hn', Int.toNat_natCast, List.range_succ, List.map_append, List.map_cons,
    List.map_nil, List.append_cancel_left_eq, List.cons.injEq, and_true]
  omega

theorem range_single (n : Int) : Int.range n (n + 1) = [n] := by
  rw [range_cons (by omega), range_of_le le_rfl]

theorem range_append {low mid high : Int} (h₁ : low ≤ mid) (h₂ : mid ≤ high) :
    Int.range low mid ++ Int.range mid high = Int.range low high := by
  obtain ⟨n, hn⟩ : ∃ n : Nat, mid - low = n := ⟨(mid - low).toNat, by omega⟩
  induction n generalizing low with
  | zero =>
    obtain rfl : low = mid := by omega
    rw [range_of_le le_rfl, List.nil_append]
  | succ n ih =>
    rw [range_cons (by omega), List.cons_append, ih (by omega) (by omega), ← range_cons (by omega)]

theorem range_eq_nil {low high : Int} (h : Int.range low high = []) : high ≤ low := by
  by_contra hlt
  rw [range_cons (by omega)] at h
  cases h

/-- The numbers that are left when the lower ones are dropped. -/
theorem dropWhile_range {low mid high : Int} (h₁ : low ≤ mid + 1) (h₂ : mid < high) :
    (Int.range low high).dropWhile (· ≤ mid) = Int.range (mid + 1) high := by
  obtain ⟨n, hn⟩ : ∃ n : Nat, mid + 1 - low = n := ⟨(mid + 1 - low).toNat, by omega⟩
  induction n generalizing low with
  | zero =>
    obtain rfl : low = mid + 1 := by omega
    by_cases hlt : mid + 1 < high
    · rw [range_cons hlt, List.dropWhile_cons_of_neg (by simp)]
    · rw [range_of_le (by omega)]
      rfl
  | succ n ih =>
    rw [range_cons (by omega), List.dropWhile_cons_of_pos (by simp; omega)]
    exact ih (by omega) (by omega)

/-- The first numbers of a range are a range. -/
theorem exists_eq_range_of_prefix {low high : Int} {l : List Int} (hle : low ≤ high)
    (h : l <+: Int.range low high) : ∃ mid, low ≤ mid ∧ mid ≤ high ∧ l = Int.range low mid := by
  induction l generalizing low with
  | nil => exact ⟨low, le_rfl, hle, (range_of_le le_rfl).symm⟩
  | cons x l ih =>
    have hlt : low < high := by
      by_contra hge
      rw [range_of_le (by omega)] at h
      exact absurd (List.prefix_nil.mp h) (by simp)
    rw [range_cons hlt, List.cons_prefix_cons] at h
    obtain ⟨rfl, h⟩ := h
    obtain ⟨mid, h₁, h₂, rfl⟩ := ih (by omega) h
    exact ⟨mid, by omega, h₂, (range_cons (by omega)).symm⟩

end Tether.Sequence
