import Mathlib.Algebra.Group.Nat.Defs
import Mathlib.Data.Nat.Find
import Mathlib.Order.WellFounded
import Tether.Backoff

/-!
# How delays grow

A delay is multiplied by the factor of growth and then rounded down to whole nanoseconds. It grows
at all only if the factor adds a nanosecond or more. The first delay decides that for all of them,
since no later one is shorter (`Sound.delay_lt_or_eq`): either the delays grow strictly until they
reach the maximum (`Climbs`), or the first delay is the only one there ever is.

What delay comes next depends only on how many were handed out since the last reset (`after`), as
long as the product of each with the factor is a duration. If one is not, the state stays as it is,
so there is no delay until a reset.

Main result: after a reset the delays start over and grow up to the maximum, and none is missing as
long as the maximum can be multiplied by the factor (`delays_grow`).
-/

namespace Tether

namespace Duration

variable {d d' : Duration}

/-- What is shorter than a duration that is representable is representable too. -/
theorem Representable.of_le (h : d'.Representable) (hle : d.nanos ≤ d'.nanos) : d.Representable :=
  (Nat.div_le_div_right hle).trans_lt h

theorem eq_of_nanos_eq (h : d.nanos = d'.nanos) : d = d' := congrArg mk h

@[simp] theorem nanos_min (d d' : Duration) : (d.min d').nanos = Min.min d.nanos d'.nanos := by
  unfold Duration.min
  split <;> omega

end Duration

namespace Backoff

/-! ### Calls -/

/-- The next delay is wanted, or an attempt succeeded. -/
inductive Call where
  /-- What is the next delay? -/
  | next
  /-- Start over. -/
  | reset

/-- What is replied to a call, if anything, and what is left. Without a next delay nothing
changes. -/
def serve (b : Backoff) : Call → List (Except BackoffError Duration) × Backoff
  | .next =>
    match b.step with
    | .ok (delay, left) => ([.ok delay], left)
    | .error e => ([.error e], b)
  | .reset => ([], b.reset)

/-- What is replied to some calls, and what is left. -/
def serveAll (b : Backoff) : List Call → List (Except BackoffError Duration) × Backoff
  | [] => ([], b)
  | c :: rest =>
    let one := b.serve c
    let more := one.2.serveAll rest
    (one.1 ++ more.1, more.2)

/-! ### Growing -/

/-- The delay that follows on a delay. -/
def grown (b : Backoff) (d : Duration) : Duration :=
  ((⟨d.nanos * b.eighths⟩ : Duration).dividedBy 8).min b.max

/-- **The delay after `k` others.** -/
def delay (b : Backoff) : Nat → Duration
  | 0 => b.initial
  | k + 1 => b.grown (b.delay k)

/-- **Strictly growing up to a limit**, and staying there. -/
def Climbs (delay : Nat → Nat) (limit : Nat) : Prop :=
  ∃ n, (∀ k < n, delay k < delay (k + 1)) ∧ ∀ k, n ≤ k → delay k = limit

/-- Delays that do not shrink, and of which the first is within the limit. -/
structure Sound (b : Backoff) : Prop where
  initial_le : b.initial.nanos ≤ b.max.nanos
  grows : 8 ≤ b.eighths

variable {b : Backoff} {d : Duration} {k n : Nat}

theorem nanos_grown (b : Backoff) (d : Duration) :
    (b.grown d).nanos = min (d.nanos * b.eighths / 8) b.max.nanos := by
  simp [grown, Duration.dividedBy]

/-- What the factor adds is rounded down to whole nanoseconds. -/
theorem Sound.nanos_grown (h : b.Sound) (d : Duration) :
    (b.grown d).nanos = min (d.nanos + d.nanos * (b.eighths - 8) / 8) b.max.nanos := by
  obtain ⟨more, hmore⟩ := Nat.exists_eq_add_of_le h.grows
  rw [Backoff.nanos_grown, hmore, Nat.add_sub_cancel_left, Nat.mul_add]
  omega

/-- Every delay is within the limits. -/
theorem Sound.delay_bounds (h : b.Sound) (k : Nat) :
    b.initial.nanos ≤ (b.delay k).nanos ∧ (b.delay k).nanos ≤ b.max.nanos := by
  have hle := h.initial_le
  induction k with
  | zero => exact ⟨le_rfl, hle⟩
  | succ k ih =>
    simp only [delay, h.nanos_grown]
    omega

/-- No delay is shorter than the one before. -/
theorem Sound.delay_mono (h : b.Sound) : Monotone fun k => (b.delay k).nanos := by
  refine monotone_nat_of_le_succ fun k => ?_
  have hbound := (h.delay_bounds k).2
  simp only [delay, h.nanos_grown]
  omega

/-- **If the factor adds a nanosecond to the first delay, every delay grows** that is not the
longest. -/
theorem Sound.delay_lt_or_eq (h : b.Sound) (hadds : 8 ≤ b.initial.nanos * (b.eighths - 8))
    (k : Nat) :
    (b.delay k).nanos < (b.delay (k + 1)).nanos ∨ (b.delay k).nanos = b.max.nanos := by
  obtain ⟨hlow, hhigh⟩ := h.delay_bounds k
  have hmore : b.initial.nanos * (b.eighths - 8) ≤ (b.delay k).nanos * (b.eighths - 8) :=
    Nat.mul_le_mul_right _ hlow
  simp only [delay, h.nanos_grown]
  omega

/-- **Otherwise the first delay is the only one.** -/
theorem Sound.delay_eq (h : b.Sound) (hadds : ¬ 8 ≤ b.initial.nanos * (b.eighths - 8)) (k : Nat) :
    b.delay k = b.initial := by
  have hle := h.initial_le
  induction k with
  | zero => rfl
  | succ k ih =>
    refine Duration.eq_of_nanos_eq ?_
    rw [delay, ih, h.nanos_grown]
    omega

/-- What grows as long as it is below a limit gets there, and stays. -/
theorem climbs_of_lt_or_eq {delay : Nat → Nat} {limit : Nat} (hmono : Monotone delay)
    (hle : ∀ k, delay k ≤ limit) (hgrows : ∀ k, delay k < delay (k + 1) ∨ delay k = limit) :
    Climbs delay limit := by
  have hreached : ∃ n, delay n = limit := by
    by_contra hnever
    push Not at hnever
    -- one nanosecond or more with every step
    have hstrict : StrictMono delay :=
      strictMono_nat_of_lt_succ fun k => (hgrows k).resolve_right (hnever k)
    have habove : limit + 1 ≤ delay (limit + 1) := hstrict.le_apply
    exact absurd (hle (limit + 1)) (by omega)
  refine ⟨Nat.find hreached, fun k hk => ?_, fun k hk => ?_⟩
  · exact (hgrows k).resolve_right (Nat.find_min hreached hk)
  · exact le_antisymm (hle k) ((Nat.find_spec hreached).ge.trans (hmono hk))

/-- **The delays climb to the maximum** if the first one grows, or if there is nothing to climb. -/
theorem Sound.climbs_iff (h : b.Sound) :
    Climbs (fun k => (b.delay k).nanos) b.max.nanos ↔
      8 ≤ b.initial.nanos * (b.eighths - 8) ∨ b.initial = b.max := by
  constructor
  · rintro ⟨n, -, hmax⟩
    refine or_iff_not_imp_left.mpr fun hadds => Duration.eq_of_nanos_eq ?_
    have hlast : (b.delay n).nanos = b.max.nanos := hmax n le_rfl
    rwa [h.delay_eq hadds] at hlast
  · rintro (hadds | hmax)
    · exact climbs_of_lt_or_eq h.delay_mono (fun k => (h.delay_bounds k).2) (h.delay_lt_or_eq hadds)
    · refine ⟨0, fun k hk => absurd hk k.not_lt_zero, fun k _ => ?_⟩
      obtain ⟨hlow, hhigh⟩ := h.delay_bounds k
      rw [hmax] at hlow
      exact le_antisymm hhigh hlow

/-- Doubled delays. -/
theorem Sound.delay_double (h : b.Sound) (hdouble : b.eighths = double) (k : Nat) :
    (b.delay k).nanos = min (b.initial.nanos * 2 ^ k) b.max.nanos := by
  have hle := h.initial_le
  induction k with
  | zero => simp [delay, hle]
  | succ k ih =>
    rw [delay, Backoff.nanos_grown, ih, hdouble, double, pow_succ, ← Nat.mul_assoc]
    omega

/-! ### Runs -/

/-- The product of that delay and the factor is a duration, so that the delay after it can be
computed. -/
def Continues (b : Backoff) (k : Nat) : Prop :=
  (⟨(b.delay k).nanos * b.eighths⟩ : Duration).Representable

instance (b : Backoff) (k : Nat) : Decidable (b.Continues k) :=
  inferInstanceAs (Decidable (Duration.Representable _))

/-- **What is replied if a delay is wanted**, after `k` others were since the last reset. -/
def reply (b : Backoff) (k : Nat) : Except BackoffError Duration :=
  if b.Continues k then .ok (b.delay k) else .error .overflow

/-- The delays after `k` of them were handed out since the last reset. -/
def after (b : Backoff) (k : Nat) : Backoff := { b with next := b.delay k }

theorem Sound.continues (h : b.Sound)
    (hmax : (⟨b.max.nanos * b.eighths⟩ : Duration).Representable) (k : Nat) : b.Continues k :=
  hmax.of_le (Nat.mul_le_mul_right _ (h.delay_bounds k).2)

/-- Where the delays break off there is none later on. -/
theorem Sound.reply_of_le (h : b.Sound) (hk : ¬ b.Continues k) {j : Nat} (hkj : k ≤ j) :
    b.reply j = .error .overflow := by
  refine if_neg fun hj => hk ?_
  exact hj.of_le (Nat.mul_le_mul_right _ (h.delay_mono hkj))

theorem step_after (b : Backoff) (k : Nat) :
    (b.after k).step =
      if b.Continues k then .ok (b.delay k, b.after (k + 1)) else .error .overflow := by
  by_cases hk : b.Continues k
  · rw [if_pos hk]
    simp only [Continues] at hk
    simp [step, after, Duration.times?, hk, delay, grown]
  · rw [if_neg hk]
    simp only [Continues] at hk
    simp [step, after, Duration.times?, hk]

/-- **One call more.** -/
theorem serve_after (b : Backoff) (k : Nat) (c : Call) :
    (∃ j, ((b.after k).serve c).2 = b.after j) ∧
      ∀ r ∈ ((b.after k).serve c).1, r = b.reply k := by
  cases c with
  | reset => exact ⟨⟨0, rfl⟩, by simp [serve]⟩
  | next =>
    simp only [serve, step_after, reply]
    by_cases hk : b.Continues k
    · simp only [if_pos hk, List.mem_singleton]
      exact ⟨⟨k + 1, rfl⟩, fun r hr => hr⟩
    · simp only [if_neg hk, List.mem_singleton]
      exact ⟨⟨k, rfl⟩, fun r hr => hr⟩

/-- **Any calls.** -/
theorem serveAll_after (b : Backoff) (k : Nat) (calls : List Call) :
    (∃ j, ((b.after k).serveAll calls).2 = b.after j) ∧
      ∀ r ∈ ((b.after k).serveAll calls).1, ∃ j, r = b.reply j := by
  induction calls generalizing k with
  | nil => exact ⟨⟨k, rfl⟩, by simp [serveAll]⟩
  | cons c calls ih =>
    obtain ⟨⟨i, hleft⟩, hreply⟩ := b.serve_after k c
    obtain ⟨hlast, hreplies⟩ := ih i
    simp only [serveAll, hleft]
    refine ⟨hlast, fun r hr => ?_⟩
    rcases List.mem_append.mp hr with hr | hr
    · exact ⟨k, hreply r hr⟩
    · exact hreplies r hr

/-- **An overflow changes nothing**, so there is another one with every call. -/
theorem serveAll_next_of_error {s : Backoff} {e : BackoffError} (hs : s.step = .error e) (n : Nat) :
    s.serveAll (.replicate n .next) = (.replicate n (.error e), s) := by
  induction n with
  | zero => rfl
  | succ n ih =>
    simp only [List.replicate_succ, serveAll, serve, hs, ih]
    rfl

/-- **Without a reset, one delay comes after the other.** -/
theorem Sound.serveAll_next (h : b.Sound) (k n : Nat) :
    ((b.after k).serveAll (.replicate n .next)).1 = (List.range' k n).map b.reply := by
  induction n generalizing k with
  | zero => rfl
  | succ n ih =>
    have hstep := b.step_after k
    by_cases hk : b.Continues k
    · rw [if_pos hk] at hstep
      have hreply : b.reply k = .ok (b.delay k) := if_pos hk
      simp only [List.replicate_succ, serveAll, serve, hstep, ih, List.range'_succ, List.map_cons,
        hreply, List.singleton_append]
    · -- the delays break off here, so all that is left are overflows
      rw [if_neg hk] at hstep
      rw [serveAll_next_of_error hstep]
      refine (List.eq_replicate_iff.mpr ⟨by simp, ?_⟩).symm
      rw [List.forall_mem_map]
      exact fun j hj => h.reply_of_le hk (List.mem_range'_1.mp hj).1

/-! ### The course of the delays -/

/-- **The delays grow up to the maximum.** If the first delay is within the maximum and the factor
is one or more, there are such delays. After any calls and a reset they start with the first one,
each at least as long as the one before. They climb to the maximum if the factor adds a nanosecond
to the first delay, or if that is the maximum, and otherwise they stay the same. Doubled delays are
the first one times a power of two, cut off at the maximum. If the maximum times the factor is a
duration, no call fails, and every delay lies between the first and the maximum. If it is none, the
delays may overflow. That leaves everything as it was, so the next call overflows as well. -/
theorem delays_grow (initial max : Duration) (eighths : Nat) (hle : initial.nanos ≤ max.nanos)
    (hgrows : 8 ≤ eighths) :
    ∃ b, Backoff.new initial max eighths = .ok b ∧ b.reset = b ∧
      (∀ calls,
        let run := b.serveAll calls
        (∀ n, (run.2.reset.serveAll (.replicate n .next)).1 = (List.range n).map b.reply) ∧
        ((⟨max.nanos * eighths⟩ : Duration).Representable → ∀ r ∈ run.1,
          ∃ d, r = .ok d ∧ initial.nanos ≤ d.nanos ∧ d.nanos ≤ max.nanos) ∧
        ∀ e, run.2.step = .error e → e = .overflow ∧
          ∀ n, run.2.serveAll (.replicate n .next) = (.replicate n (.error e), run.2)) ∧
      ((⟨max.nanos * eighths⟩ : Duration).Representable → ∀ k, b.reply k = .ok (b.delay k)) ∧
      b.delay 0 = initial ∧
      Monotone (fun k => (b.delay k).nanos) ∧
      (Climbs (fun k => (b.delay k).nanos) max.nanos ↔
        8 ≤ initial.nanos * (eighths - 8) ∨ initial = max) ∧
      (¬ 8 ≤ initial.nanos * (eighths - 8) → ∀ k, b.delay k = initial) ∧
      (eighths = double → ∀ k, (b.delay k).nanos = min (initial.nanos * 2 ^ k) max.nanos) := by
  have hsound : Sound ⟨initial, max, eighths, initial⟩ := ⟨hle, hgrows⟩
  refine ⟨⟨initial, max, eighths, initial⟩, ?_, rfl, fun calls => ?_,
    fun hmax k => if_pos (hsound.continues hmax k), rfl, hsound.delay_mono, hsound.climbs_iff,
    hsound.delay_eq, hsound.delay_double⟩
  · rw [Backoff.new, if_neg (Nat.not_lt.mpr hgrows), if_neg (Nat.not_lt.mpr hle)]
  intro run
  obtain ⟨⟨k, hlast⟩, hreplies⟩ := serveAll_after ⟨initial, max, eighths, initial⟩ 0 calls
  have hrun : run.2 = after _ k := hlast
  refine ⟨fun n => ?_, fun hmax r hr => ?_, fun e he => ?_⟩
  · rw [hrun, List.range_eq_range']
    exact hsound.serveAll_next 0 n
  · obtain ⟨j, rfl⟩ := hreplies r hr
    exact ⟨_, if_pos (hsound.continues hmax j), hsound.delay_bounds j⟩
  · refine ⟨?_, serveAll_next_of_error he⟩
    rw [hrun, step_after] at he
    split at he
    · cases he
    · exact (Except.error.inj he).symm

/-- A quarter more than four nanoseconds is five, and a quarter more than three is three. The last
delays reach a maximum that is too long for the multiplication. -/
theorem delays_grow_nanoseconds :
    (∃ b, Backoff.new ⟨4⟩ ⟨10⟩ 10 = .ok b ∧ Climbs (fun k => (b.delay k).nanos) 10 ∧
      let run := b.serveAll [.next, .next]
      (∀ r ∈ run.1, ∃ d, r = .ok d ∧ 4 ≤ d.nanos ∧ d.nanos ≤ 10) ∧
      (run.2.reset.serveAll (.replicate 7 .next)).1 =
        [4, 5, 6, 7, 8, 10, 10].map fun nanos => .ok ⟨nanos⟩) ∧
    (∃ b, Backoff.new ⟨3⟩ ⟨10⟩ 10 = .ok b ∧ ¬ Climbs (fun k => (b.delay k).nanos) 10 ∧
      ∀ k, b.delay k = ⟨3⟩) ∧
    (∃ b, Backoff.new ⟨3⟩ ⟨10⟩ double = .ok b ∧ ∀ k, (b.delay k).nanos = min (3 * 2 ^ k) 10) ∧
    let seconds (n : Nat) : Duration := ⟨n * Duration.nanosPerSecond⟩
    ∃ b, Backoff.new (seconds 0x400000000000000) (seconds 0x1000000000000000) double = .ok b ∧
      let run := b.serveAll [.next, .next, .next]
      run.1 = [.ok (seconds 0x400000000000000), .ok (seconds 0x800000000000000),
        .error .overflow] ∧
      run.2.serveAll (.replicate 2 .next) = (.replicate 2 (.error .overflow), run.2) := by
  refine ⟨?quarter, ?stays, ?doubled, ?overflow⟩
  case quarter =>
    obtain ⟨b, hnew, -, hruns, hreply, -, -, hclimbs, -⟩ :=
      delays_grow ⟨4⟩ ⟨10⟩ 10 (by decide) (by decide)
    obtain ⟨hstarts, hall, -⟩ := hruns [.next, .next]
    refine ⟨b, hnew, hclimbs.mpr (.inl (by decide)), hall (by decide), (hstarts 7).trans ?_⟩
    obtain rfl : _ = b := Except.ok.inj hnew
    decide
  case stays =>
    obtain ⟨b, hnew, -, -, -, -, -, hclimbs, hstays, -⟩ :=
      delays_grow ⟨3⟩ ⟨10⟩ 10 (by decide) (by decide)
    exact ⟨b, hnew, fun h => absurd (hclimbs.mp h) (by decide), hstays (by decide)⟩
  case doubled =>
    obtain ⟨b, hnew, -, -, -, -, -, -, -, hdoubled⟩ :=
      delays_grow ⟨3⟩ ⟨10⟩ double (by decide) (by decide)
    exact ⟨b, hnew, hdoubled rfl⟩
  case overflow =>
    intro seconds
    obtain ⟨b, hnew, -, hruns, -⟩ := delays_grow (seconds 0x400000000000000)
      (seconds 0x1000000000000000) double (by decide) (by decide)
    obtain ⟨-, -, hoverflow⟩ := hruns [.next, .next, .next]
    refine ⟨b, hnew, ?_⟩
    obtain rfl : _ = b := Except.ok.inj hnew
    exact ⟨by decide, (hoverflow .overflow (by decide)).2 2⟩

end Backoff

end Tether
