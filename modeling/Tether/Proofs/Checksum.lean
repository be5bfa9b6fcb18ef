import Mathlib.Algebra.Group.Nat.Defs
import Mathlib.Order.Lattice
import Tether.Bytes
import Tether.Checksum

/-!
# What the checksum tells apart

The remainder of a message is carried along by shifts. A shift is linear in exclusive or, and
undone by no other remainder, so what once differs goes on to differ (`remainder_injective`). Up to
four bytes are a word that is added to the remainder before it is shifted (`remainder_eq_shifts`),
since the zeros below a byte are shifted out unchanged.

Main result: messages that differ in at most four bytes next to each other have different
remainders (`Burst.remainder_ne`). For more bytes that is not so: five of them can add up to the
polynomial.
-/

namespace Tether.Checksum

/-! ### Shifts -/

theorem low_bit (r : UInt32) : r &&& 1 = 1 ↔ r.toNat % 2 = 1 := by
  rw [← UInt32.toNat_inj, UInt32.toNat_and]
  exact (Nat.and_one_is_mod r.toNat).symm ▸ Iff.rfl

theorem toNat_half (r : UInt32) : (r >>> 1).toNat = r.toNat / 2 := by
  rw [UInt32.toNat_shiftRight]
  exact Nat.shiftRight_eq_div_pow _ _

/-- What a shift takes away: the polynomial, if the lowest bit is set. -/
def taken (r : UInt32) : UInt32 := if r &&& 1 = 1 then polynomial else 0

theorem shift_eq (r : UInt32) : shift r = r >>> 1 ^^^ taken r := by
  simp only [shift, taken]
  split <;> simp

theorem taken_xor (r s : UInt32) : taken (r ^^^ s) = taken r ^^^ taken s := by
  have hlow : (r ^^^ s) &&& 1 = 1 ↔ ¬ (r &&& 1 = 1 ↔ s &&& 1 = 1) := by
    have hxor := Nat.xor_mod_two_eq_one (a := r.toNat) (b := s.toNat)
    simpa only [low_bit, UInt32.toNat_xor] using hxor
  simp only [taken, hlow]
  by_cases hr : r &&& 1 = 1 <;> by_cases hs : s &&& 1 = 1 <;> simp [hr, hs]

/-- **A shift is linear.** -/
theorem shift_xor (r s : UInt32) : shift (r ^^^ s) = shift r ^^^ shift s := by
  simp only [shift_eq, taken_xor, UInt32.shiftRight_xor]
  ac_rfl

theorem shift_eq_zero {r : UInt32} (h : shift r = 0) : r = 0 := by
  have hlt := r.toNat_lt
  unfold shift at h
  split at h
  · -- the highest bit of the polynomial is set, and that of what was shifted is not
    rw [UInt32.xor_eq_zero_iff] at h
    have hhalf : r.toNat / 2 = polynomial.toNat := by rw [← toNat_half, h]
    have hpoly : polynomial.toNat = 0x82F63B78 := rfl
    omega
  · next hlow =>
    have hhalf : r.toNat / 2 = 0 := by rw [← toNat_half, h]; rfl
    rw [low_bit] at hlow
    refine UInt32.toNat_inj.mp ?_
    show r.toNat = 0
    omega

theorem shift_injective : Function.Injective shift := by
  intro r s h
  refine UInt32.xor_eq_zero_iff.mp (shift_eq_zero ?_)
  rw [shift_xor, h, UInt32.xor_self]

theorem shifts_xor (n : Nat) (r s : UInt32) : shifts n (r ^^^ s) = shifts n r ^^^ shifts n s := by
  induction n generalizing r s with
  | zero => rfl
  | succ n ih => simp only [shifts, shift_xor, ih]

theorem shifts_injective (n : Nat) : Function.Injective (shifts n) := by
  induction n with
  | zero => exact fun _ _ h => h
  | succ n ih => exact ih.comp shift_injective

theorem shifts_add (m n : Nat) (r : UInt32) : shifts (m + n) r = shifts n (shifts m r) := by
  induction m generalizing r with
  | zero => rw [Nat.zero_add]; rfl
  | succ m ih => rw [Nat.succ_add, shifts, ih, shifts]

theorem shift_even {n : Nat} (h : 2 * n < UInt32.size) : shift (.ofNat (2 * n)) = .ofNat n := by
  have hn : (UInt32.ofNat (2 * n)).toNat = 2 * n := UInt32.toNat_ofNat_of_lt' h
  rw [shift, if_neg (by rw [low_bit, hn]; omega)]
  refine UInt32.toNat_inj.mp ?_
  rw [toNat_half, hn, UInt32.toNat_ofNat_of_lt' (by omega)]
  omega

/-- Zeros below a number are shifted out, and leave it as it is. -/
theorem shifts_multiple {k n : Nat} (h : 2 ^ k * n < UInt32.size) :
    shifts k (.ofNat (2 ^ k * n)) = .ofNat n := by
  induction k with
  | zero => simp [shifts]
  | succ k ih =>
    rw [Nat.pow_succ', Nat.mul_assoc] at h ⊢
    rw [shifts, shift_even h, ih (by omega)]

/-! ### Remainders -/

theorem absorb_injective (b : UInt8) : Function.Injective (absorb · b) :=
  (shifts_injective 8).comp fun _ _ h => (UInt32.xor_left_inj _).mp h

/-- **What differs goes on to differ**, whatever the bytes after it. -/
theorem remainder_injective (bs : Bytes) : Function.Injective (remainder · bs) := by
  induction bs with
  | nil => exact fun _ _ h => h
  | cons b bs ih => exact ih.comp (absorb_injective b)

/-! ### Words -/

/-- The word that some bytes are, the first of them the least significant one. -/
def word (bs : Bytes) : UInt32 := .ofNat (BigEndian.decode bs.reverse)

theorem decode_reverse_lt {bs : Bytes} {n : Nat} (h : bs.length ≤ n) :
    BigEndian.decode bs.reverse < Nat.pow 256 n := by
  have hlt := BigEndian.decode_lt bs.reverse
  rw [List.length_reverse] at hlt
  exact hlt.trans_le (Nat.pow_le_pow_right (by decide) h)

/-- As many bytes that are the same word are the same. -/
theorem eq_of_word_eq {bs bs' : Bytes} (hlen : bs'.length = bs.length) (h : bs.length ≤ 4)
    (hw : word bs' = word bs) : bs' = bs := by
  have h4 : Nat.pow 256 4 = UInt32.size := by decide
  have hlt := decode_reverse_lt h
  have hlt' := decode_reverse_lt (hlen.trans_le h)
  rw [h4] at hlt hlt'
  have hdecode := congrArg UInt32.toNat hw
  rw [word, word, UInt32.toNat_ofNat_of_lt' hlt, UInt32.toNat_ofNat_of_lt' hlt'] at hdecode
  exact List.reverse_inj.mp (BigEndian.eq_of_decode_eq (by simpa using hlen) hdecode)

/-- A byte is added below a number without a carry. -/
theorem ofNat_concat {n : Nat} (b : UInt8) (h : 2 ^ 8 * n < UInt32.size) :
    UInt32.ofNat (2 ^ 8 * n + b.toNat) = UInt32.ofNat (2 ^ 8 * n) ^^^ b.toUInt32 := by
  have hb : b.toNat < 2 ^ 8 := b.toNat_lt
  have hsize : 2 ^ 8 * n + b.toNat < UInt32.size := by
    simp only [UInt32.size] at h ⊢
    omega
  have hxor : 2 ^ 8 * n + b.toNat = 2 ^ 8 * n ^^^ b.toNat := by
    refine Nat.eq_of_testBit_eq fun i => ?_
    rw [Nat.testBit_two_pow_mul_add n hb, Nat.testBit_xor, Nat.testBit_two_pow_mul]
    by_cases hi : i < 8
    · simp [hi, Nat.not_le.mpr hi]
    · have hbit : b.toNat.testBit i = false :=
        Nat.testBit_lt_two_pow (hb.trans_le (Nat.pow_le_pow_right (by decide) (Nat.not_lt.mp hi)))
      simp [hi, hbit, Nat.not_lt.mp hi]
  refine UInt32.toNat_inj.mp ?_
  rw [UInt32.toNat_xor, UInt32.toNat_ofNat_of_lt' hsize, UInt32.toNat_ofNat_of_lt' h, hxor]
  rfl

/-- **Up to four bytes are one word**, which is added to the remainder and shifted with it. -/
theorem remainder_eq_shifts (r : UInt32) {bs : Bytes} (h : bs.length ≤ 4) :
    remainder r bs = shifts (8 * bs.length) (r ^^^ word bs) := by
  induction bs generalizing r with
  | nil => simp [remainder, shifts, word, BigEndian.decode]
  | cons b bs ih =>
    rw [List.length_cons] at h
    -- the word of the other bytes, moved up by a byte, is still a word
    have hlt : 2 ^ 8 * BigEndian.decode bs.reverse < UInt32.size := by
      have hshort := decode_reverse_lt (Nat.le_of_succ_le_succ h)
      have h3 : Nat.pow 256 3 = 0x1000000 := by decide
      simp only [UInt32.size]
      omega
    have hword : word (b :: bs) = .ofNat (2 ^ 8 * BigEndian.decode bs.reverse) ^^^ b.toUInt32 := by
      rw [word, List.reverse_cons, BigEndian.decode_concat]
      exact ofNat_concat b hlt
    calc remainder r (b :: bs)
      _ = remainder (absorb r b) bs := rfl
      _ = shifts (8 * bs.length) (absorb r b ^^^ word bs) := ih _ (by omega)
      _ = shifts (8 * bs.length) (shifts 8 (r ^^^ word (b :: bs))) := by
        rw [word, ← shifts_multiple hlt, absorb, ← shifts_xor, hword]
        congr 2
        ac_rfl
      _ = shifts (8 * (b :: bs).length) (r ^^^ word (b :: bs)) := by
        rw [← shifts_add, List.length_cons, Nat.mul_succ, Nat.add_comm]

/-- The remainder tells up to four bytes apart. -/
theorem eq_of_remainder_eq {r : UInt32} {bs bs' : Bytes} (hlen : bs'.length = bs.length)
    (h : bs.length ≤ 4) (heq : remainder r bs' = remainder r bs) : bs' = bs := by
  rw [remainder_eq_shifts r h, remainder_eq_shifts r (hlen.trans_le h), hlen] at heq
  exact eq_of_word_eq hlen h ((UInt32.xor_right_inj r).mp (shifts_injective _ heq))

/-- Five bytes can be the polynomial, and then they leave nothing. -/
example : remainder 0 [1, 0x03, 0x83, 0x6B, 0xF2] = remainder 0 [0, 0, 0, 0, 0] := by
  decide +kernel

end Tether.Checksum

/-! ### Bursts -/

namespace Tether

/-- **A change in one place**: two strings of bytes are of one length, and agree but for some
consecutive bytes. -/
structure Burst (start width : Nat) (bs bs' : Bytes) : Prop where
  length : bs'.length = bs.length
  agree : ∀ i, i < start ∨ start + width ≤ i → bs'[i]? = bs[i]?

namespace Burst

variable {start width : Nat} {bs bs' : Bytes}

theorem take_eq (h : Burst start width bs bs') {n : Nat} (hn : n ≤ start) :
    bs'.take n = bs.take n := by
  refine List.ext_getElem? fun i => ?_
  by_cases hi : i < n
  · rw [List.getElem?_take_of_lt hi, List.getElem?_take_of_lt hi, h.agree i (by omega)]
  · rw [List.getElem?_take_eq_none (by omega), List.getElem?_take_eq_none (by omega)]

theorem drop_eq (h : Burst start width bs bs') {n : Nat} (hn : start + width ≤ n) :
    bs'.drop n = bs.drop n := by
  refine List.ext_getElem? fun i => ?_
  rw [List.getElem?_drop, List.getElem?_drop, h.agree (n + i) (by omega)]

/-- A change in the first bytes, or in none of them. -/
theorem take (h : Burst start width bs bs') (n : Nat) :
    Burst start width (bs.take n) (bs'.take n) where
  length := by rw [List.length_take, List.length_take, h.length]
  agree i hi := by simp only [List.getElem?_take, h.agree i hi]

/-- A change behind some bytes. -/
theorem drop (h : Burst start width bs bs') {n : Nat} (hn : n ≤ start) :
    Burst (start - n) width (bs.drop n) (bs'.drop n) where
  length := by rw [List.length_drop, List.length_drop, h.length]
  agree i hi := by rw [List.getElem?_drop, List.getElem?_drop, h.agree (n + i) (by omega)]

/-- **A change of at most four bytes next to each other changes the remainder.** -/
theorem remainder_ne (h : Burst start width bs bs') (hw : width ≤ 4) (hne : bs' ≠ bs) (r : UInt32) :
    Checksum.remainder r bs' ≠ Checksum.remainder r bs := by
  intro heq
  have hsplit (cs : Bytes) :
      cs = cs.take start ++ ((cs.drop start).take width ++ cs.drop (start + width)) := by
    rw [← List.drop_drop, List.take_append_drop, List.take_append_drop]
  -- the remainders agree before the change, and so they do right behind it
  rw [hsplit bs, hsplit bs', h.take_eq le_rfl, h.drop_eq le_rfl] at heq
  simp only [Checksum.remainder_append] at heq
  have hmiddle := Checksum.remainder_injective _ heq
  have hbytes : (bs'.drop start).take width = (bs.drop start).take width :=
    Checksum.eq_of_remainder_eq (by simp [h.length]) (by simp; omega) hmiddle
  exact hne (by rw [hsplit bs', hsplit bs, h.take_eq le_rfl, hbytes, h.drop_eq le_rfl])

end Burst

end Tether
