/-!
# Bytes

Strings of bytes, and numbers written in a fixed number of bytes, the most
significant first. A natural number keeps its remainder modulo `256 ^ w` in `w`
bytes (`decode_encode`), and `w` bytes are the writing of the number they spell
(`encode_decode`). An integer is written as its two's complement.
-/

namespace Tether

/-- A string of bytes. -/
abbrev Bytes := List UInt8

namespace BigEndian

/-! ### Natural numbers -/

/-- The `w` bytes of `n`; what does not fit is dropped. -/
def encode : Nat → Nat → Bytes
  | 0, _ => []
  | w + 1, n => encode w (n / 256) ++ [UInt8.ofNat n]

/-- The number that the bytes spell. -/
def decode (bs : Bytes) : Nat := bs.foldl (fun n b => 256 * n + b.toNat) 0

@[simp] theorem length_encode (w n : Nat) : (encode w n).length = w := by
  induction w generalizing n with
  | zero => rfl
  | succ w ih => simp [encode, ih]

theorem decode_concat (bs : Bytes) (b : UInt8) :
    decode (bs ++ [b]) = 256 * decode bs + b.toNat := by
  simp [decode]

theorem decode_encode (w n : Nat) : decode (encode w n) = n % Nat.pow 256 w := by
  show _ = n % 256 ^ w
  induction w generalizing n with
  | zero => simp [encode, decode, Nat.mod_one]
  | succ w ih =>
    have h := Nat.mod_mul (a := 256) (b := 256 ^ w) (x := n)
    simp only [encode, decode_concat, ih, UInt8.toNat_ofNat', Nat.pow_succ]
    rw [Nat.mul_comm (256 ^ w) 256, h]
    omega

theorem encode_decode (bs : Bytes) : encode bs.length (decode bs) = bs := by
  generalize hn : bs.length = n
  induction n generalizing bs with
  | zero => rw [List.length_eq_zero_iff.mp hn, encode]
  | succ n ih =>
    have hne : bs ≠ [] := by intro h; simp [h] at hn
    have hsplit := List.dropLast_concat_getLast hne
    have hlen : bs.dropLast.length = n := by simp [hn]
    have hlt : (bs.getLast hne).toNat < 256 := (bs.getLast hne).toNat_lt
    rw [← hsplit, decode_concat, encode]
    have hdiv : (256 * decode bs.dropLast + (bs.getLast hne).toNat) / 256 = decode bs.dropLast := by
      omega
    rw [hdiv, ih _ hlen]
    congr 2
    apply UInt8.toNat_inj.mp
    rw [UInt8.toNat_ofNat']
    omega

/-- As many bytes that spell the same number are the same. -/
theorem eq_of_decode_eq {bs bs' : Bytes} (hlen : bs.length = bs'.length)
    (h : decode bs = decode bs') : bs = bs' := by
  rw [← encode_decode bs, hlen, h, encode_decode]

theorem decode_lt (bs : Bytes) : decode bs < Nat.pow 256 bs.length := by
  have h := decode_encode bs.length (decode bs)
  rw [encode_decode] at h
  rw [h]
  exact Nat.mod_lt _ (Nat.pow_pos (by decide))

/-! ### Integers -/

/-- The two's complement of `x` in `w` bytes. -/
def encodeInt (w : Nat) (x : Int) : Bytes := encode w (x % (Nat.pow 256 w : Nat)).toNat

/-- The integer whose two's complement the bytes are. -/
def decodeInt (bs : Bytes) : Int := Int.bmod (decode bs) (Nat.pow 256 bs.length)

@[simp] theorem length_encodeInt (w : Nat) (x : Int) : (encodeInt w x).length = w := by
  simp [encodeInt]

end BigEndian

end Tether
