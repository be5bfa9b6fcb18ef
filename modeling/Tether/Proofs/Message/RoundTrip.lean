import Tether.Message.Codec

/-!
# Reading what was written

A message whose numbers fit on the wire is read back from its frame
(`decode_encode`), if it means something. The fields are found by position, so the
work is to cut the frame at the right places.
-/

namespace Tether

/-! ### Integers in eight bytes -/

/-- What is read from the two's complement of an integer in `w` bytes. -/
theorem BigEndian.decodeInt_encodeInt_eq_bmod (w : Nat) (x : Int) :
    decodeInt (encodeInt w x) = x.bmod (Nat.pow 256 w) := by
  have hne : ((Nat.pow 256 w : Nat) : Int) ≠ 0 := by
    have : 0 < Nat.pow 256 w := Nat.pow_pos (by decide)
    omega
  have hpos := Int.emod_nonneg x hne
  have hlt : (x % (Nat.pow 256 w : Nat)).toNat < Nat.pow 256 w := by
    have := Int.emod_lt_of_pos x (by omega : 0 < ((Nat.pow 256 w : Nat) : Int))
    omega
  rw [decodeInt, encodeInt, decode_encode, length_encode, Nat.mod_eq_of_lt hlt,
    Int.toNat_of_nonneg hpos, Int.emod_bmod]

theorem BigEndian.decodeInt_encodeInt {x : Int} (h : InRange x) :
    decodeInt (encodeInt 8 x) = x := by
  obtain ⟨hlo, hhi⟩ := h
  have h8 : Nat.pow 256 8 = 0x10000000000000000 := by decide
  rw [decodeInt_encodeInt_eq_bmod, h8, Int.bmod_def]
  split <;> omega

/-- A number that does not fit comes back as a smaller one. -/
theorem BigEndian.decodeInt_encodeInt_le {x : Int} (h : noSequence ≤ x) :
    decodeInt (encodeInt 8 x) ≤ x := by
  have hlow : -1 ≤ x := h
  have h8 : Nat.pow 256 8 = 0x10000000000000000 := by decide
  rw [decodeInt_encodeInt_eq_bmod, h8, Int.bmod_def]
  split <;> omega

/-! ### Fields of a frame -/

namespace Message

open SessionId (length_toBytes)

/-- The field that stands between what comes before it and what comes after it. -/
theorem field_append {before bs after : Bytes} {start width : Nat} (hs : before.length = start)
    (hw : bs.length = width) : field (before ++ bs ++ after) start width = bs := by
  subst hs hw
  rw [field, List.append_assoc, List.drop_left, List.take_left]

variable (m : Message)

/-- The checksum of a message. -/
def sum : UInt32 := Checksum.checksum m.checkedHeader m.payload

theorem encode_eq : m.encode = m.checkedHeader ++ BigEndian.encode 4 m.sum.toNat ++ m.payload := by
  simp only [encode, writeTo, sum, List.nil_append, List.length_nil, List.drop_zero]

theorem take_encode : m.encode.take checkedLength = m.checkedHeader := by
  rw [encode_eq, List.append_assoc, List.take_left' (by simp; rfl)]

theorem drop_encode : m.encode.drop headerLength = m.payload := by
  rw [encode_eq, List.drop_left' (by simp; rfl)]

theorem length_encode : m.encode.length = headerLength + m.payload.length := by
  simp only [encode_eq, List.length_append, length_checkedHeader, BigEndian.length_encode]
  rfl

theorem field_session : field m.encode 0 SessionId.width = m.session.toBytes := by
  have h : m.encode = [] ++ m.session.toBytes ++ ([m.kind.code] ++ BigEndian.encodeInt 8 m.seq ++
      BigEndian.encodeInt 8 m.acked ++ BigEndian.encode 4 m.sum.toNat ++ m.payload) := by
    simp [encode_eq, checkedHeader]
  rw [h]
  exact field_append rfl (length_toBytes m.session)

theorem field_kind : field m.encode SessionId.width 1 = [m.kind.code] := by
  have h : m.encode = m.session.toBytes ++ [m.kind.code] ++ (BigEndian.encodeInt 8 m.seq ++
      BigEndian.encodeInt 8 m.acked ++ BigEndian.encode 4 m.sum.toNat ++ m.payload) := by
    simp [encode_eq, checkedHeader]
  rw [h]
  exact field_append (length_toBytes m.session) rfl

theorem field_seq : field m.encode 17 8 = BigEndian.encodeInt 8 m.seq := by
  have h : m.encode = (m.session.toBytes ++ [m.kind.code]) ++ BigEndian.encodeInt 8 m.seq ++
      (BigEndian.encodeInt 8 m.acked ++ BigEndian.encode 4 m.sum.toNat ++ m.payload) := by
    simp [encode_eq, checkedHeader]
  rw [h, field_append (by simp) (by simp)]

theorem field_acked : field m.encode 25 8 = BigEndian.encodeInt 8 m.acked := by
  have h : m.encode = (m.session.toBytes ++ [m.kind.code] ++ BigEndian.encodeInt 8 m.seq) ++
      BigEndian.encodeInt 8 m.acked ++ (BigEndian.encode 4 m.sum.toNat ++ m.payload) := by
    simp [encode_eq, checkedHeader]
  rw [h, field_append (by simp) (by simp)]

theorem field_sum : field m.encode checkedLength 4 = BigEndian.encode 4 m.sum.toNat := by
  rw [encode_eq, field_append (by simp; rfl) (by simp)]

/-- What is read from the frame of a message, whether its numbers fit or not, differs from
it in the numbers only. -/
theorem of_decode_encode {y : Message} (h : decode m.encode = .ok y) :
    y.session = m.session ∧ y.kind = m.kind ∧
      y.seq = BigEndian.decodeInt (BigEndian.encodeInt 8 m.seq) ∧
      y.acked = BigEndian.decodeInt (BigEndian.encodeInt 8 m.acked) := by
  have hcode : UInt8.ofNat (BigEndian.decode [m.kind.code]) = m.kind.code := by
    simp [BigEndian.decode]
  unfold decode at h
  simp only [field_session, field_kind, field_seq, field_acked, hcode, Kind.ofCode?_code,
    SessionId.ofBytes_toBytes] at h
  repeat' split at h
  all_goals cases h
  exact ⟨rfl, rfl, rfl, rfl⟩

variable {m}

/-- What is read from the frame of a message whose numbers fit: the message, or the first
field of it that means nothing. -/
theorem decode_encode_eq (hr : m.Representable) :
    decode m.encode =
      if m.kind = .send ∧ m.seq < 0 then .error (.invalidSequence m.seq)
      else if m.kind ≠ .send ∧ m.payload ≠ [] then .error (.unexpectedPayload m.kind)
      else if m.acked < noSequence then .error (.invalidSequence m.acked)
      else .ok m := by
  have hlen : ¬ m.encode.length < headerLength := by rw [length_encode]; omega
  have hsum : UInt32.ofNat (BigEndian.decode (BigEndian.encode 4 m.sum.toNat)) = m.sum := by
    have hlt : m.sum.toNat < Nat.pow 256 4 := m.sum.toNat_lt
    rw [BigEndian.decode_encode, Nat.mod_eq_of_lt hlt, UInt32.ofNat_toNat]
  have hcode : UInt8.ofNat (BigEndian.decode [m.kind.code]) = m.kind.code := by
    simp [BigEndian.decode]
  simp only [decode, if_neg hlen, take_encode, drop_encode, field_session, field_kind, field_seq,
    field_acked, field_sum, hsum, hcode, Kind.ofCode?_code, SessionId.ofBytes_toBytes,
    BigEndian.decodeInt_encodeInt hr.seq, BigEndian.decodeInt_encodeInt hr.acked]
  rw [if_neg (by simp [sum])]

/-- **A message is read back from its frame**, if it means something and its numbers
fit. -/
theorem decode_encode (hw : m.WellFormed) (hr : m.Representable) : decode m.encode = .ok m := by
  have hbody := hw.body
  have hacked := hw.acked
  rw [decode_encode_eq hr, if_neg (by grind), if_neg (by grind), if_neg (by omega)]

end Message

end Tether
