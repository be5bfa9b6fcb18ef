import Tether.Proofs.Message.RoundTrip

/-!
# One frame for each message

A frame that is accepted is the frame of the message that is read from it, and that
message means something (`spells_of_decode`, `Spells.encode_eq`). With the way back this
makes reading and writing inverse to each other: there is one frame for each message that
means something, and no other frame is accepted. What means nothing is refused for the
field that is wrong (`decode_encode_cases`).
-/

namespace Tether

/-! ### Numbers -/

namespace BigEndian

/-- Bytes are the two's complement of the integer that they spell. -/
theorem encodeInt_decodeInt (bs : Bytes) : encodeInt bs.length (decodeInt bs) = bs := by
  have hlt := decode_lt bs
  rw [encodeInt, decodeInt, Int.bmod_emod,
    Int.emod_eq_of_lt (Int.natCast_nonneg _) (Int.ofNat_lt.mpr hlt), Int.toNat_natCast,
    encode_decode]

/-- Eight bytes spell an integer of eight bytes. -/
theorem inRange_decodeInt {bs : Bytes} (h : bs.length = 8) : InRange (decodeInt bs) := by
  have h8 : Nat.pow 256 8 = 0x10000000000000000 := by decide
  rw [decodeInt, h, h8, Int.bmod_def]
  constructor <;> split <;> omega

end BigEndian

namespace Message

/-! ### Fields -/

section
variable (frame : Bytes) (start width : Nat)

/-- A field stands in front of what comes after it. -/
theorem drop_eq_field_append :
    frame.drop start = field frame start width ++ frame.drop (start + width) := by
  rw [field, ← List.drop_drop, List.take_append_drop]

variable {frame start width}

theorem length_field (h : start + width ≤ frame.length) :
    (field frame start width).length = width := by
  rw [field, List.length_take, List.length_drop]
  omega

end

/-- The fields of the header, one after the other. -/
theorem eq_fields (frame : Bytes) :
    frame = field frame 0 16 ++ field frame 16 1 ++ field frame 17 8 ++ field frame 25 8 ++
      frame.drop 33 := by
  have h₀ := drop_eq_field_append frame 0 16
  have h₁ := drop_eq_field_append frame 16 1
  have h₂ := drop_eq_field_append frame 17 8
  have h₃ := drop_eq_field_append frame 25 8
  simp only [List.append_assoc]
  rw [← h₃, ← h₂, ← h₁, ← h₀, List.drop_zero]

/-! ### Reading and writing -/

/-- What is wrong with a message that means nothing, and how that is called. -/
inductive Flaw (m : Message) : DecodeError → Prop where
  /-- The number of a payload is negative. -/
  | seq (hk : m.kind = .send) (h : m.seq < 0) : Flaw m (.invalidSequence m.seq)
  /-- A payload comes with another kind than `send`. -/
  | payload (hk : m.kind ≠ .send) (h : m.payload ≠ []) : Flaw m (.unexpectedPayload m.kind)
  /-- What is acknowledged is neither a number nor none. -/
  | acked (h : m.acked < noSequence) : Flaw m (.invalidSequence m.acked)

variable {m : Message} {frame : Bytes}

theorem Flaw.not_wellFormed {e : DecodeError} (h : m.Flaw e) : ¬ m.WellFormed := by
  intro hw
  cases h with
  | seq hk h =>
    rcases hw.body with ⟨-, hpos⟩ | ⟨hk', -⟩
    · omega
    · exact hk' hk
  | payload hk h =>
    rcases hw.body with ⟨hk', -⟩ | ⟨-, hempty⟩
    · exact hk hk'
    · exact h hempty
  | acked h => exact absurd hw.acked (by omega)

/-- The frame of a message is read back, or refused for what is wrong with the message. -/
theorem decode_encode_cases (hr : m.Representable) :
    (m.WellFormed ∧ decode m.encode = .ok m) ∨ ∃ e, m.Flaw e ∧ decode m.encode = .error e := by
  rw [decode_encode_eq hr]
  by_cases hseq : m.kind = .send ∧ m.seq < 0
  · exact .inr ⟨_, .seq hseq.1 hseq.2, if_pos hseq⟩
  rw [if_neg hseq]
  by_cases hpayload : m.kind ≠ .send ∧ m.payload ≠ []
  · exact .inr ⟨_, .payload hpayload.1 hpayload.2, if_pos hpayload⟩
  rw [if_neg hpayload]
  by_cases hacked : m.acked < noSequence
  · exact .inr ⟨_, .acked hacked, if_pos hacked⟩
  · exact .inl ⟨⟨by omega, by grind⟩, if_neg hacked⟩

/-- **The fields of a frame are those of a message.** -/
structure Spells (frame : Bytes) (m : Message) : Prop where
  length : 37 ≤ frame.length
  session : m.session = .ofBytes (field frame 0 16)
  kind : Kind.ofCode? (UInt8.ofNat (BigEndian.decode (field frame 16 1))) = some m.kind
  seq : m.seq = BigEndian.decodeInt (field frame 17 8)
  acked : m.acked = BigEndian.decodeInt (field frame 25 8)
  payload : m.payload = frame.drop 37
  /-- The checksum in the frame is the one of its bytes. -/
  sum : Checksum.checksum (frame.take 33) m.payload =
    UInt32.ofNat (BigEndian.decode (field frame 33 4))

/-- A frame that is accepted spells a message that means something. -/
theorem spells_of_decode (h : decode frame = .ok m) : m.WellFormed ∧ Spells frame m := by
  unfold decode at h
  by_cases hlen : frame.length < headerLength
  · rw [if_pos hlen] at h
    cases h
  rw [if_neg hlen] at h
  dsimp only at h
  by_cases hsum : Checksum.checksum (frame.take checkedLength) (frame.drop headerLength) ≠
      UInt32.ofNat (BigEndian.decode (field frame checkedLength 4))
  · rw [if_pos hsum] at h
    cases h
  rw [if_neg hsum] at h
  cases hkind : Kind.ofCode? (UInt8.ofNat (BigEndian.decode (field frame SessionId.width 1))) with
  | none =>
    rw [hkind] at h
    cases h
  | some kind =>
    rw [hkind] at h
    dsimp only at h
    split at h
    · cases h
    split at h
    · cases h
    split at h
    · cases h
    next hseq hpayload hacked =>
    cases h
    constructor
    · exact ⟨by simpa using hacked, by grind⟩
    · exact ⟨Nat.not_lt.mp hlen, rfl, hkind, rfl, rfl, rfl, Decidable.not_not.mp hsum⟩

namespace Spells

theorem representable (h : Spells frame m) : m.Representable := by
  have hlen := h.length
  constructor
  · rw [h.seq]
    exact BigEndian.inRange_decodeInt (length_field (by omega))
  · rw [h.acked]
    exact BigEndian.inRange_decodeInt (length_field (by omega))

/-- The header of the message stands in front of the frame. -/
theorem take_eq_checkedHeader (h : Spells frame m) : frame.take 33 = m.checkedHeader := by
  have hlen := h.length
  have hcode : [m.kind.code] = field frame 16 1 := by
    obtain ⟨b, hb⟩ := List.length_eq_one_iff.mp (length_field (by omega : 16 + 1 ≤ frame.length))
    rw [Kind.code_of_ofCode? h.kind, hb]
    simp [BigEndian.decode]
  have hseq : BigEndian.encodeInt 8 m.seq = field frame 17 8 := by
    have hback := BigEndian.encodeInt_decodeInt (field frame 17 8)
    rwa [length_field (by omega), ← h.seq] at hback
  have hacked : BigEndian.encodeInt 8 m.acked = field frame 25 8 := by
    have hback := BigEndian.encodeInt_decodeInt (field frame 25 8)
    rwa [length_field (by omega), ← h.acked] at hback
  have hheader : m.checkedHeader =
      field frame 0 16 ++ field frame 16 1 ++ field frame 17 8 ++ field frame 25 8 := by
    rw [checkedHeader, h.session, SessionId.toBytes_ofBytes (length_field (by omega)), hcode, hseq,
      hacked]
  have hframe := eq_fields frame
  rw [← hheader] at hframe
  rw [hframe, List.take_left' (length_checkedHeader m)]

/-- The frame is that of the message. -/
theorem encode_eq (h : Spells frame m) : m.encode = frame := by
  have hlen := h.length
  have hsum : BigEndian.encode 4 m.sum.toNat = field frame 33 4 := by
    have hlt := BigEndian.decode_lt (field frame 33 4)
    have hback := BigEndian.encode_decode (field frame 33 4)
    rw [length_field (by omega)] at hlt hback
    rw [Message.sum, ← h.take_eq_checkedHeader, h.sum, UInt32.toNat_ofNat_of_lt' hlt, hback]
  calc m.encode
    _ = frame.take 33 ++ (field frame 33 4 ++ frame.drop 37) := by
      rw [Message.encode_eq, hsum, h.payload, h.take_eq_checkedHeader, List.append_assoc]
    _ = frame := by rw [← drop_eq_field_append frame 33 4, List.take_append_drop]

end Spells

/-- A frame is written behind whatever a buffer holds. -/
theorem writeTo_eq (buffer : Bytes) (m : Message) : m.writeTo buffer = buffer ++ m.encode := by
  rw [encode_eq, writeTo, sum]
  simp

/-- **Messages that mean something and frames that are accepted correspond one to one.** A
message whose numbers fit is read back from its frame exactly if it means something, and
otherwise its frame is refused for the field that is wrong. A frame that is accepted is that
of the message that is read from it. Writing a frame depends on nothing that was written
before. -/
theorem frames_correspond :
    (∀ m : Message, m.Representable → (decode m.encode = .ok m ↔ m.WellFormed) ∧
      (¬ m.WellFormed → ∃ e, m.Flaw e ∧ decode m.encode = .error e)) ∧
    (∀ (frame : Bytes) (m : Message), decode frame = .ok m →
      m.WellFormed ∧ m.Representable ∧ m.encode = frame) ∧
    ∀ (buffer : Bytes) (m : Message), m.writeTo buffer = buffer ++ m.encode := by
  refine ⟨fun m hr => ?_, fun frame m h => ?_, writeTo_eq⟩
  · rcases decode_encode_cases hr with ⟨hw, hread⟩ | ⟨e, he, hread⟩
    · exact ⟨⟨fun _ => hw, fun _ => hread⟩, fun h => (h hw).elim⟩
    · refine ⟨⟨fun h => ?_, fun h => (he.not_wellFormed h).elim⟩, fun _ => ⟨e, he, hread⟩⟩
      rw [hread] at h
      cases h
  · obtain ⟨hw, hspells⟩ := spells_of_decode h
    exact ⟨hw, hspells.representable, hspells.encode_eq⟩

/-- The frame of an acknowledgement of number 5. -/
def ackFrame : Bytes :=
  [0, 0, 0, 0, 0, 0, 0, 0, 0, 0, 0, 0, 0, 0, 0, 7, 1, 255, 255, 255, 255, 255, 255, 255, 255,
    0, 0, 0, 0, 0, 0, 0, 5, 180, 68, 182, 220]

/-- The numbers of a handshake may be the least and the greatest there are. A payload under
such a number is refused for it. -/
theorem frames_correspond_extremes :
    let m : Message := ⟨.ofNat 7, .handshake, -0x8000000000000000, 0x7FFFFFFFFFFFFFFF, []⟩
    let m' : Message := { m with kind := .send, payload := [1] }
    (m.Representable ∧ m.WellFormed ∧ decode m.encode = .ok m) ∧
      (m'.Representable ∧ ¬ m'.WellFormed ∧ ∃ e, m'.Flaw e ∧ decode m'.encode = .error e) ∧
      decode ackFrame = .ok (.ack (.ofNat 7) 5) ∧ (Message.ack (.ofNat 7) 5).encode = ackFrame := by
  intro m m'
  obtain ⟨hread, hback, -⟩ := frames_correspond
  have hr : m.Representable := ⟨by decide, by decide⟩
  have hr' : m'.Representable := ⟨by decide, by decide⟩
  have hw : m.WellFormed := ⟨by decide, by decide⟩
  have hw' : ¬ m'.WellFormed := fun h => absurd h.body (by decide)
  have hframe : decode ackFrame = .ok (.ack (.ofNat 7) 5) := by
    have hsome : (decode ackFrame).toOption = some (.ack (.ofNat 7) 5) := by decide +kernel
    cases hd : decode ackFrame <;> simp_all [Except.toOption]
  exact ⟨⟨hr, hw, (hread m hr).1.mpr hw⟩, ⟨hr', hw', (hread m' hr').2 hw'⟩, hframe,
    (hback ackFrame _ hframe).2.2⟩

end Message

end Tether
