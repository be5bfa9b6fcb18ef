import Tether.Proofs.Checksum
import Tether.Proofs.Message.Canonical

/-!
# Damaged frames

A frame holds the checksum of all its other bytes. If up to four bytes next to each other are
changed, either only the checksum in the frame is another one, or only that of the bytes is: as
long as the change keeps to one part of the frame (`Part`), the two no longer agree.

Main result: a frame that was accepted is refused for its checksum after such a change, and so
after a single bit was flipped anywhere (`damage_detected`). The checksum is compared before any
field is read, so it makes no difference what the change makes of them.
-/

namespace Tether.Message

/-! ### The two checksums -/

/-- The checksum that is in a frame. -/
def storedSum (frame : Bytes) : UInt32 :=
  .ofNat (BigEndian.decode (field frame checkedLength 4))

/-- The checksum of the other bytes of a frame. -/
def actualSum (frame : Bytes) : UInt32 :=
  Checksum.checksum (frame.take checkedLength) (frame.drop headerLength)

variable {frame frame' : Bytes} {m : Message}

/-- A frame is refused for its checksum, whatever else may be wrong with it. -/
theorem decode_of_sums_ne (hlen : headerLength ≤ frame.length)
    (hne : actualSum frame ≠ storedSum frame) :
    decode frame = .error (.checksum (storedSum frame) (actualSum frame)) := by
  unfold decode
  rw [if_neg (Nat.not_lt.mpr hlen)]
  exact if_pos hne

/-- The checksums of a frame that is accepted agree. -/
theorem sums_eq_of_decode (h : decode frame = .ok m) : actualSum frame = storedSum frame := by
  have hspells := (spells_of_decode h).2
  have hsum := hspells.sum
  rwa [hspells.payload] at hsum

/-- The same checksum is stored in the same four bytes only. -/
theorem field_eq_of_storedSum_eq (hlen : headerLength ≤ frame.length)
    (hlen' : headerLength ≤ frame'.length) (h : storedSum frame' = storedSum frame) :
    field frame' checkedLength 4 = field frame checkedLength 4 := by
  have hwidth : (field frame checkedLength 4).length = 4 := length_field hlen
  have hwidth' : (field frame' checkedLength 4).length = 4 := length_field hlen'
  have hlt := hwidth ▸ BigEndian.decode_lt (field frame checkedLength 4)
  have hlt' := hwidth' ▸ BigEndian.decode_lt (field frame' checkedLength 4)
  have hnat := congrArg UInt32.toNat h
  rw [storedSum, storedSum, UInt32.toNat_ofNat_of_lt' hlt, UInt32.toNat_ofNat_of_lt' hlt'] at hnat
  exact BigEndian.eq_of_decode_eq (hwidth'.trans hwidth.symm) hnat

/-- A frame is what comes before some place and what comes from there on. -/
theorem eq_of_take_drop (n : Nat) (ht : frame'.take n = frame.take n)
    (hd : frame'.drop n = frame.drop n) : frame' = frame := by
  rw [← List.take_append_drop n frame', ht, hd, List.take_append_drop]

/-! ### Damage -/

/-- The consecutive bytes lie in one part of a frame. -/
inductive Part (start width : Nat) : Prop where
  /-- They lie in front of the checksum. -/
  | header (h : start + width ≤ checkedLength)
  /-- They lie in the checksum. -/
  | checksum (hs : checkedLength ≤ start) (he : start + width ≤ headerLength)
  /-- They lie in the payload. -/
  | payload (h : headerLength ≤ start)

/-- **At most four bytes next to each other were changed**, all of them in one part of the frame. -/
structure Damaged (frame frame' : Bytes) : Prop where
  ne : frame' ≠ frame
  place : ∃ start width, width ≤ 4 ∧ Part start width ∧ Burst start width frame frame'

section
variable {start width : Nat}

theorem sums_ne_of_header (hb : Burst start width frame frame') (hne : frame' ≠ frame)
    (hw : width ≤ 4) (hp : start + width ≤ checkedLength)
    (hsum : actualSum frame = storedSum frame) : actualSum frame' ≠ storedSum frame' := by
  have hdrop : frame'.drop checkedLength = frame.drop checkedLength := hb.drop_eq hp
  have htake : frame'.take checkedLength ≠ frame.take checkedLength :=
    fun heq => hne (eq_of_take_drop _ heq hdrop)
  have hpayload : frame'.drop headerLength = frame.drop headerLength :=
    hb.drop_eq (Nat.le_add_right_of_le hp)
  have hstored : storedSum frame' = storedSum frame := by
    rw [storedSum, field, hdrop, storedSum, field]
  rw [hstored, ← hsum, actualSum, actualSum, hpayload]
  intro heq
  have hremainder := Checksum.remainder_injective _ ((UInt32.xor_left_inj _).mp heq)
  exact (hb.take checkedLength).remainder_ne hw htake _ hremainder

theorem sums_ne_of_checksum (hb : Burst start width frame frame') (hne : frame' ≠ frame)
    (hs : checkedLength ≤ start) (he : start + width ≤ headerLength)
    (hlen : headerLength ≤ frame.length) (hsum : actualSum frame = storedSum frame) :
    actualSum frame' ≠ storedSum frame' := by
  have htake : frame'.take checkedLength = frame.take checkedLength := hb.take_eq hs
  have hpayload : frame'.drop headerLength = frame.drop headerLength := hb.drop_eq he
  have hactual : actualSum frame' = actualSum frame := by
    rw [actualSum, htake, hpayload, actualSum]
  rw [hactual, hsum]
  intro heq
  have hfield := field_eq_of_storedSum_eq hlen (hb.length ▸ hlen) heq.symm
  have hdrop : frame'.drop checkedLength = frame.drop checkedLength := by
    rw [drop_eq_field_append frame' checkedLength 4, hfield,
      drop_eq_field_append frame checkedLength 4]
    exact congrArg (field frame checkedLength 4 ++ ·) hpayload
  exact hne (eq_of_take_drop _ htake hdrop)

theorem sums_ne_of_payload (hb : Burst start width frame frame') (hne : frame' ≠ frame)
    (hw : width ≤ 4) (hp : headerLength ≤ start) (hsum : actualSum frame = storedSum frame) :
    actualSum frame' ≠ storedSum frame' := by
  have hheader : frame'.take headerLength = frame.take headerLength := hb.take_eq hp
  have htake : frame'.take checkedLength = frame.take checkedLength :=
    hb.take_eq ((Nat.le_add_right _ _).trans hp)
  have hdrop : frame'.drop headerLength ≠ frame.drop headerLength :=
    fun heq => hne (eq_of_take_drop _ hheader heq)
  have hfield : field frame' checkedLength 4 = field frame checkedLength 4 := by
    have hcut := congrArg (List.drop checkedLength) hheader
    rwa [List.drop_take, List.drop_take] at hcut
  rw [storedSum, hfield, ← storedSum, ← hsum, actualSum, actualSum, htake]
  intro heq
  exact (hb.drop hp).remainder_ne hw hdrop _ ((UInt32.xor_left_inj _).mp heq)

end

/-- **Damage keeps the length of a frame, and parts its checksums.** -/
theorem Damaged.decode_eq (hd : Damaged frame frame') (h : decode frame = .ok m) :
    decode frame' = .error (.checksum (storedSum frame') (actualSum frame')) := by
  obtain ⟨start, width, hw, hpart, hb⟩ := hd.place
  have hlen : headerLength ≤ frame.length := (spells_of_decode h).2.length
  have hsum := sums_eq_of_decode h
  refine decode_of_sums_ne (hb.length ▸ hlen) ?_
  cases hpart with
  | header hp => exact sums_ne_of_header hb hd.ne hw hp hsum
  | checksum hs he => exact sums_ne_of_checksum hb hd.ne hs he hlen hsum
  | payload hp => exact sums_ne_of_payload hb hd.ne hw hp hsum

/-! ### Single bits -/

/-- The frame with one bit of one byte flipped. -/
def flip (frame : Bytes) (i bit : Nat) : Bytes := frame.modify i (· ^^^ 1 <<< UInt8.ofNat bit)

theorem xor_bit_ne (b : UInt8) {bit : Nat} (h : bit < 8) : b ^^^ 1 <<< UInt8.ofNat bit ≠ b := by
  have hbit : ∀ bit < 8, (1 : UInt8) <<< UInt8.ofNat bit ≠ 0 := by decide
  intro heq
  rw [← UInt8.xor_zero (a := b), UInt8.xor_assoc, UInt8.zero_xor] at heq
  exact hbit bit h ((UInt8.xor_right_inj b).mp heq)

theorem damaged_flip {i bit : Nat} (hi : i < frame.length) (hbit : bit < 8) :
    Damaged frame (flip frame i bit) where
  ne heq := by
    have hbyte := congrArg (·[i]?) heq
    simp only [flip, List.getElem?_modify_eq, List.getElem?_eq_getElem hi, Option.map_eq_map,
      Option.map_some, Option.some.injEq] at hbyte
    exact xor_bit_ne _ hbit hbyte
  place := by
    refine ⟨i, 1, by omega, ?_, by simp [flip], fun j hj => ?_⟩
    · by_cases hs : i < checkedLength
      · exact .header hs
      by_cases he : i < headerLength
      · exact .checksum (Nat.not_lt.mp hs) he
      · exact .payload (Nat.not_lt.mp he)
    · rw [flip, List.getElem?_modify_ne _ _ (by omega)]

/-! ### Detection -/

/-- **Damage is detected.** If at most four bytes next to each other of a frame that is accepted
are changed, and they lie in one part of it, then the frame is refused for its checksum; so it is
if a single bit is flipped, wherever it is. -/
theorem damage_detected (h : decode frame = .ok m) :
    (∀ frame', Damaged frame frame' →
      decode frame' = .error (.checksum (storedSum frame') (actualSum frame'))) ∧
    ∀ i < frame.length, ∀ bit < 8, decode (flip frame i bit) =
      .error (.checksum (storedSum (flip frame i bit)) (actualSum (flip frame i bit))) :=
  ⟨fun _ hd => hd.decode_eq h, fun _ hi _ hbit => (damaged_flip hi hbit).decode_eq h⟩

/-- The last four bytes of a payload are overwritten, or a sequence number becomes another one that
may stand there: the frame would be accepted, if it were not for the checksum. -/
theorem damage_detected_overwritten :
    let m := send (.ofNat 7) 4 2 [97, 98, 99, 100, 101]
    let overwritten := m.encode.take 38 ++ [120, 99, 98, 97]
    decode m.encode = .ok m ∧ Damaged m.encode overwritten ∧
      decode overwritten = .error (.checksum (storedSum overwritten) (actualSum overwritten)) ∧
      24 < m.encode.length ∧ (flip m.encode 24 0).take checkedLength =
        ({ m with seq := 5 } : Message).encode.take checkedLength ∧
      decode (flip m.encode 24 0) =
        .error (.checksum (storedSum (flip m.encode 24 0)) (actualSum (flip m.encode 24 0))) := by
  intro m overwritten
  have hread : decode m.encode = .ok m :=
    decode_encode ⟨by decide, .inl ⟨rfl, by decide⟩⟩ ⟨by decide, by decide⟩
  have hagree : ∀ i < 42, i < 38 ∨ 38 + 4 ≤ i → overwritten[i]? = m.encode[i]? := by decide +kernel
  have hlength : m.encode.length = 42 ∧ overwritten.length = 42 := by decide +kernel
  have hdamaged : Damaged m.encode overwritten := by
    refine ⟨by decide +kernel, 38, 4, le_rfl, .payload (by decide), by omega, fun i hi => ?_⟩
    by_cases h : i < 42
    · exact hagree i h hi
    · rw [List.getElem?_eq_none (by omega), List.getElem?_eq_none (by omega)]
  obtain ⟨hburst, hflip⟩ := damage_detected hread
  exact ⟨hread, hdamaged, hburst overwritten hdamaged, by omega, by decide +kernel,
    hflip 24 (by omega) 0 (by decide)⟩

end Tether.Message
