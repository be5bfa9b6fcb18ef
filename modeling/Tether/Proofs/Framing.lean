import Mathlib.Order.WellFounded
import Mathlib.Data.List.Basic
import Tether.Framing
import Tether.Proofs.Message.Canonical

/-!
# Frames come out of a stream as they went in

What a stream holds is said without chunks: frames one after the other, and at its end
something that is no frame (`Holds`). That is what is read, however the stream is cut into
chunks (`readAll_eq_iff`). What is written holds the frames that were written in full, and then
at most the beginning of one more (`writeAll_written`).

Main result: what is read is what was written (`frames_come_through`).
-/

namespace Tether.Framing

/-! ### What a stream holds -/

/-- Nothing more can be read from the bytes, and this is how it ends. -/
inductive Ends (max : Nat) (breaks : Bool) (bs : Bytes) : Option ReadError → Prop where
  /-- The stream ends within a length, or before it. -/
  | short (h : bs.length < prefixLength) : Ends max breaks bs (if breaks then some .reset else none)
  /-- A frame comes that is longer than allowed. -/
  | oversized (h : prefixLength ≤ bs.length) (hmax : max < BigEndian.decode (bs.take prefixLength)) :
    Ends max breaks bs (some (.oversized (BigEndian.decode (bs.take prefixLength)) max))
  /-- The stream ends within a frame. -/
  | cut (h : prefixLength ≤ bs.length) (hmax : BigEndian.decode (bs.take prefixLength) ≤ max)
    (hcut : bs.length - prefixLength < BigEndian.decode (bs.take prefixLength)) :
    Ends max breaks bs (some (if breaks then .reset else .cutShort))

/-- **What a stream holds**: frames, and how it ends after them. -/
inductive Holds (max : Nat) (breaks : Bool) : Bytes → List Bytes → Option ReadError → Prop where
  /-- There is no frame. -/
  | nil {bs : Bytes} {e : Option ReadError} (h : Ends max breaks bs e) : Holds max breaks bs [] e
  /-- There is a frame in front. -/
  | cons {frame rest : Bytes} {frames : List Bytes} {e : Option ReadError}
    (hmax : frame.length ≤ max) (hfit : frame.length < UInt32.size)
    (h : Holds max breaks rest frames e) :
    Holds max breaks (encode frame ++ rest) (frame :: frames) e

variable {max : Nat} {breaks : Bool} {bs frame rest : Bytes} {chunks frames : List Bytes}
  {e : Option ReadError}

@[simp] theorem length_encode (frame : Bytes) :
    (encode frame).length = prefixLength + frame.length := by
  simp [encode]

/-- The length in front of a frame. -/
theorem decode_take_encode (hfit : frame.length < UInt32.size) :
    BigEndian.decode ((encode frame ++ rest).take prefixLength) = frame.length := by
  have hwidth : (BigEndian.encode prefixLength frame.length).length = prefixLength :=
    BigEndian.length_encode ..
  rw [encode, List.append_assoc, List.take_left' hwidth, BigEndian.decode_encode]
  exact Nat.mod_eq_of_lt hfit

theorem drop_encode (frame rest : Bytes) :
    (encode frame ++ rest).drop prefixLength = frame ++ rest := by
  rw [encode, List.append_assoc, List.drop_left' (BigEndian.length_encode ..)]

/-- A length and at least that many bytes begin with a frame. -/
theorem exists_eq_encode_append (h : prefixLength ≤ bs.length)
    (hlen : BigEndian.decode (bs.take prefixLength) ≤ bs.length - prefixLength) :
    ∃ frame rest, bs = encode frame ++ rest ∧
      frame.length = BigEndian.decode (bs.take prefixLength) ∧ frame.length < UInt32.size := by
  have hwidth : (bs.take prefixLength).length = prefixLength := by simp [h]
  have hlt := BigEndian.decode_lt (bs.take prefixLength)
  have hprefix := BigEndian.encode_decode (bs.take prefixLength)
  rw [hwidth] at hlt hprefix
  have hframe : ((bs.drop prefixLength).take (BigEndian.decode (bs.take prefixLength))).length =
      BigEndian.decode (bs.take prefixLength) := by simp [hlen]
  refine ⟨_, (bs.drop prefixLength).drop (BigEndian.decode (bs.take prefixLength)), ?_, hframe, ?_⟩
  · rw [encode, hframe, hprefix, List.append_assoc, List.take_append_drop, List.take_append_drop]
  · rw [hframe]
    exact hlt

/-- **Every stream holds something.** -/
theorem exists_holds (max : Nat) (breaks : Bool) (bs : Bytes) :
    ∃ frames e, Holds max breaks bs frames e := by
  induction hn : bs.length using Nat.strongRecOn generalizing bs with
  | ind n ih =>
    by_cases hshort : bs.length < prefixLength
    · exact ⟨[], _, .nil (.short hshort)⟩
    have h : prefixLength ≤ bs.length := not_lt.mp hshort
    by_cases hmax : max < BigEndian.decode (bs.take prefixLength)
    · exact ⟨[], _, .nil (.oversized h hmax)⟩
    by_cases hcut : bs.length - prefixLength < BigEndian.decode (bs.take prefixLength)
    · exact ⟨[], _, .nil (.cut h (not_lt.mp hmax) hcut)⟩
    obtain ⟨frame, rest, hbs, hlen, hfit⟩ := exists_eq_encode_append h (not_lt.mp hcut)
    have hless : rest.length < n := by
      rw [← hn, hbs, List.length_append, length_encode, prefixLength]
      omega
    obtain ⟨frames, e, hrest⟩ := ih rest.length hless rest rfl
    refine ⟨frame :: frames, e, ?_⟩
    rw [hbs]
    exact .cons (by omega) hfit hrest

/-- The frames, written again, are what comes before the end. -/
theorem Holds.exists_eq_append (h : Holds max breaks bs frames e) :
    ∃ rest, bs = frames.flatMap encode ++ rest ∧ Ends max breaks rest e := by
  induction h with
  | nil h => exact ⟨_, rfl, h⟩
  | cons hmax hfit h ih =>
    obtain ⟨rest, rfl, hends⟩ := ih
    exact ⟨rest, by rw [List.flatMap_cons, List.append_assoc], hends⟩

/-! ### Reading -/

/-- The end is found. -/
theorem read_of_ends (h : Ends max breaks chunks.flatten e) :
    read max breaks chunks = match e with
      | none => .ended
      | some error => .failed error := by
  obtain ⟨hhead, htail⟩ := take_eq prefixLength chunks
  obtain ⟨hbody, -⟩ := take_eq (BigEndian.decode (chunks.flatten.take prefixLength))
    (take prefixLength chunks).2
  rw [htail] at hbody
  unfold read
  simp only [hhead, hbody, List.length_take, List.length_drop]
  cases h with
  | short h =>
    rw [if_pos (by omega)]
    cases breaks <;> rfl
  | oversized h hmax => rw [if_neg (by omega), if_pos hmax]
  | cut h hmax hcut => rw [if_neg (by omega), if_neg (by omega), if_pos (by omega)]

/-- The frame in front is read. -/
theorem read_frame (breaks : Bool) (hc : chunks.flatten = encode frame ++ rest)
    (hmax : frame.length ≤ max) (hfit : frame.length < UInt32.size) :
    ∃ left, read max breaks chunks = .frame frame left ∧ left.flatten = rest := by
  obtain ⟨hhead, htail⟩ := take_eq prefixLength chunks
  obtain ⟨hbody, hleft⟩ := take_eq frame.length (take prefixLength chunks).2
  rw [htail, hc, drop_encode] at hbody hleft
  rw [List.take_left] at hbody
  rw [List.drop_left] at hleft
  have hlong : ¬ (chunks.flatten.take prefixLength).length < prefixLength := by
    rw [hc, List.length_take, List.length_append, length_encode]
    omega
  refine ⟨_, ?_, hleft⟩
  unfold read
  simp only [hhead]
  rw [if_neg hlong]
  rw [hc, decode_take_encode hfit, if_neg (not_lt.mpr hmax), hbody, if_neg (lt_irrefl _)]

theorem readAll_of_holds (h : Holds max breaks bs frames e) (hc : chunks.flatten = bs) :
    readAll max breaks chunks = (frames, e) := by
  induction h generalizing chunks with
  | nil h =>
    have hread := read_of_ends (hc ▸ h)
    rw [readAll]
    split <;> rename_i heq <;> rw [hread] at heq <;> split at heq <;> cases heq <;> rfl
  | cons hmax hfit h ih =>
    obtain ⟨left, hread, hleft⟩ := read_frame breaks hc hmax hfit
    rw [readAll]
    split <;> rename_i heq <;> rw [hread] at heq <;> cases heq
    rw [ih hleft]

/-- **What is read is what the stream holds**, however it is cut into chunks. -/
theorem readAll_eq_iff :
    readAll max breaks chunks = (frames, e) ↔ Holds max breaks chunks.flatten frames e := by
  constructor
  · intro h
    obtain ⟨frames', e', hholds⟩ := exists_holds max breaks chunks.flatten
    rw [readAll_of_holds hholds rfl] at h
    cases h
    exact hholds
  · intro h
    exact readAll_of_holds h rfl

/-! ### Writing -/

/-- Where there is no room, nothing is written. -/
theorem Sink.put_of_room_zero {s : Sink} (h : s.room = some 0) (bs : Bytes) :
    (s.put bs).2 = s ∧ ((s.put bs).1 = true → bs = []) := by
  obtain ⟨written, room⟩ := s
  cases h
  simp [Sink.put]

/-- To write two pieces is to write them joined, also where the room ends between them. -/
theorem Sink.put_append (s : Sink) (as bs : Bytes) :
    s.put (as ++ bs) =
      ((s.put as).1 && ((s.put as).2.put bs).1, ((s.put as).2.put bs).2) := by
  obtain ⟨written, room⟩ := s
  cases room with
  | none => simp [Sink.put]
  | some n =>
    simp only [Sink.put, List.length_append, List.take_append, List.append_assoc, Nat.sub_sub,
      ← Bool.decide_and, Prod.mk.injEq, decide_eq_decide, and_true]
    omega

/-- Either all is written or the room is used up. -/
theorem Sink.put_cases (s : Sink) (bs : Bytes) :
    ((s.put bs).1 = true ∧ (s.put bs).2.written = s.written ++ bs ∧
        (s.room = none → (s.put bs).2.room = none)) ∨
      (s.put bs).1 = false ∧ s.room ≠ none ∧ (s.put bs).2.room = some 0 ∧
        ∃ n < bs.length, (s.put bs).2.written = s.written ++ bs.take n := by
  obtain ⟨written, room⟩ := s
  cases room with
  | none => exact .inl ⟨rfl, rfl, fun _ => rfl⟩
  | some n =>
    by_cases h : bs.length ≤ n
    · exact .inl ⟨decide_eq_true h, by simp [Sink.put, List.take_of_length_le h], nofun⟩
    · refine .inr ⟨decide_eq_false h, nofun, ?_, n, not_le.mp h, rfl⟩
      exact congrArg some (Nat.sub_eq_zero_of_le (not_le.mp h).le)

/-- **A frame is written as it stands in a stream**, as far as there is room, if it is not
longer than allowed. -/
theorem write_eq (hfit : max < UInt32.size) (hmax : frame.length ≤ max) (s : Sink) :
    write max s frame =
      (if (s.put (encode frame)).1 then .ok (frame.length + prefixLength) else .error .full,
        (s.put (encode frame)).2) := by
  have hnarrow : Narrow.toUInt32 frame.length =
      .ok (UInt32.ofNatLT frame.length (by omega)) := dif_pos (by omega)
  unfold write
  rw [if_neg (not_lt.mpr hmax), hnarrow]
  simp only [UInt32.toNat_ofNatLT]
  rw [encode, Sink.put_append]
  generalize BigEndian.encode prefixLength frame.length = head
  rcases Sink.put_cases s head with ⟨hhead, -⟩ | ⟨hhead, -, hroom, -⟩
  · rw [← Prod.mk.eta (p := s.put head), hhead]
    rcases hbody : (s.put head).2.put frame with ⟨_ | _, s'⟩ <;> simp only [hbody] <;> rfl
  · rw [← Prod.mk.eta (p := s.put head), hhead]
    simp only [Bool.false_and, Bool.false_eq_true, if_false]
    rw [(Sink.put_of_room_zero hroom frame).1]

/-- The frames that were written in full, given what writing each of them came to. -/
def succeeded : List Bytes → List (Except WriteError Nat) → List Bytes
  | frame :: frames, .ok _ :: results => frame :: succeeded frames results
  | _ :: frames, .error _ :: results => succeeded frames results
  | _, _ => []

/-- The bytes are the beginning of a frame that was to be written, and not all of it. -/
def Torn (max : Nat) (frames : List Bytes) (bs : Bytes) : Prop :=
  ∃ frame ∈ frames, frame.length ≤ max ∧ ∃ n < (encode frame).length, bs = (encode frame).take n

/-- Where there is no room, no frame is written. -/
theorem writeAll_of_room_zero (hfit : max < UInt32.size) {s : Sink} (h : s.room = some 0)
    (frames : List Bytes) :
    (writeAll max s frames).2 = s ∧ succeeded frames (writeAll max s frames).1 = [] := by
  induction frames with
  | nil => exact ⟨rfl, rfl⟩
  | cons frame frames ih =>
    have hwrite : ∃ error, write max s frame = (.error error, s) := by
      by_cases hmax : max < frame.length
      · exact ⟨_, if_pos hmax⟩
      · obtain ⟨hs, hnil⟩ := Sink.put_of_room_zero h (encode frame)
        have hfull : (s.put (encode frame)).1 = false := by
          refine Bool.eq_false_iff.mpr fun hall => ?_
          have hlen := congrArg List.length (hnil hall)
          simp [prefixLength] at hlen
        rw [write_eq hfit (not_lt.mp hmax), hs, hfull]
        exact ⟨_, rfl⟩
    obtain ⟨error, hwrite⟩ := hwrite
    rw [writeAll, hwrite]
    exact ih

/-- **What was written** is the frames that were written in full, and at most the beginning of
one more. -/
theorem writeAll_written (hfit : max < UInt32.size) (s : Sink) (frames : List Bytes) :
    ∃ rest, (writeAll max s frames).2.written =
        s.written ++ ((succeeded frames (writeAll max s frames).1).flatMap encode ++ rest) ∧
      (rest = [] ∨ Torn max frames rest) := by
  induction frames generalizing s with
  | nil => exact ⟨[], (List.append_nil _).symm, .inl rfl⟩
  | cons frame frames ih =>
    have hlater : ∀ {rest}, rest = [] ∨ Torn max frames rest →
        rest = [] ∨ Torn max (frame :: frames) rest := by
      rintro rest (h | ⟨x, hx, h⟩)
      · exact .inl h
      · exact .inr ⟨x, List.mem_cons_of_mem _ hx, h⟩
    by_cases hmax : max < frame.length
    · have hwrite : write max s frame = (.error (.oversized frame.length max), s) := if_pos hmax
      obtain ⟨rest, hwritten, hrest⟩ := ih s
      rw [writeAll, hwrite]
      exact ⟨rest, hwritten, hlater hrest⟩
    · have hwrite := write_eq hfit (not_lt.mp hmax) s
      rcases Sink.put_cases s (encode frame) with ⟨hall, hput, -⟩ | ⟨hall, -, hroom, n, hn, hput⟩
      · rw [hall] at hwrite
        obtain ⟨rest, hwritten, hrest⟩ := ih (s.put (encode frame)).2
        rw [writeAll, hwrite]
        refine ⟨rest, ?_, hlater hrest⟩
        simp only [if_true, succeeded, List.flatMap_cons, List.append_assoc]
        rw [hwritten, hput, List.append_assoc]
      · rw [hall] at hwrite
        obtain ⟨hsame, hnone⟩ := writeAll_of_room_zero hfit hroom frames
        rw [writeAll, hwrite]
        refine ⟨_, ?_, .inr ⟨frame, List.mem_cons_self, not_lt.mp hmax, n, hn, rfl⟩⟩
        simp only [Bool.false_eq_true, if_false, succeeded, hnone, List.flatMap_nil,
          List.nil_append]
        rw [hsame, hput]

/-- Where there is room for all, every frame is written that is not longer than allowed. -/
theorem succeeded_of_room (hfit : max < UInt32.size) {s : Sink} (h : s.room = none)
    (frames : List Bytes) :
    succeeded frames (writeAll max s frames).1 = frames.filter (·.length ≤ max) := by
  induction frames generalizing s with
  | nil => rfl
  | cons frame frames ih =>
    by_cases hmax : max < frame.length
    · have hwrite : write max s frame = (.error (.oversized frame.length max), s) := if_pos hmax
      rw [writeAll, hwrite, List.filter_cons_of_neg (by simpa using hmax)]
      exact ih h
    · rcases Sink.put_cases s (encode frame) with ⟨hall, -, hroom⟩ | ⟨-, hroom, -⟩
      · rw [writeAll, write_eq hfit (not_lt.mp hmax), hall,
          List.filter_cons_of_pos (by simpa using hmax)]
        simp only [if_true, succeeded]
        rw [ih (hroom h)]
      · exact absurd h hroom

/-- Only frames that are not longer than allowed are written. -/
theorem length_le_of_mem_succeeded (max : Nat) (s : Sink) (frames : List Bytes) :
    ∀ frame ∈ succeeded frames (writeAll max s frames).1, frame.length ≤ max := by
  induction frames generalizing s with
  | nil => nofun
  | cons frame frames ih =>
    rw [writeAll]
    cases hwrite : (write max s frame).1 with
    | error error =>
      simp only [succeeded]
      exact ih _
    | ok n =>
      simp only [succeeded, List.forall_mem_cons]
      refine ⟨?_, ih _⟩
      by_contra hmax
      rw [write, if_pos (not_le.mp hmax)] at hwrite
      cases hwrite

/-! ### Writing and reading -/

/-- A stream that ends with a torn frame ends cleanly within the length only. -/
theorem ends_of_torn (hfit : max < UInt32.size) (h : bs = [] ∨ Torn max frames bs) :
    Ends max false bs (if bs.length < prefixLength then none else some .cutShort) := by
  by_cases hshort : bs.length < prefixLength
  · rw [if_pos hshort]
    exact .short hshort
  rw [if_neg hshort]
  obtain rfl | ⟨frame, -, hmax, n, hn, rfl⟩ := h
  · exact absurd (Nat.zero_lt_succ 3) hshort
  have hlong := not_lt.mp hshort
  rw [List.length_take, Nat.min_eq_left hn.le] at hlong
  have hlen : BigEndian.decode (((encode frame).take n).take prefixLength) = frame.length := by
    rw [List.take_take, Nat.min_eq_left hlong, ← List.append_nil (encode frame)]
    exact decode_take_encode (by omega)
  refine .cut (not_lt.mp hshort) (hlen ▸ hmax) ?_
  rw [length_encode] at hn
  rw [hlen, List.length_take, length_encode]
  omega

/-- Frames in front of what ends a stream. -/
theorem Holds.of_frames (hfit : max < UInt32.size) (hmax : ∀ frame ∈ frames, frame.length ≤ max)
    (h : Ends max breaks rest e) : Holds max breaks (frames.flatMap encode ++ rest) frames e := by
  induction frames with
  | nil => exact .nil h
  | cons frame frames ih =>
    obtain ⟨hframe, hframes⟩ := List.forall_mem_cons.mp hmax
    rw [List.flatMap_cons, List.append_assoc]
    exact .cons hframe (by omega) (ih hframes)

/-- **What is read is what was written.** Frames are written one after the other, going on after
a failure, and read from the bytes that arrived, in whatever chunks: these are the frames that
were written in full, and the end is clean if less than a length is left over. Of any stream,
what is read does not depend on the chunks, and is what stands in front of the end. -/
theorem frames_come_through :
    (∀ (max : Nat) (room : Option Nat) (frames : List Bytes)
        (results : List (Except WriteError Nat)) (sink : Sink), max < UInt32.size →
      writeAll max { room := room } frames = (results, sink) →
      (room = none → succeeded frames results = frames.filter (·.length ≤ max)) ∧
        ∃ rest, sink.written = (succeeded frames results).flatMap encode ++ rest ∧
          (rest = [] ∨ Torn max frames rest) ∧
          ∀ chunks : List Bytes, chunks.flatten = sink.written →
            readAll max false chunks =
              (succeeded frames results,
                if rest.length < prefixLength then none else some .cutShort)) ∧
    ∀ (max : Nat) (breaks : Bool) (chunks : List Bytes),
      (∀ others : List Bytes, others.flatten = chunks.flatten →
        readAll max breaks others = readAll max breaks chunks) ∧
      ∃ rest, chunks.flatten = (readAll max breaks chunks).1.flatMap encode ++ rest ∧
        Ends max breaks rest (readAll max breaks chunks).2 := by
  constructor
  · intro max room frames results sink hfit hw
    obtain ⟨rest, hwritten, hrest⟩ := writeAll_written hfit { room := room } frames
    have hmax := length_le_of_mem_succeeded max { room := room } frames
    have hroom (h : room = none) : succeeded frames (writeAll max { room := room } frames).1 =
        frames.filter (·.length ≤ max) := succeeded_of_room hfit h frames
    rw [hw] at hwritten hmax hroom
    refine ⟨hroom, rest, hwritten, hrest, ?_⟩
    intro chunks hc
    refine readAll_of_holds (Holds.of_frames hfit hmax (ends_of_torn hfit hrest)) ?_
    exact hc.trans hwritten
  · intro max breaks chunks
    have hholds : Holds max breaks chunks.flatten _ _ := readAll_eq_iff.mp rfl
    exact ⟨fun others hc => readAll_of_holds hholds hc, hholds.exists_eq_append⟩

/-- Three bytes at most are allowed, and fifteen fit: a frame of two bytes arrives, one of four
is refused, an empty one arrives, and of one of three only the first byte does. -/
theorem frames_come_through_torn :
    3 < UInt32.size ∧
      writeAll 3 { room := some 15 } [[7, 8], [1, 2, 3, 4], [], [5, 6, 9]] =
        ([.ok 6, .error (.oversized 4 3), .ok 4, .error .full],
          ⟨[0, 0, 0, 2, 7, 8, 0, 0, 0, 0, 0, 0, 0, 3, 5], some 0⟩) ∧
      readAll 3 false [[0, 0], [0, 2, 7], [], [8, 0, 0, 0, 0, 0, 0, 0, 3, 5]] =
        ([[7, 8], []], some .cutShort) := by
  have hfit : 3 < UInt32.size := by decide
  have hw : writeAll 3 { room := some 15 } [[7, 8], [1, 2, 3, 4], [], [5, 6, 9]] =
      ([.ok 6, .error (.oversized 4 3), .ok 4, .error .full],
        ⟨[0, 0, 0, 2, 7, 8, 0, 0, 0, 0, 0, 0, 0, 3, 5], some 0⟩) := by rfl
  refine ⟨hfit, hw, ?_⟩
  obtain ⟨-, rest, hrest, -, hread⟩ := frames_come_through.1 3 (some 15) _ _ _ hfit hw
  have hsum : 15 = rest.length + 10 := congrArg List.length hrest
  have hlen : rest.length = 5 := by omega
  rw [hread _ (by rfl), hlen]
  rfl

end Tether.Framing
