import Tether.Net.Wire
import Tether.Proofs.Framing
import Tether.Proofs.Message.RoundTrip

/-!
# Frames on a connection

What hosts write into one direction of a connection are the frames of messages, one
after the other. What the host at its end reads is the first of them (`Carries.next`),
as long as each is short enough for its length to fit in front of it.
-/

namespace Tether

/-! ### Reading one frame -/

/-- A frame that is in front of a stream is read, or it is longer than allowed. -/
theorem Framing.read_encode {frame rest : Bytes} {chunks : List Bytes} (max : Nat)
    (hc : chunks.flatten = encode frame ++ rest) (h : frame.length ≤ Config.maxPrefix) :
    (∃ left, read max false chunks = .frame frame left ∧ left.flatten = rest) ∨
      ∃ length, read max false chunks = .failed (.oversized length max) := by
  have hfit : frame.length < UInt32.size := Nat.lt_succ_of_le h
  by_cases hmax : max < frame.length
  · have hlen : BigEndian.decode (chunks.flatten.take prefixLength) = frame.length :=
      hc ▸ decode_take_encode hfit
    have hlong : prefixLength ≤ chunks.flatten.length := by
      rw [hc, List.length_append, length_encode]
      omega
    have hends : Ends max false chunks.flatten _ := .oversized hlong (hlen ▸ hmax)
    exact .inr ⟨_, read_of_ends hends⟩
  · exact .inl (read_frame false hc (not_lt.mp hmax) hfit)

/-- Nothing is read from an empty stream. -/
theorem Framing.read_nil (max : Nat) : read max false [[]] = .ended := rfl

namespace Net

/-! ### Pipes -/

/-- The bytes of the frames of messages. -/
def frames (l : List Message) : Bytes := l.flatMap fun x => Framing.encode x.encode

/-- The frame of a message is short enough to have its length in front. -/
def Short (x : Message) : Prop := Message.headerLength + x.payload.length ≤ Config.maxPrefix

/-- One direction of a connection carries frames of messages of some kind. -/
def Pipe.Carries (p : Pipe) (P : Message → Prop) : Prop :=
  ∃ l, p.bytes = frames l ∧ ∀ x ∈ l, Short x ∧ P x

namespace Pipe

variable {p rest : Pipe} {P Q : Message → Prop} {bs : Bytes} {max : Nat}

theorem Carries.mono (h : p.Carries P) (hPQ : ∀ x, P x → Q x) : p.Carries Q := by
  obtain ⟨l, hl, hP⟩ := h
  exact ⟨l, hl, fun x hx => ⟨(hP x hx).1, hPQ x (hP x hx).2⟩⟩

/-- A message is written. -/
theorem Carries.write (h : p.Carries P) {x : Message} (hs : Short x) (hx : P x) (ended : Bool) :
    (⟨p.bytes ++ Framing.encode x.encode, ended⟩ : Pipe).Carries P := by
  obtain ⟨l, hl, hP⟩ := h
  refine ⟨l ++ [x], ?_, fun y hy => ?_⟩
  · rw [hl, frames, frames, List.flatMap_append, List.flatMap_singleton]
  · rcases List.mem_append.mp hy with hy | hy
    · exact hP y hy
    · rw [List.mem_singleton.mp hy]
      exact ⟨hs, hx⟩

/-- **What is read is the frame of a message** that was written, and the others stay. -/
theorem Carries.next (h : p.Carries P) (hn : p.next max = .frame bs rest) :
    (∃ x, P x ∧ bs = x.encode) ∧ rest.Carries P := by
  obtain ⟨l, hl, hP⟩ := h
  unfold Pipe.next at hn
  rw [hl] at hn
  cases l with
  | nil =>
    have hread : Framing.read max false [frames []] = .ended := Framing.read_nil max
    rw [hread] at hn
    simp only at hn
    split at hn <;> contradiction
  | cons x l =>
    obtain ⟨hshort, hx⟩ := hP x List.mem_cons_self
    have hlen : x.encode.length ≤ Config.maxPrefix := by rwa [Message.length_encode]
    have hcons : [frames (x :: l)].flatten = Framing.encode x.encode ++ frames l :=
      List.flatten_singleton ..
    rcases Framing.read_encode max hcons hlen with ⟨left, hread, hrest⟩ | ⟨length, hread⟩
    · rw [hread] at hn
      simp only [Incoming.frame.injEq] at hn
      obtain ⟨rfl, rfl⟩ := hn
      exact ⟨⟨x, hx, rfl⟩, l, hrest, fun y hy => hP y (List.mem_cons_of_mem x hy)⟩
    · rw [hread] at hn
      simp only [reduceCtorEq] at hn

end Pipe

end Net

end Tether
