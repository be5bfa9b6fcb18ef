import Mathlib.Algebra.Group.Int.Defs
import Mathlib.Algebra.Group.Nat.Defs
import Tether.Proofs.Framing
import Tether.Proofs.Message.Canonical
import Tether.Proofs.Session.Connections

/-!
# What a session sends arrives

A session hands messages to its connections, each of which is written as a frame, read as a
frame by the other side, and decoded there. The bounds that are checked on the way are stated
in four places: the configuration bounds the frames, the outbox the payloads, the framing its
own frames once more, and the codec the numbers. They agree: whatever a session says fits in
its frames and is read back from them (`Message.Fits`), so it survives all layers
(`sent_arrives`), as long as its counters fit in eight bytes.
-/

namespace Tether

theorem inRange_noSequence : InRange noSequence := by decide

/-- What the header leaves of a frame is for the payload. -/
theorem Config.header_add_maxPayload {c : Config} (h : c.validate = .ok ()) :
    Message.headerLength + c.maxPayload = c.maxFrameLength := by
  unfold validate at h
  repeat' split at h
  all_goals try contradiction
  unfold maxPayload
  omega

/-- The greatest length of a frame fits in front of it. -/
theorem Config.maxFrameLength_lt {c : Config} (h : c.validate = .ok ()) :
    c.maxFrameLength < UInt32.size := by
  rw [← header_add_maxPayload h]
  exact Nat.lt_succ_of_le (header_add_maxPayload_le h)

/-- Handshakes are counted upwards. -/
theorem Standing.Change.handshakes_le {now : Nat} {s s' : Standing} {input : Session.Input}
    {news : List News} (h : Change now s input s' news) : s.handshakes ≤ s'.handshakes := by
  cases h with
  | complete => exact Nat.le_succ _
  | stay | connect | giveUp | lose | finish => exact le_rfl

/-- A message fits in a frame of at most `max` bytes, and is read back from it. -/
structure Message.Fits (max : Nat) (x : Message) : Prop where
  wellFormed : x.WellFormed
  representable : x.Representable
  short : x.encode.length ≤ max

namespace Session

variable {m : Moment} {s s' : Session} {c : ConnectionId} {x : Message} {t : List Transmission}
  {a d : List Bytes}

/-! ### How a session goes on -/

theorem Goes.grows (h : Goes m s s' t a) (hs : s.Coherent) : s.Grows s' := by
  cases h with
  | acts h => exact (h.keeps hs).grows
  | opens h => exact (h.progress hs).grows
  | hears h => exact (h.progress hs).grows
  | refuses hc id => exact .refl s

theorem Coherent.step_grows (hs : s.Coherent) (m : Moment) (input : Input) :
    s.Grows (s.step m input).1 := (hs.step_goes m input).grows hs

theorem Coherent.run_grows (hs : s.Coherent) (inputs : List (Moment × Input)) :
    s.Grows (s.run inputs).1 := by
  induction inputs generalizing s with
  | nil => exact .refl s
  | cons i inputs ih => exact (hs.step_grows i.1 i.2).trans (ih (hs.step i.1 i.2))

theorem Coherent.handshakes_le_run (hs : s.Coherent) (inputs : List (Moment × Input)) :
    s.handshakes ≤ (s.run inputs).1.handshakes := by
  induction inputs generalizing s with
  | nil => exact le_rfl
  | cons i inputs ih =>
    exact (hs.step_change i.1 i.2).handshakes_le.trans (ih (hs.step i.1 i.2))

/-- What is received has a number that was read from a frame. -/
theorem Coherent.inRange_received (hs : s.Coherent) (hr : InRange s.inbox.received) (m : Moment)
    (input : Input) : InRange (s.step m input).1.inbox.received := by
  by_cases hi : input.Own
  · rw [(hs.step_keeps m input hi).received]
    exact hr
  cases input with
  | connect =>
    have hsame := (opens_connect m s).1.received
    exact hsame ▸ hr
  | frame c bytes =>
    simp only [Session.step, receive]
    cases hd : Message.decode bytes with
    | error e => exact hr
    | ok x =>
      by_cases hx : x.session = s.id
      · rcases (hs.receiveMessage m c hx).received with hsame | ⟨-, -, hnew⟩
        · exact hsame ▸ hr
        · rw [hnew]
          exact (Message.spells_of_decode hd).2.representable.seq
      · simpa [Session.receiveMessage, hx] using hr
  | _ => exact (hi trivial).elim

/-! ### What a session says -/

/-- A message without payload is numbered by the handshakes, or not at all. -/
def Bare (s : Session) (x : Message) : Prop :=
  x.kind ≠ .send → x.payload = [] ∧ noSequence ≤ x.seq ∧ x.seq ≤ s.handshakes

theorem bare_control (s : Session) (id : SessionId) (kind : Kind) (acked : Int) :
    s.Bare (.control id kind acked) := by
  intro _
  refine ⟨rfl, le_rfl, ?_⟩
  show noSequence ≤ s.handshakes
  simp only [noSequence]
  omega

theorem bare_send (s : Session) (hk : x.kind = .send) : s.Bare x := fun h => (h hk).elim

theorem Move.bare (h : Move m s s' t a) : ∀ τ ∈ t, s.Bare τ.message := by
  intro τ hτ
  cases h with
  | wait | defer | giveUp | lose | finish => cases hτ
  | send c payload unsent hc =>
    rw [List.mem_singleton.mp hτ]
    exact s.bare_send rfl
  | flush c hc =>
    rw [List.mem_singleton.mp hτ]
    exact s.bare_control _ _ _
  | farewell c lifecycle terminated hc ho =>
    rw [List.mem_singleton.mp hτ]
    exact s.bare_control _ _ _

theorem Moves.bare (h : Moves m s s' t a) (hs : s.Coherent) : ∀ τ ∈ t, s.Bare τ.message := by
  induction h with
  | nil => simp
  | cons hm _ ih =>
    intro τ hτ
    rcases List.mem_append.mp hτ with hτ | hτ
    · exact hm.bare τ hτ
    · have hlater := ih (hm.coherent hs) τ hτ
      unfold Bare at hlater
      rwa [(hm.keeps hs).handshakes] at hlater

theorem Opens.bare (h : Opens m s s' t) : ∀ τ ∈ t, s.Bare τ.message := by
  intro τ hτ
  cases h with
  | refused | waits => cases hτ
  | asks deadline ho hr =>
    rw [List.mem_singleton.mp hτ]
    intro _
    refine ⟨rfl, ?_, le_rfl⟩
    show noSequence ≤ s.handshakes
    simp only [noSequence]
    omega

theorem Hears.bare (h : Hears m s c x s' t d) : ∀ τ ∈ t, s.Bare τ.message := by
  intro τ hτ
  cases h with
  | ignored | held | acked | left => cases hτ
  | completed lifecycle waiting hc hk hp =>
    rcases List.mem_append.mp hτ with hτ | hτ
    · split at hτ
      · rw [List.mem_singleton.mp hτ]
        exact s.bare_control _ _ _
      · cases hτ
    · obtain ⟨r, -, hx⟩ := List.mem_map.mp (mem_handAll hτ).2
      rw [← hx]
      exact s.bare_send rfl
  | answered waiting hc hk hn | repeated waiting hc hk hn =>
    rw [List.mem_singleton.mp hτ]
    exact s.bare_control _ _ _

/-- **What a session may have said fits in its frames**, if its counters fit in eight bytes. -/
theorem Coherent.fits (hs : s'.Coherent) (hsaid : s'.Said x) (hbare : s.Bare x)
    (hreceived : InRange s'.inbox.received) (hnext : s'.outbox.next ≤ 2 ^ 63)
    (hcount : s.handshakes < 2 ^ 63) : x.Fits s'.config.maxFrameLength where
  wellFormed := by
    refine ⟨hsaid.low, ?_⟩
    by_cases hk : x.kind = .send
    · exact .inl ⟨hk, (hsaid.number hk).1⟩
    · exact .inr ⟨hk, (hbare hk).1⟩
  representable := by
    have hacked := hsaid.acked.trans hs.inbox.acked_le
    have hlow := hsaid.low
    unfold noSequence at hlow
    refine ⟨?_, ?_⟩
    · by_cases hk : x.kind = .send
      · obtain ⟨hpos, hlt⟩ := hsaid.number hk
        constructor <;> omega
      · obtain ⟨-, hpos, hle⟩ := hbare hk
        unfold noSequence at hpos
        constructor <;> omega
    · have hhigh := hreceived.2
      constructor <;> omega
  short := by
    have hheader := Config.header_add_maxPayload hs.config
    have hpayload := hsaid.short
    rw [Message.length_encode]
    omega

/-- So does the refusal of another session. -/
theorem fits_handshakeFail {config : Config} (h : config.validate = .ok ()) (id : SessionId) :
    (Message.handshakeFail id).Fits config.maxFrameLength where
  wellFormed := ⟨le_rfl, .inr ⟨nofun, rfl⟩⟩
  representable := ⟨inRange_noSequence, inRange_noSequence⟩
  short := by
    have hheader := Config.header_add_maxPayload h
    rw [Message.length_encode]
    show Message.headerLength + 0 ≤ _
    omega

/-- What is said in a step fits. -/
theorem Goes.fits (h : Goes m s s' t a) (hs : s.Coherent) (hs' : s'.Coherent)
    (hreceived : InRange s'.inbox.received) (hnext : s'.outbox.next ≤ 2 ^ 63)
    (hcount : s.handshakes < 2 ^ 63) : ∀ τ ∈ t, τ.message.Fits s.config.maxFrameLength := by
  intro τ hτ
  rw [← (h.grows hs).config]
  cases h with
  | acts h => exact hs'.fits ((h.keeps hs).said τ hτ).1 (h.bare hs τ hτ) hreceived hnext hcount
  | opens h => exact hs'.fits (hs'.said (h.tells hs τ hτ)) (h.bare τ hτ) hreceived hnext hcount
  | hears h => exact hs'.fits (hs'.said (h.tells hs τ hτ)) (h.bare τ hτ) hreceived hnext hcount
  | refuses hc id =>
    rw [List.mem_singleton.mp hτ]
    exact fits_handshakeFail hs.config id

/-- What is said in a run fits. -/
theorem Coherent.run_fits (hs : s.Coherent) (hreceived : InRange s.inbox.received)
    (inputs : List (Moment × Input)) (hnext : (s.run inputs).1.outbox.next ≤ 2 ^ 63)
    (hcount : (s.run inputs).1.handshakes < 2 ^ 63) :
    ∀ τ ∈ Effect.transmitted (s.run inputs).2, τ.message.Fits s.config.maxFrameLength := by
  induction inputs generalizing s with
  | nil => simp [Session.run]
  | cons i inputs ih =>
    have hs' := hs.step i.1 i.2
    have hreceived' := hs.inRange_received hreceived i.1 i.2
    have hfirst : (s.step i.1 i.2).1.outbox.next ≤ 2 ^ 63 :=
      (hs'.run_grows inputs).next.trans hnext
    have hcount' : s.handshakes < 2 ^ 63 := (hs.handshakes_le_run (i :: inputs)).trans_lt hcount
    intro τ hτ
    simp only [Session.run, Effect.transmitted_append, List.mem_append] at hτ
    rcases hτ with hτ | hτ
    · exact (hs.step_goes i.1 i.2).fits hs hs' hreceived' hfirst hcount' τ hτ
    · rw [← (hs.step_grows i.1 i.2).config]
      exact ih hs' hreceived' hnext hcount τ hτ

/-! ### Through all layers -/

/-- **Whatever a session hands to a connection survives all layers**, if it numbers fewer than
2^63 messages and completes fewer than 2^63 handshakes. It is no longer than a frame may be. So
writing it fails only where the stream takes no more, and what is written is the frame. From
that the other side reads the frame, however it arrives and whatever comes after it, if it
allows for frames of that length, and decodes the message that was sent. -/
theorem sent_arrives {role : Role} {id : SessionId} {config : Config} {now : Nat} {s₀ : Session}
    (h : create role id config now = .ok s₀) (inputs : List (Moment × Input))
    (hnext : (s₀.run inputs).1.outbox.next < 2 ^ 63)
    (hcount : (s₀.run inputs).1.handshakes < 2 ^ 63) :
    ∀ τ ∈ Effect.transmitted (s₀.run inputs).2,
      let frame := τ.message.encode
      frame.length ≤ config.maxFrameLength ∧
        (∀ sink : Framing.Sink, Framing.write config.maxFrameLength sink frame =
          (if (sink.put (Framing.encode frame)).1 then .ok (frame.length + Framing.prefixLength)
            else .error .full, (sink.put (Framing.encode frame)).2)) ∧
        (∀ max breaks chunks rest, config.maxFrameLength ≤ max →
          chunks.flatten = Framing.encode frame ++ rest →
          ∃ left, Framing.read max breaks chunks = .frame frame left ∧ left.flatten = rest) ∧
        Message.decode frame = .ok τ.message := by
  intro τ hτ frame
  have hstart : InRange s₀.inbox.received ∧ s₀.config = config := by
    unfold create at h
    split at h
    · cases h
    · cases h
      exact ⟨inRange_noSequence, rfl⟩
  have hs := Coherent.start h
  have hfits := hs.run_fits hstart.1 inputs hnext.le hcount τ hτ
  have hlimit := Config.maxFrameLength_lt hs.config
  rw [hstart.2] at hfits hlimit
  refine ⟨hfits.short, ?_, ?_, Message.decode_encode hfits.wellFormed hfits.representable⟩
  · intro sink
    exact Framing.write_eq hlimit hfits.short sink
  · intro max breaks chunks rest hmax hchunks
    exact Framing.read_frame breaks hchunks (hfits.short.trans hmax) (hfits.short.trans_lt hlimit)

/-- A payload is sent before there is a connection, and another that is one byte longer. -/
def parcels (m : Moment) : List (Moment × Input) :=
  [(m, .trySend [7]), (m, .trySend [7, 8]), (m, .connect),
    (m, .frame 0 (Message.handshake (.ofNat 1) 0 noSequence).encode)]

/-- A payload that just fits arrives, though its frame comes in two pieces. -/
theorem sent_arrives_full :
    let m : Moment := ⟨0, fun _ _ => true⟩
    let config : Config := { maxFrameLength := Message.headerLength + 1 }
    let s₀ := start .server (.ofNat 1) config 0
    let x := Message.send (.ofNat 1) 0 noSequence [7]
    let bytes := Framing.encode x.encode
    (Effect.transmitted (s₀.run (parcels m)).2).map (·.message) =
        [.handshakeOk (.ofNat 1) noSequence, x] ∧
      x.encode.length = config.maxFrameLength ∧
      (∃ left, Framing.read config.maxFrameLength false [bytes.take 3, bytes.drop 3 ++ [1, 2]] =
        .frame x.encode left ∧ left.flatten = [1, 2]) ∧
      Message.decode x.encode = .ok x := by
  intro m config s₀ x bytes
  have hs₀ : create .server (.ofNat 1) config 0 = .ok s₀ := rfl
  have hnext : (s₀.run (parcels m)).1.outbox.next = 1 := by decide +kernel
  have hcount : (s₀.run (parcels m)).1.handshakes = 1 := by decide +kernel
  have hsaid : (Effect.transmitted (s₀.run (parcels m)).2).map (·.message) =
      [.handshakeOk (.ofNat 1) noSequence, x] := by decide +kernel
  have hx : x ∈ (Effect.transmitted (s₀.run (parcels m)).2).map (·.message) := by simp [hsaid]
  obtain ⟨τ, hτ, hmessage⟩ := List.mem_map.mp hx
  obtain ⟨-, -, hread, hdecode⟩ := sent_arrives hs₀ (parcels m) (by rw [hnext]; decide)
    (by rw [hcount]; decide) τ hτ
  rw [hmessage] at hread hdecode
  refine ⟨hsaid, by decide +kernel, hread _ _ _ _ le_rfl ?_, hdecode⟩
  simp [bytes, ← List.append_assoc]

end Session

end Tether
