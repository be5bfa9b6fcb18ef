import Tether.Proofs.Session.Acknowledging

/-!
# What a session notes as acknowledged

A session notes what it acknowledged, to know what it still holds back. A step that tells the peer
what was received notes just that, and a step that tells nothing notes nothing (`Goes.notes`), with
one exception. A client that completes a handshake notes all that was received. If it retains
nothing then it has nothing to say on the new connection, and what it received on the old one since
it asked is noted and not told (`Swallows`).

Main result: what is noted is the highest acknowledgement of the run, unless something was
swallowed and nothing was acknowledged since (`acked_eq_told_iff`).
-/

namespace Tether

namespace Transmission

variable {t t' : List Transmission} {n : Int}

/-- The highest number that the peer was told to have been received. -/
def told (t : List Transmission) : Int := (acknowledgements t).foldr max noSequence

theorem told_of_silent (h : acknowledgements t = []) : told t = noSequence := by
  rw [told, h]
  rfl

theorem le_told (h : n = noSequence ∨ n ∈ acknowledgements t) : n ≤ told t := by
  unfold told
  generalize acknowledgements t = l at h
  induction l with
  | nil =>
    rcases h with rfl | h
    · exact le_rfl
    · cases h
  | cons k l ih =>
    rw [List.mem_cons, or_left_comm] at h
    rcases h with rfl | h
    · exact le_max_left ..
    · exact (ih h).trans (le_max_right ..)

theorem told_le (hlow : noSequence ≤ n) (h : ∀ k ∈ acknowledgements t, k ≤ n) : told t ≤ n := by
  unfold told
  generalize acknowledgements t = l at h
  induction l with
  | nil => exact hlow
  | cons k l ih =>
    obtain ⟨hk, hl⟩ := List.forall_mem_cons.mp h
    exact max_le hk (ih hl)

theorem told_append (t t' : List Transmission) : told (t ++ t') = max (told t) (told t') := by
  refine le_antisymm (told_le ((le_told (.inl rfl)).trans (le_max_left ..)) fun k hk => ?_)
    (max_le ?_ ?_)
  · rw [acknowledgements_append, List.mem_append] at hk
    exact hk.elim (fun hk => (le_told (.inr hk)).trans (le_max_left ..))
      fun hk => (le_told (.inr hk)).trans (le_max_right ..)
  · refine told_le (le_told (.inl rfl)) fun k hk => le_told (.inr ?_)
    rw [acknowledgements_append]
    exact List.mem_append_left _ hk
  · refine told_le (le_told (.inl rfl)) fun k hk => le_told (.inr ?_)
    rw [acknowledgements_append]
    exact List.mem_append_right _ hk

/-- If nothing else is told than one number, that is the highest. -/
theorem told_of_forall (hsaid : acknowledgements t ≠ []) (hlow : noSequence ≤ n)
    (h : ∀ k ∈ acknowledgements t, k = n) : told t = n := by
  obtain ⟨k, hk⟩ := List.exists_mem_of_ne_nil _ hsaid
  exact le_antisymm (told_le hlow fun k hk => (h k hk).le) (h k hk ▸ le_told (.inr hk))

end Transmission

open Transmission (acknowledgements acknowledgements_append mem_acknowledgements told told_append
  told_of_silent told_of_forall le_told)

namespace Session

variable {m : Moment} {s s' : Session} {t : List Transmission} {a d : List Bytes}
  {c : ConnectionId} {x : Message}

/-! ### A step -/

/-- A client completes a handshake and retains nothing, though it holds acknowledgements back. -/
structure Swallows (s s' : Session) : Prop where
  role : s.role = .client
  completed : s'.handshakes = s.handshakes + 1
  empty : s'.outbox.retained = #[]
  held : s.inbox.acked < s.inbox.received

/-- What is noted as acknowledged is what is told, and if nothing is told it is what it was. -/
structure Notes (s s' : Session) (t : List Transmission) : Prop where
  same : acknowledgements t = [] → s'.inbox.acked = s.inbox.acked
  flush : acknowledgements t ≠ [] → s'.inbox.acked = s'.inbox.received

theorem Notes.of_silent (ht : acknowledgements t = []) (h : s'.inbox.acked = s.inbox.acked) :
    s.Notes s' t := ⟨fun _ => h, fun hsaid => (hsaid ht).elim⟩

theorem Notes.of_flush (hsaid : acknowledgements t ≠ []) (h : s'.inbox.acked = s'.inbox.received) :
    s.Notes s' t := ⟨fun ht => (hsaid ht).elim, fun _ => h⟩

theorem Move.notes (h : Move m s s' t a) : s.Notes s' t := by
  cases h with
  | wait | defer | giveUp | lose | finish => exact .of_silent rfl rfl
  | send | flush => exact .of_flush (by simp) rfl
  | farewell => exact .of_silent (by simp) rfl

theorem Moves.notes (h : Moves m s s' t a) : s.Notes s' t := by
  induction h with
  | nil => exact .of_silent rfl rfl
  | @cons s s' s'' t t' a a' hm hrest ih =>
    constructor
    · intro hnone
      rw [acknowledgements_append, List.append_eq_nil_iff] at hnone
      exact (ih.same hnone.2).trans (hm.notes.same hnone.1)
    · intro hsaid
      by_cases hlast : Transmission.acknowledgements t' = []
      · rw [acknowledgements_append, hlast, List.append_nil] at hsaid
        rw [ih.same hlast, hrest.acknowledgements.1, hm.notes.flush hsaid]
      · exact ih.flush hlast

theorem Opens.notes (h : Opens m s s' t) : s.Notes s' t := by
  cases h with
  | refused | waits => exact .of_silent rfl rfl
  | asks => exact .of_flush (by simp) rfl

/-- Only a client that retains nothing has nothing to say when it completes a handshake. -/
theorem welcome_eq_nil {acked : Int} : s.welcome m c acked = [] ↔
    s.role = .client ∧ (s.outbox.acknowledge acked).2.retained = #[] := by
  have hreplay : handAll m c ((s.outbox.acknowledge acked).2.replay s.inbox.received) = [] ↔
      (s.outbox.acknowledge acked).2.retained = #[] := by
    rw [← Array.toList_eq_nil_iff, Outbox.replay]
    cases (s.outbox.acknowledge acked).2.retained.toList <;> simp [handAll]
  rw [welcome, List.append_eq_nil_iff, hreplay]
  cases s.role <;> simp

theorem acknowledgements_welcome {acked : Int} (h : s.welcome m c acked ≠ []) :
    acknowledgements (s.welcome m c acked) ≠ [] := by
  obtain ⟨τ, hτ⟩ := List.exists_mem_of_ne_nil _ h
  exact List.ne_nil_of_mem (mem_acknowledgements.mpr ⟨τ, hτ, (acked_welcome hτ).1, rfl⟩)

/-- What is heard is noted as it is told, unless it is swallowed. -/
theorem Hears.notes (h : Hears m s c x s' t d) (hs : s.Coherent) (hw : ¬ s.Swallows s') :
    s.Notes s' t := by
  cases h with
  | ignored | held | acked | left => exact .of_silent rfl rfl
  | answered | repeated => exact .of_flush (by simp) rfl
  | completed lifecycle waiting hc hk hp =>
    by_cases hsilent : s.welcome m c x.acked = []
    · have hnone : s.inbox.received ≤ s.inbox.acked := by
        by_contra hheld
        obtain ⟨hr, hempty⟩ := welcome_eq_nil.mp hsilent
        exact hw ⟨hr, rfl, hempty, not_le.mp hheld⟩
      rw [hsilent]
      exact .of_silent rfl (le_antisymm hnone hs.inbox.acked_le)
    · exact .of_flush (acknowledgements_welcome hsilent) rfl

/-- **What a step notes as acknowledged is what it tells the peer**, unless it swallows it. -/
theorem Goes.notes (h : Goes m s s' t a) (hs : s.Coherent) (hw : ¬ s.Swallows s') :
    s.Notes s' t := by
  cases h with
  | acts h => exact h.notes
  | opens h => exact h.notes
  | hears h => exact h.notes hs hw
  | refuses => exact .of_silent (by simp) rfl

/-- A client that completes a handshake and retains nothing says nothing, and notes all as
acknowledged. -/
theorem Goes.silent (h : Goes m s s' t a) (hs : s.Coherent) (hr : s.role = .client)
    (hcompleted : s'.handshakes = s.handshakes + 1) (hempty : s'.outbox.retained = #[]) :
    t = [] ∧ s'.inbox = s.inbox.flush := by
  have hnone (h : s'.handshakes = s.handshakes) : False := by omega
  cases h with
  | acts h => exact (hnone (h.keeps hs).handshakes).elim
  | opens h => exact (hnone (by cases h <;> rfl)).elim
  | refuses => exact (hnone rfl).elim
  | hears h =>
    cases h with
    | ignored | held | answered | repeated | acked | left => exact (hnone rfl).elim
    | completed => exact ⟨welcome_eq_nil.mpr ⟨hr, hempty⟩, rfl⟩

/-- What is swallowed is noted and not told. -/
theorem Goes.swallows (h : Goes m s s' t a) (hs : s.Coherent) (hw : s.Swallows s') :
    t = [] ∧ s'.inbox.acked = s'.inbox.received ∧ s.inbox.acked < s'.inbox.acked := by
  obtain ⟨hsilent, hflush⟩ := h.silent hs hw.role hw.completed hw.empty
  rw [hflush]
  exact ⟨hsilent, rfl, hw.held⟩

/-- A step notes the highest of what was noted and what it tells, unless it swallows something. -/
theorem Goes.acked_eq (h : Goes m s s' t a) (hs : s.Coherent) (hs' : s'.Coherent)
    (hw : ¬ s.Swallows s') : s'.inbox.acked = max s.inbox.acked (told t) := by
  by_cases hsaid : Transmission.acknowledgements t = []
  · rw [told_of_silent hsaid, (h.notes hs hw).same hsaid]
    exact (max_eq_left hs.inbox.low).symm
  · have hflush := (h.notes hs hw).flush hsaid
    have hlow := hs'.inbox.low.trans hs'.inbox.acked_le
    rw [told_of_forall hsaid hlow h.acknowledgements, ← hflush]
    exact (max_eq_right (h.grows hs).acked).symm

/-! ### A run -/

/-- Something is swallowed in a run, and nothing is acknowledged after it. -/
def Swallowed (s : Session) : List (Moment × Input) → Prop
  | [] => False
  | (m, input) :: rest =>
    let s' := (s.step m input).1
    (s.Swallows s' ∧ acknowledgements (Effect.transmitted (s'.run rest).2) = []) ∨ s'.Swallowed rest

/-- What is told in a run is noted. -/
theorem Coherent.told_le_acked (hs : s.Coherent) (inputs : List (Moment × Input)) :
    told (Effect.transmitted (s.run inputs).2) ≤ (s.run inputs).1.inbox.acked := by
  induction inputs generalizing s with
  | nil => exact hs.inbox.low
  | cons i inputs ih =>
    have hs' := hs.step i.1 i.2
    have hgoes := hs.step_goes i.1 i.2
    have hgrows := (hs'.run_grows inputs).acked
    simp only [run, Effect.transmitted_append, told_append]
    refine max_le ?_ (ih hs')
    by_cases hw : s.Swallows (s.step i.1 i.2).1
    · rw [(hgoes.swallows hs hw).1]
      exact hs'.inbox.low.trans hgrows
    · exact ((le_max_right ..).trans_eq (hgoes.acked_eq hs hs' hw).symm).trans hgrows

/-- **What is noted is the highest that was told**, unless something was swallowed and nothing was
acknowledged since. -/
theorem Coherent.acked_run (hs : s.Coherent) (inputs : List (Moment × Input)) :
    (s.run inputs).1.inbox.acked = max s.inbox.acked (told (Effect.transmitted (s.run inputs).2)) ↔
      ¬ s.Swallowed inputs := by
  induction inputs generalizing s with
  | nil => exact iff_of_true (max_eq_left hs.inbox.low).symm not_false
  | cons i inputs ih =>
    obtain ⟨m, input⟩ := i
    have hs' := hs.step m input
    have hgoes := hs.step_goes m input
    have hgrows := (hs'.run_grows inputs).acked
    have hlater := (hs'.acknowledgements_run inputs).2
    specialize ih hs'
    simp only [run, Effect.transmitted_append, told_append, Swallowed]
    generalize (s.step m input).1 = s' at *
    generalize Effect.transmitted (s.step m input).2 = said at *
    generalize Effect.transmitted (s'.run inputs).2 = later at *
    rw [← max_assoc]
    by_cases hw : s.Swallows s'
    · obtain ⟨rfl, hall, hmore⟩ := hgoes.swallows hs hw
      rw [told_of_silent rfl, max_eq_left hs.inbox.low]
      by_cases hnone : acknowledgements later = []
      · -- what was swallowed stays more than all that is told
        rw [told_of_silent hnone, max_eq_left hs.inbox.low]
        exact iff_of_false (hmore.trans_le hgrows).ne' (not_not.mpr (.inl ⟨hw, hnone⟩))
      · -- whatever is acknowledged later tells what was swallowed as well
        obtain ⟨n, hn⟩ := List.exists_mem_of_ne_nil _ hnone
        have hmade : s'.inbox.acked ≤ told later :=
          (hall.trans_le (hlater n hn).1).trans (le_told (.inr hn))
        rw [max_eq_right (hmore.le.trans hmade), ← max_eq_right hmade, ih]
        simp [hnone]
    · rw [← hgoes.acked_eq hs hs' hw, ih]
      simp [hw]

/-- **What a session notes as acknowledged is what it told its peer**, unless it swallows it.

What is noted is never less than the highest acknowledgement that was handed to any connection, and
it is just that if and only if the session never noted, as a client that completed a handshake and
retained nothing, what it held back, without acknowledging anything after it. Every step leaves what
is noted, or tells the peer what it notes, or is such a handshake, which is completed in silence. -/
theorem acked_eq_told_iff {role : Role} {id : SessionId} {config : Config} {now : Nat}
    {s₀ : Session} (h : create role id config now = .ok s₀) (inputs : List (Moment × Input)) :
    let s := (s₀.run inputs).1
    let highest := told (Effect.transmitted (s₀.run inputs).2)
    highest ≤ s.inbox.acked ∧ (s.inbox.acked = highest ↔ ¬ s₀.Swallowed inputs) ∧
      ∀ m input,
        let s' := (s.step m input).1
        let said := Effect.transmitted (s.step m input).2
        s'.inbox.acked = s.inbox.acked ∨ s'.inbox.acked ∈ acknowledgements said ∨
          (s.Swallows s' ∧ s.inbox.acked < s'.inbox.acked ∧ said = []) := by
  intro s highest
  have hs₀ : s₀.Coherent := Coherent.start h
  have hs : s.Coherent := ((Sound.start h).run inputs).1
  have hnone : s₀.inbox.acked = noSequence := by
    rw [eq_start h]
    rfl
  have hiff := hs₀.acked_run inputs
  rw [hnone, max_eq_right (le_told (.inl rfl))] at hiff
  refine ⟨hs₀.told_le_acked inputs, hiff, fun m input => ?_⟩
  intro s' said
  have hgoes : Goes m s s' said (s.accepted m input) := hs.step_goes m input
  by_cases hw : s.Swallows s'
  · obtain ⟨hsilent, -, hmore⟩ := hgoes.swallows hs hw
    exact .inr (.inr ⟨hw, hmore, hsilent⟩)
  by_cases hsaid : acknowledgements said = []
  · exact .inl ((hgoes.notes hs hw).same hsaid)
  · obtain ⟨n, hn⟩ := List.exists_mem_of_ne_nil _ hsaid
    rw [(hgoes.notes hs hw).flush hsaid]
    exact .inr (.inl (hgoes.acknowledgements n hn ▸ hn))

/-- A client asks for a second connection, gets a payload on the first one, and goes over. -/
def handover (m : Moment) : List (Moment × Input) :=
  let agree (c : Nat) : Input := .frame c (Message.handshakeOk (.ofNat 1) noSequence).encode
  [(m, .connect), (m, agree 0), (m, .connect),
    (m, .frame 0 (Message.send (.ofNat 1) 0 noSequence []).encode), (m, agree 1)]

/-- What it received is swallowed. It is told with the next payload. -/
theorem acked_eq_told_iff_handover :
    let m : Moment := ⟨0, fun _ _ => true⟩
    let s₀ := start .client (.ofNat 1) {} 0
    let later := handover m ++ [(m, .trySend [7])]
    s₀.Swallowed (handover m) ∧ ¬ s₀.Swallowed later ∧
      (s₀.run later).1.inbox.acked = told (Effect.transmitted (s₀.run later).2) := by
  intro m s₀ later
  have hs₀ : create .client (.ofNat 1) {} 0 = .ok s₀ := rfl
  have hdiffers : (s₀.run (handover m)).1.inbox.acked ≠
      told (Effect.transmitted (s₀.run (handover m)).2) := by decide +kernel
  have hagrees : (s₀.run later).1.inbox.acked = told (Effect.transmitted (s₀.run later).2) := by
    decide +kernel
  exact ⟨not_not.mp fun hw => hdiffers ((acked_eq_told_iff hs₀ (handover m)).2.1.mpr hw),
    (acked_eq_told_iff hs₀ later).2.1.mp hagrees, hagrees⟩

/-- The handshake is completed in silence, and the payload noted as acknowledged: the peer was never
told more than that nothing was received. -/
theorem acknowledged_in_silence :
    let m : Moment := ⟨0, fun _ _ => true⟩
    let s₀ := start .client (.ofNat 1) {} 0
    let s := (s₀.run (handover m)).1
    acknowledgements (Effect.transmitted (s₀.run (handover m)).2) = [-1, -1] ∧
      s.inbox.received = 0 ∧ s.inbox.acked = 0 ∧ s.active = some 1 ∧
      Effect.transmitted (s.step m .flush).2 = [] := by
  decide +kernel

end Session

end Tether
