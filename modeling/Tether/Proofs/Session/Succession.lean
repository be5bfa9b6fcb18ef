import Tether.Proofs.Session.Transport

/-!
# Sessions whose connections are not to be replaced

A session can be configured to end when it loses its connection. It does so when the loss is
reported. But nobody may report it before another connection completes its handshake, and then the
session goes on with that one, however it is configured. So one connection follows another only
while the first still counts as active (`Standing.Succession`).

Main result: in such a session every connection but the last was replaced while it was active, and
the last is the active one until the session is over (`ends_unless_replaced`).
-/

namespace Tether

namespace Standing

open Session (Input)

/-- **The connections that completed their handshakes came one after the other**, and the session
runs over the last of them until it is over. -/
structure Succession (s : Standing) (connections : List ConnectionId) : Prop where
  count : connections.length = s.handshakes
  increasing : connections.Pairwise (· < ·)
  numbered : ∀ c ∈ connections, c < s.nextConnection
  pending : ∀ p ∈ s.pending, ∀ c ∈ connections, c < p.conn
  last : ¬ s.lifecycle.Over → s.active = connections.getLast?

variable {now : Nat} {s s' : Standing} {input : Input} {news : List News} {l : List ConnectionId}

theorem Succession.start (role : Role) (id : SessionId) (config : Config) (now : Nat) :
    (Session.start role id config now).standing.Succession [] :=
  ⟨rfl, .nil, nofun, nofun, fun _ => rfl⟩

/-- The connection that completes its handshake when a session comes to stand like this. -/
def newcomer (s s' : Standing) : List ConnectionId :=
  if s'.handshakes = s.handshakes then [] else s'.active.toList

/-- A connection completes its handshake while there is an active one. -/
def Replaces (s s' : Standing) : Prop :=
  s.lifecycle.phase = .connected ∧ s'.handshakes = s.handshakes + 1

instance (s s' : Standing) : Decidable (s.Replaces s') := inferInstanceAs (Decidable (_ ∧ _))

theorem newcomer_of_same (h : s'.handshakes = s.handshakes) : s.newcomer s' = [] := if_pos h

theorem newcomer_of_succ (h : s'.handshakes = s.handshakes + 1) :
    s.newcomer s' = s'.active.toList := if_neg fun hsame => by omega

theorem Succession.of_same (hl : s'.Succession l) (h : s'.handshakes = s.handshakes) :
    s'.Succession (l ++ s.newcomer s') := by
  rw [newcomer_of_same h, List.append_nil]
  exact hl

theorem Change.succession (h : Change now s input s' news) (hs : s.Consistent)
    (hr : s.config.reconnects = false) (hl : s.Succession l) :
    s'.Succession (l ++ s.newcomer s') := by
  cases h with
  | stay => exact hl.of_same rfl
  | connect hi ho =>
    refine .of_same { hl with numbered := ?_, pending := ?_ } rfl
    · exact fun c hc => Nat.lt_succ_of_lt (hl.numbered c hc)
    · intro p hp c hc
      cases hp
      exact hl.numbered c hc
  | giveUp p hp hi => exact .of_same { hl with pending := nofun } rfl
  | lose c hc hi hr' =>
    rw [hs.reconnects, hr] at hr'
    cases hr'
  | finish reason ho he =>
    have hlast (ho' : ¬ (s.finish (lastPhase reason)).lifecycle.Over) := ho' (over_finish s reason)
    exact .of_same { hl with pending := nofun, last := fun ho' => (hlast ho').elim } rfl
  | complete p hp bytes hi ho =>
    have hnew := hl.pending p hp
    rw [newcomer_of_succ rfl]
    refine ⟨by simp [hl.count], ?_, fun c hc => ?_, nofun, fun _ => by simp⟩
    · exact List.pairwise_append.mpr ⟨hl.increasing, List.pairwise_singleton .., fun c hc c' hc' =>
        List.mem_singleton.mp hc' ▸ hnew c hc⟩
    · rcases List.mem_append.mp hc with hc | hc
      · exact hl.numbered c hc
      · exact List.mem_singleton.mp hc ▸ hs.pending_lt p hp

/-- A connection becomes the active one when it completes its handshake. -/
theorem Change.active (h : Change now s input s' news) :
    ∀ c ∈ s'.active, c ∈ s.active ∨ c ∈ s.newcomer s' := by
  intro c hc
  cases h with
  | stay | connect | giveUp => exact .inl hc
  | lose | finish => cases hc
  | complete p hp bytes hi ho =>
    cases hc
    rw [newcomer_of_succ rfl]
    exact .inr (List.mem_singleton_self p.conn)

/-- Every connection but the first replaces an active one. -/
theorem Change.replaces (h : Change now s input s' news) (hs : s.Consistent) (hl : s.Succession l) :
    (l ++ s.newcomer s').length - 1 = l.length - 1 + if s.Replaces s' then 1 else 0 := by
  have hsame (h : s'.handshakes = s.handshakes) :
      (l ++ s.newcomer s').length - 1 = l.length - 1 + if s.Replaces s' then 1 else 0 := by
    have hnone : ¬ s.Replaces s' := fun hr => by
      have := hr.2
      omega
    rw [newcomer_of_same h, List.append_nil, if_neg hnone, Nat.add_zero]
  cases h with
  | stay | connect | giveUp | lose | finish => exact hsame rfl
  | complete p hp bytes hi ho =>
    rw [newcomer_of_succ rfl, List.length_append]
    have hactive := hs.active
    rw [hl.last ho] at hactive
    cases l with
    | nil => simpa [Replaces] using hactive
    | cons c l => simpa [Replaces] using hactive

end Standing

open Standing (Change)

namespace Session

variable {m : Moment} {s s' : Session} {t : List Transmission} {a d : List Bytes}
  {c : ConnectionId} {x : Message}

/-- The connections that complete their handshakes in a run, in order. -/
def established (s : Session) : List (Moment × Input) → List ConnectionId
  | [] => []
  | (m, input) :: rest =>
    let s' := (s.step m input).1
    s.standing.newcomer s'.standing ++ s'.established rest

/-- How many connections are replaced in a run: handshakes that are completed while there is an
active connection. -/
def replacements (s : Session) : List (Moment × Input) → Nat
  | [] => 0
  | (m, input) :: rest =>
    let s' := (s.step m input).1
    (if s.standing.Replaces s'.standing then 1 else 0) + s'.replacements rest

theorem Sound.succession_run (hs : s.Sound) (hr : s.config.reconnects = false)
    {l : List ConnectionId} (hl : s.standing.Succession l) (inputs : List (Moment × Input)) :
    (s.run inputs).1.standing.Succession (l ++ s.established inputs) ∧
      (l ++ s.established inputs).length - 1 = l.length - 1 + s.replacements inputs := by
  induction inputs generalizing s l with
  | nil => simpa [established, replacements, Session.run] using hl
  | cons i inputs ih =>
    have hchange := hs.1.step_change i.1 i.2
    have hconfig := (hs.1.step_grows i.1 i.2).config
    obtain ⟨hrest, hcount⟩ := ih (hs.step i.1 i.2) (by rw [hconfig, hr])
      (hchange.succession hs.2 hr hl)
    rw [hchange.replaces hs.2 hl, List.append_assoc, Nat.add_assoc] at hcount
    rw [List.append_assoc] at hrest
    exact ⟨hrest, hcount⟩

/-! ### What goes over which connection -/

/-- The connections over which something goes in a step: a message that belongs on a connection
that completed its handshake is handed to it, or a payload is delivered from it. -/
def used (m : Moment) (s : Session) (input : Input) : List ConnectionId :=
  let r := s.step m input
  ((Effect.transmitted r.2).filter (·.message.kind.Ordinary)).map (·.conn) ++
    match input with
    | .frame c _ => if Effect.delivered r.2 = [] then [] else [c]
    | _ => []

/-- The connections over which something goes in a run. -/
def usedIn (s : Session) : List (Moment × Input) → List ConnectionId
  | [] => []
  | (m, input) :: rest => s.used m input ++ (s.step m input).1.usedIn rest

theorem Hears.conn_of_completed (h : Hears m s c x s' t d) : ∀ τ ∈ t,
    τ.conn ∈ s.active ∨ τ.conn ∈ s.standing.newcomer s'.standing := by
  cases h with
  | ignored | held | acked | left => nofun
  | completed lifecycle waiting hc hk hp =>
    intro τ hτ
    rw [welcome_conn hτ, Standing.newcomer_of_succ rfl]
    exact .inr (List.mem_singleton_self c)
  | answered waiting hc | repeated waiting hc =>
    intro τ hτ
    rw [List.mem_singleton.mp hτ]
    exact .inl hc

/-- Such a message is handed to the active connection, or to one that completes its handshake. -/
theorem Goes.ordinary (h : Goes m s s' t a) (hs : s.Coherent) {τ : Transmission} (hτ : τ ∈ t)
    (hk : τ.message.kind.Ordinary) :
    τ.conn ∈ s.active ∨ τ.conn ∈ s.standing.newcomer s'.standing := by
  cases h with
  | acts h => exact .inl ((h.keeps hs).said τ hτ).2
  | hears h => exact h.conn_of_completed τ hτ
  | opens h =>
    cases h with
    | refused | waits => cases hτ
    | asks =>
      rw [List.mem_singleton.mp hτ] at hk
      simp [Kind.Ordinary, handing, Message.handshake, Message.control] at hk
  | refuses =>
    rw [List.mem_singleton.mp hτ] at hk
    simp [Kind.Ordinary, handing, Message.handshakeFail, Message.control] at hk

theorem Hears.active_of_delivered (h : Hears m s c x s' t d) (hd : d ≠ []) : s.active = some c := by
  cases h with
  | held waiting hc | answered waiting hc => exact hc
  | ignored | completed | repeated | acked | left => exact (hd rfl).elim

/-- A payload is delivered from the active connection. -/
theorem Coherent.active_of_delivered (hs : s.Coherent) (m : Moment) {bytes : Bytes}
    (h : Effect.delivered (s.step m (.frame c bytes)).2 ≠ []) : s.active = some c := by
  simp only [Session.step, Session.receive] at h
  cases hd : Message.decode bytes with
  | error e =>
    rw [hd] at h
    exact (h rfl).elim
  | ok x =>
    simp only [hd] at h
    by_cases hx : x.session = s.id
    · exact (hs.receiveMessage m c hx).active_of_delivered h
    · simp only [Session.receiveMessage, hx, ne_eq, not_false_eq_true, if_true] at h
      split at h <;> exact (h rfl).elim

/-- Nothing goes over a connection that did not complete its handshake. -/
theorem Coherent.used_subset (hs : s.Coherent) (m : Moment) (input : Input) :
    ∀ c ∈ s.used m input, c ∈ s.active ∨ c ∈ s.standing.newcomer (s.step m input).1.standing := by
  intro c hc
  rcases List.mem_append.mp hc with hc | hc
  · obtain ⟨τ, hτ, rfl⟩ := List.mem_map.mp hc
    obtain ⟨hτ, hk⟩ := List.mem_filter.mp hτ
    exact (hs.step_goes m input).ordinary hs hτ (by simpa using hk)
  · cases input with
    | frame c' bytes =>
      dsimp only at hc
      split at hc
      · cases hc
      · next hd =>
        obtain rfl := List.mem_singleton.mp hc
        exact .inl (hs.active_of_delivered m hd)
    | _ => cases hc

theorem Coherent.usedIn_subset (hs : s.Coherent) (inputs : List (Moment × Input)) :
    ∀ c ∈ s.usedIn inputs, c ∈ s.active ∨ c ∈ s.established inputs := by
  induction inputs generalizing s with
  | nil => nofun
  | cons i inputs ih =>
    obtain ⟨m, input⟩ := i
    intro c hc
    simp only [established, List.mem_append]
    rcases List.mem_append.mp hc with hc | hc
    · exact (hs.used_subset m input c hc).imp_right .inl
    · rcases ih (hs.step m input) c hc with hc | hc
      · exact ((hs.step_change m input).active c hc).imp_right .inl
      · exact .inr (.inr hc)

/-- **A session whose connections are not to be replaced ends with its connection**, unless another
one completes its handshake before that.

Let the configuration say that lost connections are not replaced. The connections that complete
their handshakes in a run are different ones, and as many as the session counts. Until the session
is over the last of them is the active one, and each of the others was replaced while it was active.
So if none was replaced then there is no more than one, and without it the session is over.
Payloads, acknowledgements and goodbyes go over these connections only. -/
theorem ends_unless_replaced {role : Role} {id : SessionId} {config : Config} {now : Nat}
    {s₀ : Session} (h : create role id config now = .ok s₀) (hr : config.reconnects = false)
    (inputs : List (Moment × Input)) :
    let s := (s₀.run inputs).1
    let connections := s₀.established inputs
    (¬ s.lifecycle.Over → s.active = connections.getLast?) ∧
      (connections.length = s.handshakes ∧ connections.Pairwise (· < ·)) ∧
      s₀.replacements inputs = connections.length - 1 ∧
      (s₀.replacements inputs = 0 → ∀ c ∈ connections,
        connections = [c] ∧ (s.active = some c ∨ s.lifecycle.Over)) ∧
      ∀ c ∈ s₀.usedIn inputs, c ∈ connections := by
  intro s connections
  have hs₀ := Sound.start h
  have hconfig : s₀.config = config := eq_start h ▸ rfl
  have hnone : s₀.active = none := eq_start h ▸ rfl
  have hfirst : s₀.standing.Succession [] := eq_start h ▸ .start role id config now
  obtain ⟨hsuccession, hcount⟩ := hs₀.succession_run (by rw [hconfig, hr]) hfirst inputs
  rw [List.nil_append, List.length_nil, Nat.zero_sub, Nat.zero_add] at hcount
  rw [List.nil_append] at hsuccession
  refine ⟨hsuccession.last, ⟨hsuccession.count, hsuccession.increasing⟩, hcount.symm,
    fun hsole c hc => ?_, fun c hc => ?_⟩
  · have hone : connections = [c] := by
      have hshort : connections.length ≤ 1 := Nat.sub_eq_zero_iff_le.mp (hcount.trans hsole)
      obtain ⟨c', hc'⟩ :=
        List.length_eq_one_iff.mp (hshort.antisymm (List.length_pos_of_mem hc))
      rw [hc'] at hc ⊢
      rw [List.mem_singleton.mp hc]
    refine ⟨hone, (em s.lifecycle.Over).symm.imp_left fun ho => ?_⟩
    have hlast : s.active = connections.getLast? := hsuccession.last ho
    rw [hlast, hone]
    rfl
  · refine (hs₀.1.usedIn_subset inputs c hc).resolve_left fun hc => ?_
    rw [hnone] at hc
    cases hc

/-- The client of a server comes on two connections, sends nothing, and its second connection is
lost. Between the handshakes the server sends a payload. -/
def takeover (m : Moment) : List (Moment × Input) :=
  let ask (c : Nat) : Input := .frame c (Message.handshake (.ofNat 1) c noSequence).encode
  [(m, .connect), (m, ask 0), (m, .trySend [7]), (m, .connect), (m, ask 1),
    (m, .disconnected 1 false)]

/-- The second connection replaces the first one, and its loss ends the session. -/
theorem ends_unless_replaced_takeover :
    let m : Moment := ⟨0, fun _ _ => true⟩
    let s₀ := start .server (.ofNat 1) { reconnects := false } 0
    let s := (s₀.run (takeover m)).1
    s₀.established (takeover m) = [0, 1] ∧ s₀.replacements (takeover m) = 1 ∧ s.handshakes = 2 ∧
      s.lifecycle.Over ∧ ∀ c ∈ s₀.usedIn (takeover m), c ∈ [0, 1] := by
  intro m s₀ s
  have hs₀ : create .server (.ofNat 1) { reconnects := false } 0 = .ok s₀ := rfl
  have hconnections : s₀.established (takeover m) = [0, 1] := by decide +kernel
  obtain ⟨hlast, ⟨hcount, -⟩, hreplaced, -, hused⟩ := ends_unless_replaced hs₀ rfl (takeover m)
  rw [hconnections] at hlast hcount hreplaced hused
  refine ⟨hconnections, hreplaced, hcount.symm, ?_, hused⟩
  by_contra ho
  have hnone : s.active = none := by decide +kernel
  exact Option.some_ne_none 1 ((hlast ho).symm.trans hnone)

/-- When the second connection completes its handshake the first one is no longer active, and yet
the session is not over. It completed two handshakes, and replayed the payload on the second
connection. -/
theorem outlives_its_connection :
    let m : Moment := ⟨0, fun _ _ => true⟩
    let s₀ := start .server (.ofNat 1) { reconnects := false } 0
    let inputs := (takeover m).take 5
    let s := (s₀.run inputs).1
    s.active = some 1 ∧ ¬ s.lifecycle.Over ∧ s.handshakes = 2 ∧
      s₀.usedIn inputs = [0, 1] ∧
      handing m 1 (.send (.ofNat 1) 0 noSequence [7]) ∈ Effect.transmitted (s₀.run inputs).2 := by
  decide +kernel

end Session

end Tether
