import Tether.Proofs.Net.Steps

/-!
# On which session a client is resumed

A server asks how many handshakes a client completed only if it does not know the
session. So a first handshake that comes late, after the session was over and gone,
creates another one under the same id, and a client that comes back is resumed on that:
it takes what the new session sends for repetitions of what it received, or drops what
it believes acknowledged (`Watch.spliced_late_handshake`).

This is the only way in which it goes wrong: the client is consistent with every session
that answers exactly if each is the one that answered before, or nothing is missing to
it (`Watch.consistent_iff_follows`).
-/

namespace Tether.Net

variable {w w' : World} {served served' : Nat → Option Nat}
  {completions completions' : List Completion}
  {e : World.Event}

/-! ### Events -/

/-- There is nobody else who could write. -/
theorem World.Sound.not_outside (h : w.Sound served completions) (i : Nat) (side : Side) :
    w.stage? i side ≠ some .outside := by
  obtain ⟨s, v, -, -, hsound⟩ := h
  unfold stage?
  cases hw : w.wires[i]? with
  | none => nofun
  | some wire =>
    have hf := hsound.fair i wire hw
    intro ho
    have ho : (wire.socket side).stage = .outside := Option.some.inj ho
    cases side with
    | dialer =>
      have ho : wire.dialer.stage = .outside := ho
      rcases hf.dialer with hd | ⟨c, n, hd, -⟩ <;> rw [hd] at ho <;> cases ho
    | acceptor =>
      have ho : wire.acceptor.stage = .outside := ho
      rcases hf.acceptor with hd | ⟨t, hd, -⟩ | ⟨j, c, n, hd, -⟩ <;> rw [hd] at ho <;> cases ho

/-- What the client does not handle completes no handshake. -/
theorem World.Sound.happen (h : w.Sound served completions) (he : e.Private)
    (hne : ∀ i, e ≠ .handle i .dialer) (hw : w.happen? e = some w') :
    ∃ served', (∀ i, w'.host? i = none → served' i = served i) ∧ w'.Sound served' completions := by
  have hkeep : w'.Sound served completions →
      ∃ served', (∀ i, w'.host? i = none → served' i = served i) ∧ w'.Sound served' completions :=
    fun h => ⟨served, fun _ _ => rfl, h⟩
  cases e with
  | visit => exact he.elim
  | write i side bytes =>
    rw [happen?, write?, if_neg (h.not_outside i side)] at hw
    cases hw
  | shut i side =>
    rw [happen?, shut?, if_neg (h.not_outside i side)] at hw
    cases hw
  | use o request =>
    obtain ⟨_, -, rfl⟩ := Option.map_eq_some_iff.mp hw
    refine hkeep (h.act o fun m s hs => hs.step_keeps m request.input ?_)
    cases request <;> trivial
  | handle i side =>
    cases side with
    | dialer => exact (hne i rfl).elim
    | acceptor => exact h.handle_acceptor hw
  | dial => exact hkeep (h.dial hw)
  | remove j =>
    obtain ⟨s, v, hs, hv, hsound⟩ := h
    unfold happen? at hw
    simp only [hv, Option.bind_eq_bind, Option.bind_some] at hw
    split at hw
    · cases hw
      exact hkeep ⟨s, _, hs, rfl, hsound.remove j⟩
    · cases hw
  | resume o =>
    unfold happen? at hw
    obtain ⟨_, -, hw⟩ := Option.bind_eq_some_iff.mp hw
    split at hw
    · cases hw
      exact hkeep (h.act o fun m s hs => hs.step_keeps m .resume trivial)
    · cases hw
  | tick =>
    cases hw
    exact hkeep h.tick

/-! ### Watching -/

namespace Watch

/-- The world that is watched is sound, with what was noted. -/
def Sound (o : Watch) : Prop := o.world.Sound o.served o.completions

variable {o : Watch}

theorem Sound.note (h : w'.Sound served' completions')
    (hserved : ∀ i, w'.host? i = none → served' i = o.served i)
    (hc : completions' = o.completions ++ (o.completion? w' served' e).toList) :
    (o.note w' e).Sound := by
  have hsame : (fun i => (w'.host? i).or (o.served i)) = served' := by
    funext i
    cases hi : w'.host? i with
    | none => exact (hserved i hi).symm
    | some j => exact (h.served_of_host? hi).symm
  subst hc
  unfold Sound Watch.note
  rw [hsame]
  exact h

/-- **Whatever happens, the world stays sound.** -/
theorem Sound.step (h : o.Sound) (he : e.Private) : (o.step e).Sound := by
  unfold Watch.step
  cases hw : o.world.happen? e with
  | none => exact h
  | some w' =>
    by_cases hd : ∃ i, e = .handle i .dialer
    · obtain ⟨i, rfl⟩ := hd
      obtain ⟨s, hs, hcount⟩ := World.Sound.session h
      rcases World.Sound.handle_dialer h hw with hsame | ⟨s', hs', hmore, hsound⟩
      · obtain ⟨s', hs', hcount'⟩ := hsame.session
        refine Sound.note hsame (fun _ _ => rfl) ?_
        simp only [completion?, hs, hs', hcount, hcount', lt_irrefl, if_false, Option.toList_none,
          List.append_nil]
      · refine Sound.note hsound (fun _ _ => rfl) ?_
        simp only [completion?, hs, hs', hcount, hmore, Nat.lt_succ_self, if_true,
          Option.toList_some]
    · have hne : ∀ i, e ≠ .handle i .dialer := fun i hi => hd ⟨i, hi⟩
      obtain ⟨served', hserved, hsound⟩ := World.Sound.happen h he hne hw
      refine Sound.note hsound hserved ?_
      have hnone : o.completion? w' served' e = none := by
        unfold completion?
        split
        · next i => exact (hne i rfl).elim
        · rfl
      rw [hnone]
      exact (List.append_nil _).symm

theorem Sound.run (h : o.Sound) {events : List World.Event} (he : ∀ e ∈ events, e.Private) :
    (o.run events).Sound := by
  induction events generalizing o with
  | nil => exact h
  | cons e events ih =>
    obtain ⟨hfirst, hrest⟩ := List.forall_mem_cons.mp he
    exact ih (h.step hfirst) hrest

/-- A world begins so. -/
theorem Sound.begin {config config' : Config} {id : SessionId} {now : Nat} {v : Server} {c : Client}
    (hv : Server.create config = .ok v) (hc : Session.create .client id config' now = .ok c.session)
    (reachable : Bool) : (Watch.begin reachable v c).Sound := by
  unfold Server.create at hv
  split at hv
  · cases hv
  · next hconfig =>
    cases hv
    have hcoherent := Session.Coherent.start hc
    unfold Session.create at hc
    split at hc
    · cases hc
    have hstart := (Except.ok.inj hc).symm
    refine ⟨c.session, _, rfl, rfl, ?_⟩
    exact {
      coherent := hcoherent
      role := by rw [hstart]; rfl
      config := hconfig
      hosts := fun _ _ hg => by cases hg
      directory := fun _ he => by cases he
      fair := fun _ _ hw => by cases hw
      distinct := fun _ _ _ _ hw => by cases hw
      served := fun _ _ hj => by cases hj
      answered := fun _ hk => by cases hk
      latest := fun _ hk => by cases hk
      fresh := fun _ _ _ hg => by cases hg
      count := by rw [hstart]; rfl
      unanswered := fun _ => by rw [hstart]; exact ⟨rfl, rfl⟩
      partner := fun _ _ hk => by cases hk
      chain := ⟨fun _ => .nil, fun _ _ hk => by cases hk⟩ }

/-- **A client is consistent with every session that answers it exactly if each is the one
that answered before, or one to which nothing is missing**: nothing that the client sent
was acknowledged, and it received less than that session gave out. Every handshake that
the client completes is noted. -/
theorem consistent_iff_follows {config config' : Config} {id : SessionId} {now : Nat} {v : Server}
    {c : Client} (hv : Server.create config = .ok v)
    (hc : Session.create .client id config' now = .ok c.session) (reachable : Bool)
    {events : List World.Event} (he : ∀ e ∈ events, e.Private) :
    let o := (Watch.begin reachable v c).run events
    (∃ s, o.world.session? .client = some s ∧ o.completions.length = s.handshakes) ∧
      ((∀ k ∈ o.completions, k.Consistent) ↔
        o.completions.IsChain fun k k' => k'.host = k.host ∨ k'.Harmless) := by
  obtain ⟨s, v, hs, hv, hsound⟩ := (Sound.begin hv hc reachable).run he
  exact ⟨⟨s, hs, hsound.count⟩, hsound.chain⟩

/-- A client that did nothing yet. -/
def newcomer (config : Config) : Client where
  session := .start .client (.ofNat 7) config 0
  backoff := ⟨.ofMillis 1, .ofMillis 1, Backoff.double, .ofMillis 1⟩

/-- A client loses its connection after it sent a message, and dials another one. -/
def replacement : List World.Event :=
  [.dial, .handle 0 .acceptor, .handle 0 .dialer, .use .client (.trySend [1]), .handle 0 .acceptor,
    .use .client (.disconnect false), .handle 0 .dialer, .tick, .dial, .handle 1 .acceptor,
    .handle 1 .dialer]

/-- A client whose connection is replaced comes back to the session that it left. -/
theorem consistent_iff_follows_replacement :
    let o := (Watch.begin true { config := {} } (newcomer {})).run replacement
    o.completions.map (·.host) = [some 0, some 0] ∧ ∀ k ∈ o.completions, k.Consistent := by
  have hprivate : ∀ e ∈ replacement, e.Private := by decide
  have hclient : Session.create .client (.ofNat 7) {} 0 = .ok (newcomer {}).session := rfl
  have hserver : Server.create {} = .ok { config := {} } := rfl
  have h := consistent_iff_follows hserver hclient true hprivate
  exact ⟨by decide +kernel, h.2.mpr (by decide +kernel)⟩

/-- A client gives up its first connection before the server gets to it, and another one
after both sides sent a message on it. The session ends before the client is back, and
only then the server gets to the first handshake. -/
def lateHandshake : List World.Event :=
  [.dial, .use .client (.disconnect false), .handle 0 .dialer, .tick,
    .dial, .handle 1 .acceptor, .handle 1 .dialer,
    .use .client (.trySend [1]), .handle 1 .acceptor, .use (.server 0) (.trySend [2]),
    .handle 1 .dialer, .handle 1 .dialer, .use .client (.disconnect false), .handle 1 .dialer,
    .handle 1 .acceptor, .handle 1 .acceptor, .handle 1 .acceptor, .tick, .tick, .remove 0,
    .handle 0 .acceptor, .dial, .handle 2 .acceptor, .handle 2 .dialer]

/-- **A client may be resumed on a session that knows nothing of what it exchanged.** The
client has an acknowledgement and a payload of the session that is gone; the one that
answers it received nothing, and gave nothing out. -/
theorem spliced_late_handshake :
    ∃ config config' id now v c reachable events,
      Server.create config = .ok v ∧ Session.create .client id config' now = .ok c.session ∧
        (∀ e ∈ events, World.Event.Private e) ∧
        ∃ k ∈ ((Watch.begin reachable v c).run events).completions, ¬ k.Consistent ∧
          k.client.outbox.highestAck = 0 ∧ k.client.inbox.received = 0 ∧
            ∃ h ∈ k.server, h.inbox.received = noSequence ∧ h.outbox.next = 0 := by
  refine ⟨{ restoreTimeout := 1, maxDelayedAcks := 1 }, { maxDelayedAcks := 1 }, .ofNat 7, 0,
    { config := { restoreTimeout := 1, maxDelayedAcks := 1 } }, newcomer { maxDelayedAcks := 1 },
    true, lateHandshake, rfl, rfl, by decide, ?_⟩
  decide +kernel

end Watch

end Tether.Net
