import Tether.Outbox
import Tether.Proofs.Sequence

/-!
# The outbox as a log

All payloads that were accepted since the last reset make a log. Its first entries are retired,
and the places of the others are their sequence numbers. An outbox has but a part of the log,
some counters and the messages that are not retired. It keeps the log nevertheless
(`Outbox.Keeps`), whatever is asked of it (`Outbox.Keeps.serve`).

Main result: what an outbox answers is what the log says (`answers_as_log`). So no number is
given twice, what is retired stays so, and an acknowledgement of more than was sent retires
nothing that is sent later.
-/

namespace Tether

/-- **What was accepted since the last reset**, oldest first. -/
structure Log where
  /-- The session the entries belong to. -/
  session : SessionId
  entries : List Bytes := []
  /-- How many entries are retired, from the first one on. -/
  retired : Nat := 0
  /-- How many entries were handed out to some connection, from the first one on. -/
  handed : Nat := 0
  /-- Whether there is a connection. -/
  connected : Bool := false
  retired_le : retired ≤ entries.length := by simp
  handed_le : handed ≤ entries.length := by simp

namespace Log

/-- How many entries are not retired. -/
def outstanding (l : Log) : Nat := l.entries.length - l.retired

/-- How many entries are neither retired nor handed out. -/
def unsent (l : Log) : Nat := l.entries.length - max l.retired l.handed

/-- Entries under their places, if the first of them is at place `n`. -/
def numbered (n : Nat) (entries : List Bytes) : List Retained :=
  (entries.zipIdx n).map fun (payload, place) => ⟨place, payload⟩

/-- The entries that are not retired, under their places. -/
def remaining (l : Log) : List Retained := numbered l.retired (l.entries.drop l.retired)

/-- Why a payload is refused, if it is. It has to fit in a frame, then the window has to leave
room, and then, without a connection, the queue. -/
def refusal? (c : Config) (l : Log) (payload : Bytes) : Option Refusal :=
  if c.maxPayload < payload.length then some (.tooLarge payload.length c.maxPayload)
  else if c.window.any (· ≤ l.outstanding) then some .windowFull
  else if l.connected = false ∧ c.queueCap ≤ l.unsent then some .queueFull
  else none

/-- One more entry. While there is a connection, it is handed out at once. -/
def append (l : Log) (payload : Bytes) : Log where
  session := l.session
  entries := l.entries ++ [payload]
  retired := l.retired
  handed := if l.connected then l.entries.length + 1 else l.handed
  connected := l.connected
  retired_le := by
    have := l.retired_le
    simp only [List.length_append]
    omega
  handed_le := by
    have := l.handed_le
    simp only [List.length_append, List.length_singleton]
    split <;> omega

/-- The entries up to an acknowledged place are retired. -/
def acknowledge (l : Log) (acked : Int) : Log :=
  { l with
    retired := max l.retired (min (acked + 1).toNat l.entries.length)
    retired_le := by have := l.retired_le; omega }

/-- The connection is gone. -/
def disconnect (l : Log) : Log := { l with connected := false }

/-- The entries that are not retired, as messages. -/
def replay (l : Log) (acked : Int) : List Message :=
  l.remaining.map fun r => .send l.session r.seq acked r.payload

/-- There is a new connection, and all that is not retired is handed out. -/
def reconnect (l : Log) : Log :=
  { l with connected := true, handed := l.entries.length, handed_le := le_rfl }

/-- An empty log for another session. -/
def reset (l : Log) (session : SessionId) : Log := { session, connected := l.connected }

end Log

/-! ### Requests -/

namespace Outbox

/-- What can be asked of an outbox. -/
inductive Request where
  /-- Accept a payload. -/
  | accept (payload : Bytes)
  /-- The peer acknowledges. -/
  | acknowledge (acked : Int)
  /-- The connection is gone. -/
  | disconnect
  /-- There is a new connection, on which everything is replayed with an acknowledgement. -/
  | reconnect (acked : Int)
  /-- Start over for another session. -/
  | reset (session : SessionId)

/-- What is answered. -/
inductive Reply where
  /-- The payload is accepted, or refused. -/
  | verdict (result : Except Refusal Accepted)
  /-- So many messages are retired. -/
  | retired (count : Nat)
  /-- The messages are to be transmitted. -/
  | replay (messages : List Message)
  | done
  deriving DecidableEq

/-- The request starts over. -/
def Request.Resets (r : Request) : Prop := ∃ session, r = .reset session

/-- The number under which a payload is accepted, if it is. -/
def Reply.number? : Reply → Option Int
  | .verdict (.ok a) => some a.seq
  | _ => none

/-- What an outbox answers to a request, and leaves. -/
def serve (o : Outbox) : Request → Reply × Outbox
  | .accept payload =>
    match o.accept payload with
    | .error r => (.verdict (.error r), o)
    | .ok (a, o') => (.verdict (.ok a), o')
  | .acknowledge acked => (.retired (o.acknowledge acked).1, (o.acknowledge acked).2)
  | .disconnect => (.done, o.disconnect)
  | .reconnect acked => (.replay (o.replay acked), o.reconnect)
  | .reset session => (.done, o.reset session)

/-- What an outbox answers to some requests, and leaves. -/
def serveAll (o : Outbox) : List Request → List Reply × Outbox
  | [] => ([], o)
  | r :: rest =>
    let one := o.serve r
    let more := one.2.serveAll rest
    (one.1 :: more.1, more.2)

end Outbox

namespace Log

open Outbox (Request Reply)

/-- What the log says to a request, and what it is after that. -/
def serve (c : Config) (l : Log) : Request → Reply × Log
  | .accept payload =>
    match l.refusal? c payload with
    | some r => (.verdict (.error r), l)
    | none =>
      let place : Int := l.entries.length
      (.verdict (.ok (if l.connected then .transmit place else .deferred place)), l.append payload)
  | .acknowledge acked =>
    (.retired ((l.acknowledge acked).retired - l.retired), l.acknowledge acked)
  | .disconnect => (.done, l.disconnect)
  | .reconnect acked => (.replay (l.replay acked), l.reconnect)
  | .reset session => (.done, l.reset session)

/-- What the log says to some requests, and what it is after that. -/
def serveAll (c : Config) (l : Log) : List Request → List Reply × Log
  | [] => ([], l)
  | r :: rest =>
    let one := l.serve c r
    let more := one.2.serveAll c rest
    (one.1 :: more.1, more.2)

/-! ### Places -/

variable {n : Nat} {payload : Bytes} {entries : List Bytes}

@[simp] theorem numbered_cons :
    numbered n (payload :: entries) = ⟨n, payload⟩ :: numbered (n + 1) entries := by
  simp [numbered]

theorem numbered_concat :
    numbered n (entries ++ [payload]) =
      numbered n entries ++ [⟨(n + entries.length : Nat), payload⟩] := by
  simp [numbered, List.zipIdx_append]

@[simp] theorem length_numbered : (numbered n entries).length = entries.length := by
  simp [numbered]

/-- The places of consecutive entries. -/
theorem map_seq_numbered :
    (numbered n entries).map (·.seq) = Int.range n (n + entries.length : Nat) := by
  induction entries generalizing n with
  | nil => exact (Sequence.range_of_le (by simp)).symm
  | cons payload entries ih =>
    rw [Sequence.range_cons (by simp only [List.length_cons]; omega), numbered_cons, List.map_cons,
      ih, List.length_cons]
    congr 2
    omega

/-- Dropping the entries up to a place. -/
theorem dropWhile_numbered {upTo : Int} {k : Nat} (hk : k ≤ entries.length)
    (hup : upTo + 1 = (n + k : Nat)) :
    (numbered n entries).dropWhile (fun r => decide (r.seq ≤ upTo)) =
      numbered (n + k) (entries.drop k) := by
  induction k generalizing n entries with
  | zero =>
    cases entries with
    | nil => rfl
    | cons payload entries =>
      rw [numbered_cons, List.dropWhile_cons_of_neg (by simp only [decide_eq_true_eq]; omega)]
      simp
  | succ k ih =>
    cases entries with
    | nil => simp at hk
    | cons payload entries =>
      rw [numbered_cons, List.dropWhile_cons_of_pos (by simp only [decide_eq_true_eq]; omega),
        ih (by simpa using hk) (by omega), List.drop_succ_cons, Nat.add_right_comm, Nat.add_assoc]

@[simp] theorem length_remaining (l : Log) : l.remaining.length = l.outstanding := by
  simp [remaining, outstanding]

/-! ### Acknowledgements -/

/-- What was retired before is not retired again. -/
theorem acknowledge_of_retired {l : Log} {acked : Int}
    (h : (l.acknowledge acked).retired = l.retired) : l.acknowledge acked = l := by
  cases l
  simp only [acknowledge, mk.injEq, true_and, and_true] at h ⊢
  exact h

/-- What is retired is no longer unsent. -/
theorem unsent_acknowledge (l : Log) (acked : Int) : (l.acknowledge acked).unsent =
    min l.unsent (l.entries.length - (l.acknowledge acked).retired) := by
  simp only [unsent, acknowledge, Nat.sub_min_sub_left]
  congr 1
  omega

end Log

/-! ### The outbox of a log -/

namespace Outbox

/-- **An outbox keeps a log**: it retains what is not retired, it counts the entries, and it has
the bounds of a configuration. -/
structure Keeps (o : Outbox) (c : Config) (l : Log) : Prop where
  session : o.session = l.session
  next : o.next = l.entries.length
  highestAck : o.highestAck + 1 = l.retired
  retained : o.retained.toList = l.remaining
  unsent : o.unsent = l.unsent
  connected : o.connected = l.connected
  /-- While there is a connection, everything is handed out. -/
  handed : l.connected = true → l.handed = l.entries.length
  window : o.window = c.window
  queueCap : o.queueCap = c.queueCap
  maxPayload : o.maxPayload = c.maxPayload

variable {o : Outbox} {c : Config} {l : Log}

theorem Keeps.new (session : SessionId) (c : Config) :
    (Outbox.new session c).Keeps c { session } where
  session := rfl
  next := rfl
  highestAck := rfl
  retained := rfl
  unsent := rfl
  connected := rfl
  handed := nofun
  window := rfl
  queueCap := rfl
  maxPayload := rfl

/-- As much is retained as the log has outstanding. -/
theorem Keeps.size (h : o.Keeps c l) : o.retained.size = l.outstanding := by
  rw [← Array.length_toList, h.retained, Log.length_remaining]

/-- **The numbers of what is retained** are the places that are not retired. -/
theorem Keeps.sequences (h : o.Keeps c l) : o.sequences = Int.range l.retired l.entries.length := by
  have hle := l.retired_le
  rw [Outbox.sequences, h.retained, Log.remaining, Log.map_seq_numbered, List.length_drop,
    Nat.add_sub_cancel' hle]

/-- What was never transmitted is retained. -/
theorem Keeps.unsent_le (h : o.Keeps c l) : o.unsent ≤ o.retained.size := by
  rw [h.unsent, h.size, Log.unsent, Log.outstanding]
  omega

/-- **The outbox refuses what the log refuses**, for the same reason. -/
theorem Keeps.refusal? (h : o.Keeps c l) (payload : Bytes) :
    o.refusal? payload = l.refusal? c payload := by
  have hwindow : o.WindowFull ↔ c.window.any (· ≤ l.outstanding) = true := by
    simp only [WindowFull, h.window, h.size, Option.any_eq_true, Option.mem_def, decide_eq_true_eq]
  have hqueue : o.QueueFull ↔ l.connected = false ∧ c.queueCap ≤ l.unsent := by
    rw [QueueFull, h.connected, h.queueCap, h.unsent]
  simp only [Outbox.refusal?, Log.refusal?, h.maxPayload, hwindow, hqueue]

theorem Keeps.append (h : o.Keeps c l) (payload : Bytes) :
    (o.retain payload (if l.connected then o.unsent else o.unsent + 1)).Keeps c
      (l.append payload) := by
  have hretired := l.retired_le
  have hhanded := l.handed_le
  exact {
    session := h.session
    next := by simp [Outbox.retain, Log.append, h.next]
    highestAck := h.highestAck
    retained := by
      simp only [Outbox.retain, Array.toList_push, h.retained, h.next, Log.remaining, Log.append,
        List.drop_append_of_le_length hretired, Log.numbered_concat, List.length_drop,
        Nat.add_sub_cancel' hretired]
    unsent := by
      simp only [Outbox.retain, Log.append, Log.unsent, h.unsent, List.length_append,
        List.length_singleton]
      split
      · next hc =>
        have := h.handed hc
        omega
      · omega
    connected := h.connected
    handed := fun hc => by
      have hc : l.connected = true := hc
      simp [Log.append, hc]
    window := h.window
    queueCap := h.queueCap
    maxPayload := h.maxPayload }

/-- What counts of an acknowledgement is what the log has. -/
theorem Keeps.credible (h : o.Keeps c l) {acked : Int} (ha : ¬ acked ≤ o.highestAck) :
    o.credible acked + 1 = (l.acknowledge acked).retired := by
  have hnext := h.next
  have hhigh := h.highestAck
  have hretired := l.retired_le
  simp only [Outbox.credible, Log.acknowledge]
  split <;> omega

theorem Keeps.acknowledge (h : o.Keeps c l) (acked : Int) :
    (o.acknowledge acked).1 = (l.acknowledge acked).retired - l.retired ∧
      (o.acknowledge acked).2.Keeps c (l.acknowledge acked) := by
  have hhigh := h.highestAck
  have hretired := l.retired_le
  have hretired' := (l.acknowledge acked).retired_le
  by_cases ha : acked ≤ o.highestAck
  · -- what is acknowledged was retired before
    have hsame : (l.acknowledge acked).retired = l.retired := by
      simp only [Log.acknowledge]
      omega
    rw [Outbox.acknowledge, if_pos ha, Log.acknowledge_of_retired hsame]
    exact ⟨(Nat.sub_self _).symm, h⟩
  · have hcredible := h.credible ha
    obtain ⟨k, hk⟩ : ∃ k, (l.acknowledge acked).retired = l.retired + k :=
      Nat.exists_eq_add_of_le (Nat.le_max_left _ _)
    have hentries : (l.acknowledge acked).entries = l.entries := rfl
    have hkept : o.retained.toList.dropWhile (fun r => decide (r.seq ≤ o.credible acked)) =
        (l.acknowledge acked).remaining := by
      rw [hentries] at hretired'
      rw [h.retained, Log.remaining, Log.dropWhile_numbered (k := k)
        (by simp only [List.length_drop]; omega) (by omega), List.drop_drop, Log.remaining, hk,
        hentries]
    have hsize : (o.retained.toList.dropWhile (fun r => decide (r.seq ≤ o.credible acked))).length =
        l.entries.length - (l.acknowledge acked).retired := by
      rw [hkept, Log.length_remaining]
      rfl
    rw [Outbox.acknowledge, if_neg ha]
    refine ⟨?_, ?_⟩
    · simp only [List.size_toArray, hsize, h.size, Log.outstanding]
      rw [hentries] at hretired'
      omega
    · exact {
        session := h.session
        next := h.next
        highestAck := hcredible
        retained := hkept
        unsent := by
          simp only [List.size_toArray, hsize, h.unsent]
          exact (Log.unsent_acknowledge l acked).symm
        connected := h.connected
        handed := h.handed
        window := h.window
        queueCap := h.queueCap
        maxPayload := h.maxPayload }

theorem Keeps.disconnect (h : o.Keeps c l) : o.disconnect.Keeps c l.disconnect :=
  { h with connected := rfl, handed := nofun }

theorem Keeps.reconnect (h : o.Keeps c l) : o.reconnect.Keeps c l.reconnect :=
  { h with
    unsent := by simp [Outbox.reconnect, Log.reconnect, Log.unsent]
    connected := rfl
    handed := fun _ => rfl }

theorem Keeps.reset (h : o.Keeps c l) (session : SessionId) :
    (o.reset session).Keeps c (l.reset session) :=
  { h with
    session := rfl
    next := rfl
    highestAck := rfl
    retained := rfl
    unsent := rfl
    handed := fun _ => rfl }

/-- What is replayed is what the log has outstanding. -/
theorem Keeps.replay (h : o.Keeps c l) (acked : Int) : o.replay acked = l.replay acked := by
  rw [Outbox.replay, Log.replay, h.session, h.retained]

/-- **A request is answered as the log says**, and the outbox goes on to keep the log. -/
theorem Keeps.serve (h : o.Keeps c l) (r : Request) :
    (o.serve r).1 = (l.serve c r).1 ∧ (o.serve r).2.Keeps c (l.serve c r).2 := by
  cases r with
  | accept payload =>
    simp only [Outbox.serve, Outbox.accept, Log.serve, h.refusal? payload, h.connected, h.next]
    cases hr : l.refusal? c payload with
    | some r => exact ⟨rfl, h⟩
    | none =>
      have happend := h.append payload
      cases hc : l.connected with
      | true =>
        simp only [hc, if_true] at happend ⊢
        exact ⟨trivial, happend⟩
      | false =>
        simp only [hc, Bool.false_eq_true, if_false] at happend ⊢
        exact ⟨trivial, happend⟩
  | acknowledge acked =>
    obtain ⟨hcount, hkeeps⟩ := h.acknowledge acked
    exact ⟨congrArg Reply.retired hcount, hkeeps⟩
  | disconnect => exact ⟨rfl, h.disconnect⟩
  | reconnect acked => exact ⟨congrArg Reply.replay (h.replay acked), h.reconnect⟩
  | reset session => exact ⟨rfl, h.reset session⟩

theorem Keeps.serveAll (h : o.Keeps c l) (requests : List Request) :
    (o.serveAll requests).1 = (l.serveAll c requests).1 ∧
      (o.serveAll requests).2.Keeps c (l.serveAll c requests).2 := by
  induction requests generalizing o l with
  | nil => exact ⟨rfl, h⟩
  | cons r requests ih =>
    obtain ⟨hreply, hkeeps⟩ := h.serve r
    obtain ⟨hreplies, hkeeps⟩ := ih hkeeps
    exact ⟨congrArg₂ List.cons hreply hreplies, hkeeps⟩

end Outbox

/-! ### Growth -/

namespace Log

open Outbox (Request Reply)

/-- A log goes on: nothing is taken out of it, and what is retired stays so. -/
structure Grows (l l' : Log) : Prop where
  entries : l.entries <+: l'.entries
  retired : l.retired ≤ l'.retired

theorem Grows.refl (l : Log) : Grows l l := ⟨List.prefix_rfl, le_rfl⟩

theorem Grows.trans {l l' l'' : Log} (h : Grows l l') (h' : Grows l' l'') : Grows l l'' :=
  ⟨h.entries.trans h'.entries, h.retired.trans h'.retired⟩

/-- The numbers that are given in replies. -/
def numbers (replies : List Reply) : List Int := replies.filterMap Reply.number?

/-- A request that does not start over gives out the next place, or none. -/
theorem serve_grows (c : Config) (l : Log) {r : Request} (hr : ¬ r.Resets) :
    Grows l (l.serve c r).2 ∧ numbers [(l.serve c r).1] =
      Int.range l.entries.length (l.serve c r).2.entries.length := by
  have hsame : Int.range (l.entries.length : Int) l.entries.length = [] :=
    Sequence.range_of_le le_rfl
  cases r with
  | accept payload =>
    simp only [serve]
    split
    · exact ⟨.refl l, hsame.symm⟩
    · refine ⟨⟨List.prefix_append _ _, le_rfl⟩, ?_⟩
      have hseq : (if l.connected = true then Accepted.transmit l.entries.length
          else .deferred l.entries.length).seq = l.entries.length := by
        split <;> rfl
      have hlength : ((l.append payload).entries.length : Int) = l.entries.length + 1 := by
        simp [append]
      simp only [numbers, List.filterMap_cons, Reply.number?, hseq, List.filterMap_nil, hlength]
      exact (Sequence.range_single _).symm
  | acknowledge acked => exact ⟨⟨List.prefix_rfl, Nat.le_max_left _ _⟩, hsame.symm⟩
  | disconnect => exact ⟨⟨List.prefix_rfl, le_rfl⟩, hsame.symm⟩
  | reconnect acked => exact ⟨⟨List.prefix_rfl, le_rfl⟩, hsame.symm⟩
  | reset session => exact (hr ⟨session, rfl⟩).elim

/-- As long as nothing starts over, every place is given out once, and in order. -/
theorem serveAll_grows (c : Config) (l : Log) {requests : List Request}
    (hr : ∀ r ∈ requests, ¬ r.Resets) :
    Grows l (l.serveAll c requests).2 ∧ numbers (l.serveAll c requests).1 =
      Int.range l.entries.length (l.serveAll c requests).2.entries.length := by
  induction requests generalizing l with
  | nil => exact ⟨.refl l, (Sequence.range_of_le le_rfl).symm⟩
  | cons r requests ih =>
    obtain ⟨hfirst, hrest⟩ := List.forall_mem_cons.mp hr
    obtain ⟨hone, hnumber⟩ := serve_grows c l hfirst
    obtain ⟨hmore, hnumbers⟩ := ih (l.serve c r).2 hrest
    have hle := hone.entries.length_le
    have hle' := hmore.entries.length_le
    refine ⟨hone.trans hmore, ?_⟩
    calc numbers (l.serveAll c (r :: requests)).1
        = numbers [(l.serve c r).1] ++ numbers ((l.serve c r).2.serveAll c requests).1 :=
          List.filterMap_append (l := [(l.serve c r).1])
      _ = _ := by rw [hnumber, hnumbers, Sequence.range_append (by omega) (by omega)]; rfl

end Log

/-! ### What an outbox answers -/

/-- The log takes a payload if it fits in a frame, the window leaves room, and there is a
connection or room in the queue. -/
theorem Log.refusal?_eq_none_iff (c : Config) (l : Log) (payload : Bytes) :
    l.refusal? c payload = none ↔ payload.length ≤ c.maxPayload ∧
      (∀ w ∈ c.window, l.outstanding < w) ∧ (l.connected = true ∨ l.unsent < c.queueCap) := by
  have hwindow : c.window.any (· ≤ l.outstanding) = true ↔ ¬ ∀ w ∈ c.window, l.outstanding < w := by
    simp [Option.any_eq_true]
  have hqueue : (l.connected = false ∧ c.queueCap ≤ l.unsent) ↔
      ¬ (l.connected = true ∨ l.unsent < c.queueCap) := by
    simp
  simp only [refusal?, hwindow, hqueue]
  split_ifs <;> simp_all

namespace Outbox

variable {o : Outbox} {c : Config} {l : Log}

/-- An outbox accepts a payload if the log does. -/
theorem Keeps.isOk_accept (h : o.Keeps c l) (payload : Bytes) :
    (o.accept payload).isOk ↔ l.refusal? c payload = none := by
  rw [Outbox.accept, h.refusal? payload]
  cases l.refusal? c payload with
  | some r => exact ⟨nofun, nofun⟩
  | none => by_cases hc : o.connected = true <;> simp [hc, Except.isOk, Except.toBool]

/-- **An outbox answers as a log.** Whatever is asked of a new outbox, it answers what the log of
the accepted payloads says, and retains the places that are not retired. It accepts a payload
exactly if it fits in a frame, the window leaves room, and there is a connection or room in the
queue. As long as nothing starts over, the payloads that are accepted get the next numbers, each
once, the log only grows, and what is retired stays so. -/
theorem answers_as_log (session : SessionId) (c : Config) (requests : List Request) :
    let o := (Outbox.new session c).serveAll requests
    let l := Log.serveAll c { session } requests
    o.1 = l.1 ∧
      o.2.sequences = Int.range l.2.retired l.2.entries.length ∧
      (∀ payload, (o.2.accept payload).isOk ↔ payload.length ≤ c.maxPayload ∧
        (∀ w ∈ c.window, l.2.outstanding < w) ∧ (l.2.connected = true ∨ l.2.unsent < c.queueCap)) ∧
      ∀ later, (∀ r ∈ later, ¬ r.Resets) →
        Log.numbers (o.2.serveAll later).1 =
            Int.range l.2.entries.length (l.2.serveAll c later).2.entries.length ∧
          Log.Grows l.2 (l.2.serveAll c later).2 := by
  intro o l
  obtain ⟨hreplies, hkeeps⟩ := (Keeps.new session c).serveAll requests
  refine ⟨hreplies, hkeeps.sequences, fun payload => ?_, fun later hlater => ?_⟩
  · rw [hkeeps.isOk_accept, Log.refusal?_eq_none_iff]
  · obtain ⟨hgrows, hnumbers⟩ := Log.serveAll_grows c l.2 hlater
    rw [(hkeeps.serveAll later).1]
    exact ⟨hnumbers, hgrows⟩

/-- An acknowledgement of more than was sent, and then more payloads than the queue takes. -/
def excess : List Request :=
  [.accept [1], .acknowledge 100, .accept [2], .accept [3], .accept [4], .reconnect 7]

/-- What was sent after the acknowledgement is replayed, and the next payload gets the next
number. -/
theorem answers_as_log_excess :
    let c : Config := { queueCap := 2, sendWindow := 3, maxDelayedAcks := 2 }
    let o := (Outbox.new (.ofNat 7) c).serveAll excess
    let later : List Request := [.acknowledge 1, .accept [4]]
    o.1 = [.verdict (.ok (.deferred 0)), .retired 1, .verdict (.ok (.deferred 1)),
        .verdict (.ok (.deferred 2)), .verdict (.error .queueFull),
        .replay [.send (.ofNat 7) 1 7 [2], .send (.ofNat 7) 2 7 [3]]] ∧
      (∀ r ∈ later, ¬ r.Resets) ∧ o.2.sequences = [1, 2] ∧
      Log.numbers (o.2.serveAll later).1 = [3] := by
  intro c o later
  obtain ⟨hreplies, hsequences, -, hlater⟩ := answers_as_log (.ofNat 7) c excess
  have hresets : ∀ r ∈ later, ¬ r.Resets := by simp [later, Request.Resets]
  refine ⟨hreplies.trans ?_, hresets, hsequences.trans ?_, (hlater later hresets).1.trans ?_⟩
  all_goals decide +kernel

end Outbox

end Tether
