import Mathlib.Data.List.DropRight
import Tether.Proofs.Log

/-!
# What awaits its first transmission

A payload that is accepted without a connection is deferred until a replay carries it. The outbox
does not keep a list of what it deferred. It only counts: one more for each payload that is
deferred, no more than is retained after an acknowledgement, and none after a replay. The count is
right because all that was deferred since the last replay stands behind all else, and
acknowledgements retire from the front (`Log.Postpones`).

Main result: the messages that were deferred and not replayed since are the last ones that are
retained, as many as are counted, and neither they nor all that is retained exceed the bounds of
the configuration (`retained_within_bounds`).
-/

namespace Tether

namespace Outbox

/-- Which numbers were deferred and not replayed since, if some were before, and then a request got
a reply. Nothing that was accepted before a reset is left after it. -/
def postpone (numbers : List Int) : Request × Reply → List Int
  | (.accept _, .verdict (.ok (.deferred n))) => numbers ++ [n]
  | (.reconnect _, .replay messages) => numbers.filter (· ∉ messages.map (·.seq))
  | (.reset _, _) => []
  | _ => numbers

/-- **The numbers that were deferred and not replayed since**, by what was asked and answered. -/
def postponed (exchanges : List (Request × Reply)) : List Int := exchanges.foldl postpone []

end Outbox

namespace Log

open Outbox (Request Reply postpone)

variable {c : Config} {l : Log} {numbers : List Int}

/-- **A log within its bounds.** Of what is not retired, the entries that were not handed out are
those whose numbers were deferred and not replayed since. -/
structure Postpones (c : Config) (l : Log) (numbers : List Int) : Prop where
  numbers : ∀ n : Int, l.retired ≤ n →
    (n ∈ numbers ↔ max l.retired l.handed ≤ n ∧ n < l.entries.length)
  /-- While there is a connection, everything is handed out. -/
  handed : l.connected = true → l.handed = l.entries.length
  window : ∀ w ∈ c.window, l.outstanding ≤ w
  queue : l.unsent ≤ c.queueCap

theorem Postpones.new (session : SessionId) (c : Config) : Postpones c { session } [] where
  numbers n hn := by
    simp only [List.not_mem_nil, List.length_nil, false_iff]
    omega
  handed := nofun
  window _ _ := Nat.zero_le _
  queue := Nat.zero_le _

/-- The entry that is accepted is within the bounds, and the last one. -/
theorem Postpones.append (h : Postpones c l numbers) {payload : Bytes}
    (hr : l.refusal? c payload = none) :
    Postpones c (l.append payload)
      (if l.connected then numbers else numbers ++ [(l.entries.length : Int)]) := by
  have hretired := l.retired_le
  have hhanded := l.handed_le
  obtain ⟨-, hwindow, hqueue⟩ := (refusal?_eq_none_iff c l payload).mp hr
  have hlength : (l.append payload).entries.length = l.entries.length + 1 := by simp [Log.append]
  refine ⟨fun n hn => ?_, fun hc => ?_, fun w hw => ?_, ?_⟩
  · have hold := h.numbers n hn
    rw [hlength]
    simp only [Log.append]
    by_cases hc : l.connected = true
    · have hall := h.handed hc
      simp only [hc, if_true, hold]
      omega
    · simp only [hc, Bool.false_eq_true, if_false, List.mem_append, List.mem_singleton, hold]
      have hn : (l.retired : Int) ≤ n := hn
      omega
  · have hc : l.connected = true := hc
    rw [hlength]
    simp [Log.append, hc]
  · have hroom := hwindow w hw
    simp only [Log.outstanding] at hroom ⊢
    rw [hlength]
    simp only [Log.append]
    omega
  · have hle := h.queue
    simp only [Log.unsent] at hqueue hle ⊢
    rw [hlength]
    simp only [Log.append]
    by_cases hc : l.connected = true
    · have hall := h.handed hc
      simp only [hc, if_true]
      omega
    · simp only [hc, Bool.false_eq_true, if_false]
      have hroom := hqueue.resolve_left hc
      omega

theorem Postpones.acknowledge (h : Postpones c l numbers) (acked : Int) :
    Postpones c (l.acknowledge acked) numbers := by
  have hgrows : l.retired ≤ (l.acknowledge acked).retired := Nat.le_max_left _ _
  refine ⟨fun n hn => ?_, h.handed, fun w hw => ?_, ?_⟩
  · have hold := h.numbers n (by omega)
    have hhanded : (l.acknowledge acked).handed = l.handed := rfl
    have hentries : (l.acknowledge acked).entries = l.entries := rfl
    rw [hold, hhanded, hentries]
    omega
  · exact (Nat.sub_le_sub_left hgrows _).trans (h.window w hw)
  · rw [unsent_acknowledge]
    exact (Nat.min_le_left _ _).trans h.queue

/-- What is replayed is no longer postponed, and that is all that is not retired. -/
theorem Postpones.reconnect (h : Postpones c l numbers) (acked : Int) :
    Postpones c l.reconnect (numbers.filter (· ∉ (l.replay acked).map (·.seq))) := by
  have hretired := l.retired_le
  have hreplayed : (l.replay acked).map (·.seq) = Int.range l.retired l.entries.length := by
    have hseq : (l.replay acked).map (·.seq) = l.remaining.map (·.seq) := by
      simp [replay, Message.send, Function.comp_def]
    rw [hseq, remaining, map_seq_numbered, List.length_drop, Nat.add_sub_cancel' hretired]
  refine ⟨fun n hn => ?_, fun _ => rfl, h.window, ?_⟩
  · have hn : (l.retired : Int) ≤ n := hn
    have hold := h.numbers n hn
    simp only [hreplayed, List.mem_filter, decide_eq_true_eq, Int.mem_range_iff, hold,
      Log.reconnect]
    omega
  · simp [Log.reconnect, Log.unsent]

/-- **A request keeps the log within its bounds.** -/
theorem Postpones.serve (h : Postpones c l numbers) (r : Request) :
    Postpones c (l.serve c r).2 (postpone numbers (r, (l.serve c r).1)) := by
  cases r with
  | accept payload =>
    cases hr : l.refusal? c payload with
    | some refusal => simpa only [Log.serve, hr, postpone] using h
    | none =>
      have happend := h.append hr
      cases hc : l.connected with
      | true => simpa only [Log.serve, hr, hc, if_true, postpone] using happend
      | false =>
        simpa only [Log.serve, hr, hc, Bool.false_eq_true, if_false, postpone] using happend
  | acknowledge acked => exact h.acknowledge acked
  | disconnect =>
    exact ⟨h.numbers, fun hc => absurd hc Bool.false_ne_true, h.window, h.queue⟩
  | reconnect acked => exact h.reconnect acked
  | reset session =>
    have hnew := Postpones.new session c
    exact ⟨hnew.numbers, fun _ => rfl, hnew.window, hnew.queue⟩

/-- The last entries of a log. -/
theorem filter_numbered {n k : Nat} {entries : List Bytes} {p : Retained → Bool}
    (hp : ∀ r ∈ numbered n entries, p r = true ↔ (n + k : Nat) ≤ r.seq) :
    (numbered n entries).filter p = (numbered n entries).drop k := by
  induction entries generalizing n k with
  | nil => simp [numbered]
  | cons payload entries ih =>
    rw [numbered_cons] at hp ⊢
    obtain ⟨hhead, htail⟩ := List.forall_mem_cons.mp hp
    cases k with
    | zero =>
      have hall : (numbered (n + 1) entries).filter p = (numbered (n + 1) entries).drop 0 := by
        refine ih fun r hr => ?_
        have hmem : r.seq ∈ (numbered (n + 1) entries).map (·.seq) := List.mem_map_of_mem hr
        rw [map_seq_numbered, Int.mem_range_iff] at hmem
        rw [htail r hr]
        omega
      rw [List.filter_cons_of_pos (hhead.mpr (by simp)), hall, List.drop_zero, List.drop_zero]
    | succ k =>
      rw [List.filter_cons_of_neg (by rw [hhead]; simp only [not_le]; omega), List.drop_succ_cons]
      refine ih fun r hr => ?_
      rw [htail r hr]
      omega

/-- **What was postponed and is not retired are the last entries**, as many as are unsent. -/
theorem Postpones.filter_remaining (h : Postpones c l numbers) :
    l.remaining.filter (fun r => decide (r.seq ∈ numbers)) = l.remaining.rtake l.unsent := by
  have hretired := l.retired_le
  have hhanded := l.handed_le
  have hkept : l.remaining.length - l.unsent = max l.retired l.handed - l.retired := by
    rw [length_remaining, outstanding, unsent]
    omega
  rw [List.rtake, hkept]
  refine filter_numbered fun r hr => ?_
  have hmem : r.seq ∈ (numbered l.retired (l.entries.drop l.retired)).map (·.seq) :=
    List.mem_map_of_mem hr
  rw [map_seq_numbered, Int.mem_range_iff, List.length_drop] at hmem
  rw [decide_eq_true_eq, h.numbers r.seq hmem.1]
  omega

end Log

namespace Outbox

variable {o : Outbox} {c : Config} {l : Log} {numbers : List Int}

theorem Keeps.postpones (h : o.Keeps c l) (hp : l.Postpones c numbers) (requests : List Request) :
    (l.serveAll c requests).2.Postpones c
      ((requests.zip (o.serveAll requests).1).foldl postpone numbers) := by
  induction requests generalizing o l numbers with
  | nil => exact hp
  | cons r requests ih =>
    obtain ⟨hreply, hkeeps⟩ := h.serve r
    have hstep := hp.serve r
    rw [← hreply] at hstep
    exact ih hkeeps hstep

/-- **What is retained keeps to the bounds.** Whatever is asked of a new outbox, it retains no more
messages than the window allows, if there is a bound. Those it counts as never transmitted are the
ones that were deferred and not replayed since. They are the last messages that are retained, and
no more than the queue takes. -/
theorem retained_within_bounds (session : SessionId) (c : Config) (requests : List Request) :
    let run := (Outbox.new session c).serveAll requests
    let retained := run.2.retained.toList
    let untransmitted := retained.filter (·.seq ∈ postponed (requests.zip run.1))
    (∀ w ∈ c.window, retained.length ≤ w) ∧
      run.2.unsent = untransmitted.length ∧
      untransmitted = retained.rtake run.2.unsent ∧
      run.2.unsent ≤ c.queueCap := by
  intro run retained untransmitted
  obtain ⟨-, hkeeps⟩ := (Keeps.new session c).serveAll requests
  have hpostpones := (Keeps.new session c).postpones (.new session c) requests
  have hlast : untransmitted = retained.rtake run.2.unsent := by
    have hfilter := hpostpones.filter_remaining
    rwa [← hkeeps.retained, ← hkeeps.unsent] at hfilter
  refine ⟨fun w hw => ?_, ?_, hlast, ?_⟩
  · exact hkeeps.size.trans_le (hpostpones.window w hw)
  · have hle : run.2.unsent ≤ retained.length := hkeeps.unsent_le
    rw [hlast, List.rtake, List.length_drop]
    omega
  · exact hkeeps.unsent.trans_le hpostpones.queue

/-- The window is full of payloads that were deferred, but for the first. After an acknowledgement
of that one and of one that was never transmitted there is room for another, and then the queue is
full. -/
theorem retained_within_bounds_unheard :
    let c : Config := { queueCap := 2, sendWindow := 3, maxDelayedAcks := 2 }
    let requests : List Request := [.reconnect (-1), .accept [1], .disconnect, .accept [2],
      .accept [3], .accept [4], .acknowledge 1, .accept [5], .accept [6]]
    let run := (Outbox.new (.ofNat 7) c).serveAll requests
    run.1.drop 5 = [.verdict (.error .windowFull), .retired 2, .verdict (.ok (.deferred 3)),
        .verdict (.error .queueFull)] ∧
      postponed (requests.zip run.1) = [1, 2, 3] ∧
      3 ∈ c.window ∧ run.2.retained.toList.length ≤ 3 ∧
      run.2.unsent = 2 ∧ run.2.retained.toList.rtake 2 = [⟨2, [3]⟩, ⟨3, [5]⟩] := by
  intro c requests run
  have hrun : run = (Outbox.new (.ofNat 7) c).serveAll requests := rfl
  obtain ⟨hwindow, hcount, hlast, -⟩ := retained_within_bounds (.ofNat 7) c requests
  rw [← hrun] at hwindow hcount hlast
  have hbound : 3 ∈ c.window := rfl
  have hreplies : run.1.drop 5 = [.verdict (.error .windowFull), .retired 2,
      .verdict (.ok (.deferred 3)), .verdict (.error .queueFull)] := by decide +kernel
  have hnumbers : postponed (requests.zip run.1) = [1, 2, 3] := by decide +kernel
  have hretained : run.2.retained.toList = [⟨2, [3]⟩, ⟨3, [5]⟩] := by decide +kernel
  -- the run is evaluated; from here on its parts count
  clear_value run
  rw [hnumbers, hretained] at hcount hlast
  have htwo : run.2.unsent = 2 := hcount
  rw [htwo] at hlast
  refine ⟨hreplies, hnumbers, hbound, hwindow 3 hbound, htwo, ?_⟩
  rw [hretained]
  exact hlast.symm

end Outbox

end Tether
