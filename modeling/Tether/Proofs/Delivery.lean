import Mathlib.Order.Bounds.Basic
import Tether.Proofs.Inbox
import Tether.Proofs.Sequence

/-!
# What an inbox delivers

Messages come in any order, some again and again, and now and then what is held back is
acknowledged. An inbox delivers the numbers from zero on, each once, and as many of them as come
in this order among all others. That is the longest run from zero on that a greedy reader finds
(`deliver_run`), and only what was received decides about it, not what was acknowledged
(`received_serve`).

Main result: the deliveries of a new inbox are the longest such run, every other message is
answered with what was received, and replays of what was delivered change nothing
(`delivers_in_order`).
-/

namespace Tether.Inbox

/-! ### Requests -/

/-- What can be asked of an inbox. -/
inductive Request where
  /-- The message with a number comes. -/
  | receive (seq : Int)
  /-- Something is sent that carries an acknowledgement. -/
  | acknowledge
  /-- Acknowledge what is held back, if something is. -/
  | flush
  deriving DecidableEq

/-- What is answered. -/
inductive Reply where
  /-- What to do with the message. -/
  | reception (reception : Reception)
  /-- The acknowledgement to send. -/
  | acknowledged (ack : Int)
  /-- The acknowledgement to send, if there is one. -/
  | flushed (ack : Option Int)
  deriving DecidableEq

/-- What an inbox answers to a request, and leaves. -/
def serve (maxDelayed : Int) (i : Inbox) : Request → Reply × Inbox
  | .receive seq => (.reception (i.receive maxDelayed seq).1, (i.receive maxDelayed seq).2)
  | .acknowledge => (.acknowledged i.flush.acked, i.flush)
  | .flush => (.flushed i.heldBack, if i.heldBack.isSome then i.flush else i)

/-- What an inbox answers to some requests, and leaves. -/
def serveAll (maxDelayed : Int) (i : Inbox) : List Request → List Reply × Inbox
  | [] => ([], i)
  | r :: rest =>
    let one := i.serve maxDelayed r
    let more := one.2.serveAll maxDelayed rest
    (one.1 :: more.1, more.2)

/-- The number of the message that comes, if one does. -/
def Request.number? : Request → Option Int
  | .receive seq => some seq
  | _ => none

/-- The numbers of the messages that come, in order. -/
def numbers (requests : List Request) : List Int := requests.filterMap Request.number?

/-- The reply lets a message be delivered. -/
def Reply.Delivers (r : Reply) : Prop := ∃ ack, r = .reception (.deliver ack)

instance (r : Reply) : Decidable r.Delivers :=
  match r with
  | .reception (.deliver ack) => isTrue ⟨ack, rfl⟩
  | .reception (.duplicate _) | .reception (.gap _) => isFalse (by simp [Reply.Delivers])
  | .acknowledged _ | .flushed _ => isFalse (by simp [Reply.Delivers])

/-- The number that is delivered on a request, if one is. -/
def delivers? (maxDelayed : Int) (i : Inbox) (r : Request) : Option Int :=
  if (i.serve maxDelayed r).1.Delivers then r.number? else none

/-- The numbers that are delivered, in order. -/
def delivered (maxDelayed : Int) (i : Inbox) : List Request → List Int
  | [] => []
  | r :: rest =>
    (i.delivers? maxDelayed r).toList ++ (i.serve maxDelayed r).2.delivered maxDelayed rest

variable {maxDelayed : Int} {i i' : Inbox} {r : Request} {requests : List Request}

theorem serveAll_append (requests requests' : List Request) :
    i.serveAll maxDelayed (requests ++ requests') =
      ((i.serveAll maxDelayed requests).1 ++
          ((i.serveAll maxDelayed requests).2.serveAll maxDelayed requests').1,
        ((i.serveAll maxDelayed requests).2.serveAll maxDelayed requests').2) := by
  induction requests generalizing i with
  | nil => rfl
  | cons r requests ih => simp only [List.cons_append, serveAll, ih]

/-- The reply to a request among others. -/
theorem getElem?_serveAll (i : Inbox) (before : List Request) (r : Request)
    (after : List Request) :
    (i.serveAll maxDelayed (before ++ r :: after)).1[before.length]? =
      some ((i.serveAll maxDelayed before).2.serve maxDelayed r).1 := by
  induction before generalizing i with
  | nil => rfl
  | cons r' before ih => exact ih _

/-! ### One message -/

/-- The next message is delivered. -/
theorem serve_next : (i.serve maxDelayed (.receive (i.received + 1))).1.Delivers ∧
    (i.serve maxDelayed (.receive (i.received + 1))).2.received = i.received + 1 := by
  rw [serve, receive_next]
  split
  · exact ⟨⟨_, rfl⟩, rfl⟩
  · exact ⟨⟨_, rfl⟩, rfl⟩

/-- Every other message is answered with what was received. -/
theorem serve_other {seq : Int} (h : seq ≠ i.received + 1) :
    (i.serve maxDelayed (.receive seq)).1 =
      .reception (if seq ≤ i.received then .duplicate i.received else .gap i.received) := by
  simp only [serve, receive]
  split
  · rfl
  · rw [if_pos (by omega)]

/-- **Only the next message is delivered.** -/
theorem delivers?_eq : i.delivers? maxDelayed r =
    if r = .receive (i.received + 1) then some (i.received + 1) else none := by
  cases r with
  | receive seq =>
    by_cases h : seq = i.received + 1
    · subst h
      rw [delivers?, if_pos serve_next.1, if_pos rfl]
      rfl
    · rw [delivers?, serve_other h, if_neg, if_neg (by simpa using h)]
      split <;> simp [Reply.Delivers]
  | acknowledge | flush =>
    rw [delivers?, if_neg (by simp [serve, Reply.Delivers]), if_neg (by simp)]

/-- **What was received grows by what is delivered**, and by nothing else. -/
theorem received_serve : (i.serve maxDelayed r).2.received =
    if r = .receive (i.received + 1) then i.received + 1 else i.received := by
  cases r with
  | receive seq =>
    by_cases h : seq = i.received + 1
    · subst h
      rw [serve_next.2, if_pos rfl]
    · rw [if_neg (by simpa using h), serve, (receive_of_ne h).2]
      rfl
  | acknowledge => rfl
  | flush =>
    simp only [serve, reduceCtorEq, if_false]
    split <;> rfl

/-! ### Runs of numbers -/

/-- **A greedy reader finds the longest run.** What is delivered are the numbers after what was
received, up to some last one. They come in this order among the others, and no longer run from
there on does. -/
theorem deliver_run (maxDelayed : Int) (i : Inbox) (requests : List Request) :
    let last := (i.serveAll maxDelayed requests).2.received
    i.received ≤ last ∧
      i.delivered maxDelayed requests = Int.range (i.received + 1) (last + 1) ∧
      (Int.range (i.received + 1) (last + 1)).Sublist (numbers requests) ∧
      ∀ n, (Int.range (i.received + 1) n).Sublist (numbers requests) → n ≤ last + 1 := by
  induction requests generalizing i with
  | nil =>
    refine ⟨le_rfl, (Sequence.range_of_le le_rfl).symm, ?_, fun n hn => ?_⟩
    · rw [serveAll, Sequence.range_of_le le_rfl]
      exact List.nil_sublist _
    · exact Sequence.range_eq_nil (List.sublist_nil.mp hn)
  | cons r requests ih =>
    obtain ⟨hle, hdelivered, hsub, hlongest⟩ := ih (i.serve maxDelayed r).2
    simp only [serveAll, delivered, delivers?_eq]
    rw [received_serve] at hle hdelivered hsub hlongest
    by_cases hr : r = .receive (i.received + 1)
    · -- the next number comes, and begins the run
      rw [if_pos hr] at hle hdelivered hsub hlongest ⊢
      have hnumbers : numbers (r :: requests) = (i.received + 1) :: numbers requests := by
        rw [hr]
        rfl
      rw [Sequence.range_cons (by omega), hdelivered, hnumbers]
      refine ⟨by omega, rfl, hsub.cons_cons _, fun n hn => ?_⟩
      by_cases hlt : i.received + 1 < n
      · rw [Sequence.range_cons hlt, List.cons_sublist_cons] at hn
        exact hlongest n hn
      · omega
    · -- something else comes, which no run can begin with
      rw [if_neg hr] at hle hdelivered hsub hlongest ⊢
      refine ⟨hle, hdelivered, ?_, fun n hn => ?_⟩
      · exact hsub.trans ((List.sublist_cons_self r requests).filterMap _)
      · refine hlongest n ?_
        by_cases hlt : i.received + 1 < n
        · rw [Sequence.range_cons hlt] at hn ⊢
          cases r with
          | receive seq =>
            cases hn with
            | cons _ hn => exact hn
            | cons_cons _ hn => exact (hr rfl).elim
          | acknowledge | flush => exact hn
        · rw [Sequence.range_of_le (by omega)]
          exact List.nil_sublist _

/-! ### Replays -/

/-- The second list has the requests of the first, and in between messages that come again: each
was delivered on the requests before it. The requests `before` have been served already. -/
inductive Replayed (maxDelayed : Int) :
    (before : List Request) → List Request → List Request → Prop where
  /-- Nothing is left. -/
  | nil {before : List Request} : Replayed maxDelayed before [] []
  /-- The next request is the same. -/
  | same {before requests requests' : List Request} (r : Request)
    (h : Replayed maxDelayed (before ++ [r]) requests requests') :
    Replayed maxDelayed before (r :: requests) (r :: requests')
  /-- A message comes again. -/
  | again {before requests requests' : List Request} (seq : Int)
    (hs : seq ∈ delivered maxDelayed {} before)
    (h : Replayed maxDelayed before requests requests') :
    Replayed maxDelayed before requests (.receive seq :: requests')

/-- What comes again is delivered no more, and leaves what was received. -/
theorem Replayed.same_deliveries {before requests' : List Request}
    (h : Replayed maxDelayed before requests requests')
    (hi : i.received = (serveAll maxDelayed {} before).2.received)
    (hi' : i'.received = i.received) :
    i'.delivered maxDelayed requests' = i.delivered maxDelayed requests ∧
      (i'.serveAll maxDelayed requests').2.received =
        (i.serveAll maxDelayed requests).2.received := by
  induction h generalizing i i' with
  | nil => exact ⟨rfl, hi'⟩
  | @same before requests requests' r _ ih =>
    have hsame : (i'.serve maxDelayed r).2.received = (i.serve maxDelayed r).2.received := by
      rw [received_serve, received_serve, hi']
    have hnext : (i.serve maxDelayed r).2.received =
        (serveAll maxDelayed {} (before ++ [r])).2.received := by
      rw [serveAll_append]
      simp only [serveAll, received_serve, hi]
    obtain ⟨hdelivered, hreceived⟩ := ih hnext hsame
    simp only [delivered, delivers?_eq, hi', hdelivered, serveAll]
    exact ⟨trivial, hreceived⟩
  | @again before requests requests' seq hs _ ih =>
    -- what was delivered before is not the next number
    have hne : Request.receive seq ≠ .receive (i'.received + 1) := by
      rw [(deliver_run maxDelayed {} before).2.1, Int.mem_range_iff] at hs
      simp only [ne_eq, Request.receive.injEq]
      omega
    have hsame : (i'.serve maxDelayed (.receive seq)).2.received = i.received := by
      rw [received_serve, if_neg hne, hi']
    simp only [delivered, delivers?_eq, if_neg hne, Option.toList_none, List.nil_append, serveAll]
    exact ih hi hsame

/-! ### New inboxes -/

/-- **An inbox delivers in order.** What a new inbox delivers are the numbers from zero on, up to
what it received at last, and that is the longest run from zero on that comes among the messages
in this order. A message is delivered if it is the next one; every other is answered with what
was received, as a duplicate or as a gap. If messages that were delivered come again, anywhere and
however often, the deliveries are the same. -/
theorem delivers_in_order (maxDelayed : Int) (requests : List Request) :
    let replies := (serveAll maxDelayed {} requests).1
    let received := (serveAll maxDelayed {} requests).2.received
    delivered maxDelayed {} requests = Int.range 0 (received + 1) ∧
      IsGreatest {n | (Int.range 0 n).Sublist (numbers requests)} (received + 1) ∧
      (∀ before seq after, requests = before ++ .receive seq :: after →
        let received := (serveAll maxDelayed {} before).2.received
        ∃ reception, replies[before.length]? = some (.reception reception) ∧
          (seq = received + 1 → ∃ ack, reception = .deliver ack) ∧
          (seq ≠ received + 1 →
            reception = if seq ≤ received then .duplicate received else .gap received)) ∧
      ∀ requests', Replayed maxDelayed [] requests requests' →
        delivered maxDelayed {} requests' = delivered maxDelayed {} requests ∧
          (serveAll maxDelayed {} requests').2.received = received := by
  intro replies received
  obtain ⟨-, hdelivered, hsub, hlongest⟩ := deliver_run maxDelayed {} requests
  refine ⟨hdelivered, ⟨hsub, hlongest⟩, ?_, fun requests' h => h.same_deliveries rfl rfl⟩
  rintro before seq after rfl received
  have hreply := @getElem?_serveAll maxDelayed {} before (.receive seq) after
  by_cases hseq : seq = received + 1
  · have hnext : (serve maxDelayed (serveAll maxDelayed {} before).2 (.receive seq)).1.Delivers :=
      hseq ▸ serve_next.1
    obtain ⟨ack, hack⟩ := hnext
    exact ⟨.deliver ack, hack ▸ hreply, fun _ => ⟨ack, rfl⟩, fun h => (h hseq).elim⟩
  · rw [serve_other hseq] at hreply
    exact ⟨_, hreply, fun h => (hseq h).elim, fun _ => rfl⟩

/-- Messages come with a gap, out of order and again, and acknowledgements go out in between. -/
def disorder : List Request :=
  [.receive 0, .receive 2, .acknowledge, .receive 1, .receive 0, .flush, .receive 2]

/-- What was missing is delivered when it comes, and what comes again is not, not even if still
more comes again. -/
theorem delivers_in_order_disorder :
    let again : List Request := [.receive 0, .receive 0, .receive 2, .acknowledge, .receive 1,
      .receive 0, .receive 1, .flush, .receive 2, .receive 2]
    Replayed 16 [] disorder again ∧ delivered 16 {} disorder = [0, 1, 2] ∧
      delivered 16 {} again = [0, 1, 2] ∧ (serveAll 16 {} again).2.received = 2 ∧
      (serveAll 16 {} disorder).1[1]? = some (.reception (.gap 0)) := by
  intro again
  obtain ⟨hdelivered, -, hreplies, hreplayed⟩ := delivers_in_order 16 disorder
  have hagain : Replayed 16 [] disorder again := by
    refine .same _ (.again 0 (by decide) (.same _ (.same _ (.same _ (.same _ ?_)))))
    exact .again 1 (by decide) (.same _ (.same _ (.again 2 (by decide) .nil)))
  have hthree : delivered 16 {} disorder = [0, 1, 2] := hdelivered.trans (by decide)
  obtain ⟨hsame, hreceived⟩ := hreplayed again hagain
  obtain ⟨reception, hreply, -, hother⟩ := hreplies [.receive 0] 2 _ rfl
  rw [hother (by decide)] at hreply
  exact ⟨hagain, hthree, hsame.trans hthree, hreceived.trans (by decide), hreply⟩

end Tether.Inbox
