import Tether.Session.Step

/-!
# What goes over the connections

Of the effects of an operation, those that matter to the peer are the messages that
are handed to connections (`transmitted`), and those that matter to the layer above
are the payloads (`delivered`).
-/

namespace Tether

/-- A message that is handed to a connection. -/
structure Transmission where
  conn : ConnectionId
  message : Message
  /-- Whether the connection takes it. -/
  taken : Bool
  deriving DecidableEq

namespace Effect

/-- The message that is handed to a connection, if the effect is that. -/
def transmission? : Effect → Option Transmission
  | transmit conn message taken => some ⟨conn, message, taken⟩
  | _ => none

/-- The payload that is delivered, if the effect is that. -/
def payload? : Effect → Option Bytes
  | deliver payload => some payload
  | _ => none

/-- The messages that are handed to connections, in order. -/
def transmitted (effects : List Effect) : List Transmission := effects.filterMap transmission?

/-- The payloads that are delivered, in order. -/
def delivered (effects : List Effect) : List Bytes := effects.filterMap payload?

variable (e f : List Effect)

@[simp] theorem transmitted_nil : transmitted [] = [] := rfl
@[simp] theorem transmitted_append : transmitted (e ++ f) = transmitted e ++ transmitted f :=
  List.filterMap_append
@[simp] theorem transmitted_transmit (c : ConnectionId) (x : Message) (b : Bool) :
    transmitted (.transmit c x b :: e) = ⟨c, x, b⟩ :: transmitted e := rfl
@[simp] theorem transmitted_close (c : ConnectionId) (b : Bool) :
    transmitted (.close c b :: e) = transmitted e := rfl
@[simp] theorem transmitted_deliver (p : Bytes) : transmitted (.deliver p :: e) = transmitted e :=
  rfl
@[simp] theorem transmitted_notify (n : Notice) : transmitted (.notify n :: e) = transmitted e :=
  rfl
@[simp] theorem transmitted_sent (t : Nat) (r : Except Refusal Int) :
    transmitted (.sent t r :: e) = transmitted e := rfl

@[simp] theorem delivered_nil : delivered [] = [] := rfl
@[simp] theorem delivered_append : delivered (e ++ f) = delivered e ++ delivered f :=
  List.filterMap_append
@[simp] theorem delivered_transmit (c : ConnectionId) (x : Message) (b : Bool) :
    delivered (.transmit c x b :: e) = delivered e := rfl
@[simp] theorem delivered_close (c : ConnectionId) (b : Bool) :
    delivered (.close c b :: e) = delivered e := rfl
@[simp] theorem delivered_deliver (p : Bytes) : delivered (.deliver p :: e) = p :: delivered e :=
  rfl
@[simp] theorem delivered_notify (n : Notice) : delivered (.notify n :: e) = delivered e := rfl
@[simp] theorem delivered_sent (t : Nat) (r : Except Refusal Int) :
    delivered (.sent t r :: e) = delivered e := rfl

/-! ### Closing connections -/

@[simp] theorem transmitted_close_map {α : Type} (o : List α) (conn : α → ConnectionId) (b : Bool) :
    transmitted (o.map fun a => Effect.close (conn a) b) = [] := by
  induction o with
  | nil => rfl
  | cons a o ih => exact ih

@[simp] theorem delivered_close_map {α : Type} (o : List α) (conn : α → ConnectionId) (b : Bool) :
    delivered (o.map fun a => Effect.close (conn a) b) = [] := by
  induction o with
  | nil => rfl
  | cons a o ih => exact ih

end Effect

namespace Session

/-- The message that a session hands to a connection at a moment. -/
def handing (m : Moment) (c : ConnectionId) (x : Message) : Transmission := ⟨c, x, m.takes c x⟩

@[simp] theorem transmitted_transmit (m : Moment) (c : ConnectionId) (x : Message)
    (e : List Effect) :
    Effect.transmitted (transmit m c x :: e) = handing m c x :: Effect.transmitted e := rfl

@[simp] theorem delivered_transmit (m : Moment) (c : ConnectionId) (x : Message) (e : List Effect) :
    Effect.delivered (transmit m c x :: e) = Effect.delivered e := rfl

theorem transmitted_sendAck {s : Session} {c : ConnectionId} (hc : s.active = some c) (m : Moment)
    (n : Int) : Effect.transmitted (s.sendAck m n) = [handing m c (.ack s.id n)] := by
  simp only [sendAck, hc, Option.toList_some, List.map_cons, List.map_nil, transmitted_transmit,
    Effect.transmitted_nil]

@[simp] theorem delivered_sendAck (s : Session) (m : Moment) (n : Int) :
    Effect.delivered (s.sendAck m n) = [] := by
  unfold sendAck
  cases s.active <;> rfl

/-- Messages are handed to a connection one after the other, until it does not take
one. -/
def handAll (m : Moment) (c : ConnectionId) : List Message → List Transmission
  | [] => []
  | x :: rest => handing m c x :: if m.takes c x then handAll m c rest else []

@[simp] theorem transmitted_transmitAll (m : Moment) (c : ConnectionId) (l : List Message) :
    Effect.transmitted (transmitAll m c l) = handAll m c l := by
  induction l with
  | nil => rfl
  | cons x l ih =>
    simp only [transmitAll, handAll, transmitted_transmit]
    split
    · rw [ih]
    · rfl

@[simp] theorem delivered_transmitAll (m : Moment) (c : ConnectionId) (l : List Message) :
    Effect.delivered (transmitAll m c l) = [] := by
  induction l with
  | nil => rfl
  | cons x l ih =>
    simp only [transmitAll, delivered_transmit]
    split
    · exact ih
    · rfl

theorem mem_handAll {m : Moment} {c : ConnectionId} {l : List Message} {t : Transmission}
    (h : t ∈ handAll m c l) : t.conn = c ∧ t.message ∈ l := by
  induction l with
  | nil => cases h
  | cons x l ih =>
    rw [handAll] at h
    rcases List.mem_cons.mp h with rfl | h
    · exact ⟨rfl, List.mem_cons_self⟩
    · split at h
      · exact ⟨(ih h).1, List.mem_cons_of_mem x (ih h).2⟩
      · cases h

/-- The messages that are handed over are the first ones, and all unless one is not
taken. -/
theorem handAll_prefix (m : Moment) (c : ConnectionId) (l : List Message) :
    (handAll m c l).map (·.message) <+: l ∧
      ((∀ τ ∈ handAll m c l, τ.taken = true) → (handAll m c l).map (·.message) = l) := by
  induction l with
  | nil => exact ⟨List.prefix_rfl, fun _ => rfl⟩
  | cons x l ih =>
    rw [handAll]
    split
    · refine ⟨List.cons_prefix_cons.mpr ⟨rfl, ih.1⟩, fun h => ?_⟩
      exact congrArg _ (ih.2 (List.forall_mem_cons.mp h).2)
    · next ht =>
      refine ⟨List.cons_prefix_cons.mpr ⟨rfl, List.nil_prefix⟩, fun h => ?_⟩
      exact absurd (List.forall_mem_cons.mp h).1 ht

end Session

end Tether
