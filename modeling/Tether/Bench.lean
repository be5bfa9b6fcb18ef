import Tether.Session.Alarms
import Tether.Session.Receiving

/-!
# A test bench for sessions

Sessions on one clock, over connections that only record what is sent on them. What
one session sent can be relayed to another, or lost, or relayed again. The clock
moves only when it is told to, through everything that falls due on the way, and
whatever can happen at a time has happened before anything else does.
-/

namespace Tether.Bench

/-! ### One session -/

/-- A connection that records what is sent on it. -/
structure Line where
  /-- It takes nothing. -/
  failing : Bool
  closed : Bool := false
  /-- It was closed on purpose. -/
  forced : Bool := false
  /-- The messages that were sent and not relayed yet. -/
  queue : List Message := []
  deriving DecidableEq

/-- A session with its connections, which are numbered as the session numbers them,
and what it told the layer above. -/
structure Station where
  session : Session
  lines : Array Line := #[]
  /-- How many messages were delivered. -/
  delivered : Nat := 0
  /-- The first thing that the layer above was told. -/
  firstNotice : Option Notice := none

namespace Station

/-- A connection takes a message unless it fails. -/
def takes (st : Station) (conn : ConnectionId) (_ : Message) : Bool :=
  (st.lines[conn]?).any fun line => !line.failing

/-- The lines after an effect. -/
def applyLines (lines : Array Line) : Effect → Array Line
  | .transmit conn message true =>
    lines.modify conn fun line => { line with queue := line.queue ++ [message] }
  | .close conn forced =>
    lines.modify conn fun line => { line with closed := true, forced := line.forced || forced }
  | _ => lines

/-- The station after an effect of its session. -/
def apply (st : Station) (e : Effect) : Station :=
  { st with
    lines := applyLines st.lines e
    delivered := match e with | .deliver _ => st.delivered + 1 | _ => st.delivered
    firstNotice := match e with | .notify n => st.firstNotice.or (some n) | _ => st.firstNotice }

/-- The station after its session became another with some effects. -/
def become (st : Station) (r : Session × List Effect) : Station :=
  r.2.foldl apply { st with session := r.1 }

/-- Time passes; what is due happens, and sends that were woken try again. -/
def elapse (st : Station) (now finish : Nat) : Station × List Effect :=
  let resumed := st.session.resume ⟨now, st.takes⟩
  let st := st.become resumed
  let rung := st.session.advance st.takes now finish
  (st.become rung, resumed.2 ++ rung.2)

/-- The connections that were closed between two moments, or marked as closed on
purpose. -/
def closings (before after : Station) : List (ConnectionId × Bool) :=
  after.lines.toList.zipIdx.filterMap fun (line, conn) =>
    let old := before.lines[conn]?
    if line.closed = old.any (·.closed) ∧ line.forced = old.any (·.forced) then none
    else some (conn, line.forced)

end Station

/-! ### Several sessions -/

/-- Some sessions and their clock. -/
structure World where
  now : Nat := 0
  stations : Array Station

/-- What to do with messages that were sent. -/
inductive Relay where
  /-- Hand them to the other session. -/
  | deliver
  /-- Hand them to the other session, and keep them for another time. -/
  | keep
  /-- Drop them. -/
  | lose
  deriving DecidableEq

/-- What can be done with a session on the bench. -/
inductive Command where
  /-- There is a new connection. -/
  | connect (failing : Bool)
  /-- A connection fails from now on, or works again. -/
  | setFailing (conn : ConnectionId) (failing : Bool)
  /-- A frame comes on a connection. -/
  | frame (conn : ConnectionId) (bytes : Bytes)
  /-- A connection was lost. -/
  | disconnected (conn : ConnectionId) (forced : Bool)
  | trySend (payload : Bytes)
  | send (payload : Bytes)
  | close
  | disconnect (forced : Bool)
  | flush
  /-- Time passes. -/
  | advance (time : Nat)
  /-- Time passes until so many messages were delivered, or the time is up. -/
  | awaitMessages (count timeout : Nat)
  /-- Time passes until the layer above was told something, or the time is up. What
  it is told just when the time is up does not count. -/
  | awaitNotice (timeout : Nat)
  /-- The oldest `count` messages sent on a connection, or all of them, are relayed to
  connection `targetConn` of session `target`. -/
  | relay (conn target : Nat) (targetConn : ConnectionId) (count : Option Nat) (how : Relay)

/-- What a command answers. -/
inductive Answer where
  | nothing
  | connected (result : Except Fault ConnectionId)
  | received (result : Except Fault Unit)
  | sequence (result : Except Refusal Int)
  | ticket (n : Nat)
  | count (n : Nat)
  | notice (first : Option Notice)
  | relayed (results : List (Except Fault Unit))

namespace World

/-- What the sessions did, by session. -/
abbrev Trace := List (Nat × Effect)

/-- New sessions at time zero, or the first reason why there can be none. -/
def create (specs : List (Role × SessionId × Config)) : Except ConfigError World := do
  let sessions ← specs.mapM fun (role, id, config) => Session.create role id config 0
  return { stations := (sessions.map fun session => { session }).toArray }

/-- Session number `i` becomes another with some effects. -/
def become (w : World) (i : Nat) (r : Session × List Effect) : World × Trace :=
  ({ w with stations := w.stations.modify i (·.become r) }, r.2.map (i, ·))

/-- Every session lives until a time. -/
def elapse (w : World) (finish : Nat) : World × Trace :=
  let r := w.stations.mapIdx fun i st =>
    let r := st.elapse w.now finish
    (r.1, r.2.map (i, ·))
  (⟨finish, r.map (·.1)⟩, r.toList.flatMap (·.2))

/-- Whatever can happen now happens. -/
def settle (w : World) : World × Trace := w.elapse w.now

/-- Hand frames to session `i` on a connection, one after the other. -/
def feed (w : World) (i : Nat) (conn : ConnectionId) :
    List Message → World × Trace × List (Except Fault Unit)
  | [] => (w, [], [])
  | message :: rest =>
    match w.stations[i]? with
    | none => (w, [], [])
    | some st =>
      let o := st.session.receive ⟨w.now, st.takes⟩ conn message.encode
      let one := w.become i (o.session, o.effects)
      let more := one.1.feed i conn rest
      (more.1, one.2 ++ more.2.1, o.answer :: more.2.2)

/-- Relay what session `i` sent on a connection. -/
def relay (w : World) (i conn target : Nat) (targetConn : ConnectionId) (count : Option Nat)
    (how : Relay) : World × Trace × Answer :=
  match (w.stations[i]?).bind (·.lines[conn]?) with
  | none => (w, [], .relayed [])
  | some line =>
    let n := count.getD line.queue.length
    let taken := line.queue.take n
    let shorten (st : Station) : Station :=
      { st with lines := st.lines.modify conn fun line => { line with queue := line.queue.drop n } }
    let w := if how = .keep then w else { w with stations := w.stations.modify i shorten }
    if how = .lose then (w, [], .count taken.length)
    else
      let r := w.feed target targetConn taken
      (r.1, r.2.1, .relayed r.2.2)

/-- Time passes until `finish`, and nothing was told before. -/
def giveUp (w : World) (finish : Nat) : World × Trace × Option Notice :=
  let r := w.elapse finish
  (r.1, r.2, none)

/-- Time passes until the layer above session `i` was told something, or until `finish`:
what it is told at that very moment comes too late. Only the alarms of the session make
it tell something, so it is enough to look at the first `n` of them. -/
def awaitNotice (w : World) (i finish : Nat) : Nat → World × Trace × Option Notice
  | 0 => w.giveUp finish
  | n + 1 =>
    match w.stations[i]? with
    | none => w.giveUp finish
    | some st =>
      match st.firstNotice, st.session.nextAlarm w.now with
      | some notice, _ => (w, [], some notice)
      | none, none => w.giveUp finish
      | none, some (time, _) =>
        if time < finish then
          let r := w.elapse time
          let rest := r.1.awaitNotice i finish n
          (rest.1, r.2 ++ rest.2.1, rest.2.2)
        else w.giveUp finish

/-- Do something with session `i`, before whatever follows from it. -/
def perform (w : World) (i : Nat) (st : Station) : Command → World × Trace × Answer
  | .connect failing =>
    let m : Moment := ⟨w.now, fun _ _ => !failing⟩
    let o := st.session.connect m
    match o.answer with
    | .error e => (w, [], .connected (.error e))
    | .ok conn =>
      let st := { st with lines := st.lines.push { failing } }
      let r := { w with stations := w.stations.set! i st }.become i (o.session, o.effects)
      (r.1, r.2, .connected (.ok conn))
  | .setFailing conn failing =>
    let st := { st with lines := st.lines.modify conn fun line => { line with failing } }
    ({ w with stations := w.stations.set! i st }, [], .nothing)
  | .frame conn bytes =>
    let o := st.session.receive ⟨w.now, st.takes⟩ conn bytes
    let r := w.become i (o.session, o.effects)
    (r.1, r.2, .received o.answer)
  | .disconnected conn forced =>
    let r := w.become i (st.session.disconnected ⟨w.now, st.takes⟩ conn forced)
    (r.1, r.2, .nothing)
  | .trySend payload =>
    let o := st.session.trySend ⟨w.now, st.takes⟩ payload
    let r := w.become i (o.session, o.effects)
    (r.1, r.2, .sequence o.answer)
  | .send payload =>
    let o := st.session.send ⟨w.now, st.takes⟩ payload
    let r := w.become i (o.session, o.effects)
    (r.1, r.2, .ticket o.answer)
  | .close =>
    let r := w.become i (st.session.close ⟨w.now, st.takes⟩)
    (r.1, r.2, .nothing)
  | .disconnect forced =>
    let r := w.become i (st.session, st.session.disconnect forced)
    (r.1, r.2, .nothing)
  | .flush =>
    let r := w.become i (st.session.flush ⟨w.now, st.takes⟩)
    (r.1, r.2, .nothing)
  | .advance time =>
    let r := w.elapse (w.now + time)
    (r.1, r.2, .nothing)
  | .awaitMessages count timeout =>
    -- Time alone delivers nothing.
    let r := if count ≤ st.delivered then (w, []) else w.elapse (w.now + timeout)
    (r.1, r.2, .count st.delivered)
  | .awaitNotice timeout =>
    let r := w.awaitNotice i (w.now + timeout) (Session.maxAlarms + 1)
    (r.1, r.2.1, .notice r.2.2)
  | .relay conn target targetConn count how => w.relay i conn target targetConn count how

/-- Do something with session `i`, and let happen what follows from it. -/
def step (w : World) (i : Nat) (c : Command) : World × Trace × Answer :=
  match w.stations[i]? with
  | none => (w, [], .nothing)
  | some st =>
    let r := w.perform i st c
    let s := r.1.settle
    (s.1, r.2.1 ++ s.2, r.2.2)

end World

end Tether.Bench
