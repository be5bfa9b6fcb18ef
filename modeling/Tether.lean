import Tether.Backoff
import Tether.Bench
import Tether.Bytes
import Tether.Checksum
import Tether.Config
import Tether.Deadline
import Tether.Duration
import Tether.Framing
import Tether.Hex
import Tether.Inbox
import Tether.Lifecycle
import Tether.Message.Basic
import Tether.Message.Codec
import Tether.Narrow
import Tether.Net.Client
import Tether.Net.Scenario
import Tether.Net.Server
import Tether.Net.Wire
import Tether.Net.World
import Tether.Outbox
import Tether.Sequence
import Tether.Session.Alarms
import Tether.Session.Basic
import Tether.Session.Receiving
import Tether.Session.Sending
import Tether.Session.Step
import Tether.SessionId
import Tether.Timers
import Tether.Proofs.Delivery
import Tether.Proofs.Framing
import Tether.Proofs.Inbox
import Tether.Proofs.Lifecycle
import Tether.Proofs.Linked.Acks
import Tether.Proofs.Linked.Basic
import Tether.Proofs.Linked.Delays
import Tether.Proofs.Linked.Farewell
import Tether.Proofs.Linked.Flow
import Tether.Proofs.Linked.Turns
import Tether.Proofs.Log
import Tether.Proofs.Message.Canonical
import Tether.Proofs.Message.RoundTrip
import Tether.Proofs.Net.Answers
import Tether.Proofs.Net.Directory
import Tether.Proofs.Net.Frames
import Tether.Proofs.Net.Handling
import Tether.Proofs.Net.Hosting
import Tether.Proofs.Net.Kept
import Tether.Proofs.Net.Noninterference
import Tether.Proofs.Net.Part
import Tether.Proofs.Net.PartEvents
import Tether.Proofs.Net.Resumption
import Tether.Proofs.Net.Scene
import Tether.Proofs.Net.Steps
import Tether.Proofs.Net.Waiting
import Tether.Proofs.Net.Watch
import Tether.Proofs.Net.Wires
import Tether.Proofs.Outbox
import Tether.Proofs.Peers.Basic
import Tether.Proofs.Peers.ExactlyOnce
import Tether.Proofs.Sequence
import Tether.Proofs.Session.Coherent
import Tether.Proofs.Session.Connections
import Tether.Proofs.Session.Consistent
import Tether.Proofs.Session.Course
import Tether.Proofs.Session.Discipline
import Tether.Proofs.Session.Effects
import Tether.Proofs.Session.Faults
import Tether.Proofs.Session.Hears
import Tether.Proofs.Session.Keeps
import Tether.Proofs.Session.Moves
import Tether.Proofs.Session.Progress
import Tether.Proofs.Session.Shutdown
import Tether.Proofs.Session.Outdated
import Tether.Proofs.Session.Timeouts
import Tether.Proofs.Session.Deferral
import Tether.Proofs.Session.IdleFlush
import Tether.Proofs.Session.Transport
import Tether.Proofs.Session.Lifetime
import Tether.Proofs.Session.Clock
import Tether.Proofs.Session.Window
import Tether.Proofs.Session.Room
import Tether.Proofs.Session.Senders
import Tether.Proofs.Session.Wakeups
import Tether.Proofs.Session.Acknowledging
import Tether.Proofs.Session.Noted
import Tether.Proofs.Session.Backlog
import Tether.Proofs.Session.Succession
import Tether.Proofs.Checksum
import Tether.Proofs.Message.Damage
import Tether.Proofs.Spacing
import Tether.Proofs.Unsent
import Tether.Proofs.Backoff
import Tether.Proofs.Timers.Tasks
import Tether.Proofs.Timers.Firing
import Tether.Proofs.Timers.Handles
import Tether.Proofs.Timers.Runs
