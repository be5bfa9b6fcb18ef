import Tether.Message.Codec

/-!
# Configuration

What a host decides about its sessions, and which decisions fit together.
Times are in milliseconds.
-/

namespace Tether

/-- The configuration of a session. -/
structure Config where
  /-- Whether a new connection may replace one that was lost. -/
  reconnects : Bool := true
  /-- How long a lost connection may be replaced. -/
  restoreTimeout : Nat := 5000
  /-- How many messages are accepted while there is no connection. -/
  queueCap : Nat := 5000
  /-- An acknowledgement is sent after this many messages. -/
  maxDelayedAcks : Int := 16
  /-- How many messages may await their acknowledgement; none or fewer stands for
  any number. -/
  sendWindow : Int := 32
  /-- The interval at which held back acknowledgements are sent, if there is one. -/
  idleFlush : Option Nat := some 100
  /-- The greatest length of a frame. -/
  maxFrameLength : Nat := 16 * 1024 * 1024
  /-- How long a connection may take to complete its handshake. -/
  handshakeTimeout : Nat := 5000
  deriving DecidableEq

/-- Why a configuration is refused. -/
inductive ConfigError where
  /-- Acknowledgements must be delayed by some number of messages. -/
  | delayedAcksNotPositive (maxDelayedAcks : Int)
  /-- The sender would wait for an acknowledgement that the receiver holds back. -/
  | delayedAcksFillWindow (maxDelayedAcks sendWindow : Int)
  /-- Nothing could be sent while there is no connection. -/
  | queueCapZero
  /-- No frame could be sent. -/
  | frameBelowHeader (maxFrameLength : Nat)
  /-- The length of a frame would not fit in front of it. -/
  | frameAbovePrefix (maxFrameLength : Nat)
  deriving DecidableEq

namespace Config

/-- The greatest length that fits in front of a frame. -/
def maxPrefix : Nat := UInt32.size - 1

/-- Whether a configuration is acceptable, and if not, the first reason. -/
def validate (c : Config) : Except ConfigError Unit :=
  if c.maxDelayedAcks ≤ 0 then .error (.delayedAcksNotPositive c.maxDelayedAcks)
  else if 0 < c.sendWindow ∧ c.sendWindow ≤ c.maxDelayedAcks then
    .error (.delayedAcksFillWindow c.maxDelayedAcks c.sendWindow)
  else if c.queueCap = 0 then .error .queueCapZero
  else if c.maxFrameLength < Message.headerLength then .error (.frameBelowHeader c.maxFrameLength)
  else if maxPrefix < c.maxFrameLength then .error (.frameAbovePrefix c.maxFrameLength)
  else .ok ()

/-- How many messages may await their acknowledgement, if there is a bound. -/
def window (c : Config) : Option Nat :=
  if c.sendWindow ≤ 0 then none else some c.sendWindow.toNat

/-- The greatest length of a payload: what the header leaves of a frame. -/
def maxPayload (c : Config) : Nat := c.maxFrameLength - Message.headerLength

end Config

/-- The reason in words. -/
def ConfigError.message : ConfigError → String
  | delayedAcksNotPositive n => s!"max_delayed_acks must be positive, was {n}"
  | delayedAcksFillWindow n window =>
    s!"max_delayed_acks ({n}) must be smaller than send_window ({window})"
  | queueCapZero => "send_queue_cap must be positive"
  | frameBelowHeader n =>
    s!"max_frame_len ({n}) does not fit the protocol header of {Message.headerLength} bytes"
  | frameAbovePrefix n => s!"max_frame_len ({n}) exceeds the range of the u32 length prefix"

end Tether
