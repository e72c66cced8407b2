import BrokerHooks.Extension.Error
import BrokerHooks.Point

namespace BrokerHooks

inductive Outcome where
  | proceed (p : Packet)
  | drop
  | closeConnection
  | failureAck (code : ReasonCode)
deriving DecidableEq, Repr, Inhabited

def Outcome.label : Outcome → String
  | .proceed _ => "proceed"
  | .drop => "drop"
  | .closeConnection => "close_connection"
  | .failureAck _ => "failure_ack"

inductive Cause where
  | error (e : ExtensionError)
  | panic (message : String)
  | timeout
  | prevented
deriving DecidableEq, Repr

namespace Cause

def message : Cause → String
  | .error e => "error: " ++ e.message
  | .panic message => "panic: " ++ message
  | .timeout => "async timeout"
  | .prevented => "prevented"

/-- The cause lies in the extension's code: it ended with an error or broke off. -/
def isExtensionError : Cause → Bool
  | .error _ | .panic _ => true
  | .timeout | .prevented => false

/-- A prevented packet has a reaction of its own where the point knows one. -/
def reaction (c : Cause) (point : Point) : Reaction :=
  match c with
  | .prevented => point.preventReaction?.getD point.failureReaction
  | _ => point.failureReaction

end Cause

/-- `supplied` is the packet the transport handed over, `lastGood` the one the failing hook saw. -/
structure Failure where
  extension : String
  cause : Cause
  supplied : Packet
  lastGood : Packet
deriving DecidableEq, Repr

structure Report where
  outcome : Outcome
  failure : Option Failure := none
deriving DecidableEq, Repr

namespace Reaction

def outcome (r : Reaction) (supplied : Packet) : Outcome :=
  match r with
  | .closeConnection => .closeConnection
  | .forwardUnmodified => .proceed supplied
  | .failureAck code => .failureAck code

end Reaction

namespace Failure

def report (f : Failure) (point : Point) : Report where
  outcome := (f.cause.reaction point).outcome f.supplied
  failure := some f

end Failure

def Report.onConnection (r : Report) (closed : Bool) : Report :=
  if closed then { r with outcome := .drop } else r

@[simp] theorem Report.onConnection_failure (r : Report) (closed : Bool) :
    (r.onConnection closed).failure = r.failure := by
  unfold onConnection
  split <;> rfl

theorem Report.onConnection_outcome (r : Report) (closed : Bool) :
    (r.onConnection closed).outcome = if closed then .drop else r.outcome := by
  unfold onConnection
  split <;> rfl

end BrokerHooks
