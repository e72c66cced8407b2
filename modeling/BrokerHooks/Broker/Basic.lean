import BrokerHooks.Extension.Roster
import BrokerHooks.Metrics.Basic
import BrokerHooks.RateLimiter

namespace BrokerHooks

/-- A packet handed over at a point of a connection, and the number of its chain. -/
structure Chain where
  number : Nat
  connection : Nat
  point : Point
  supplied : Packet
deriving DecidableEq, Repr, Inhabited

/-- Chains of one lane run one after another. -/
def Chain.lane (c : Chain) : Nat × Point := (c.connection, c.point)

/-- A chain in the middle of a hook's turn: the packet the hook was handed, the turn, and the hooks
that are still to come. -/
structure Suspended where
  chain : Chain
  current : Packet
  extension : String
  turn : Nat
  rest : List Ranked

structure Site where
  connection : Nat
  turn : Nat
deriving DecidableEq, Repr, Inhabited

structure Sleeper where
  due : Nat
  site : Site
  program : Program

inductive Event where
  /-- The packet does not belong to the point, and goes on as it is. -/
  | misrouted (chain : Chain)
  /-- The chain's hooks have been looked up. -/
  | began (chain : Chain)
  | invoked (chain : Chain) (hook : Nat) (handed : Packet)
  | expired (chain : Chain) (fallback : Fallback)
  | denied
  | noted (n : Note)
  | reported (chain : Chain) (r : Report)

structure Entry where
  time : Nat
  event : Event

structure Broker where
  limits : PacketLimits
  maxTimeout : Nat
  /-- Whether chains and services feed the metrics. -/
  metered : Bool := true
  now : Nat := 0
  roster : Roster
  limiter : RateLimiter
  metrics : Metrics := {}
  turns : List Turn := []
  chains : Nat := 0
  waiting : List Chain := []
  suspended : List Suspended := []
  sleepers : List Sleeper := []
  journal : List Entry := []

namespace Broker

def record (b : Broker) (e : Event) : Broker :=
  { b with journal := b.journal ++ [{ time := b.now, event := e }] }

def meter (b : Broker) (f : Metrics → Metrics) : Broker :=
  if b.metered then { b with metrics := f b.metrics } else b

def turn? (b : Broker) (t : Nat) : Option Turn := b.turns[t]?

def setTurn (b : Broker) (i : Nat) (t : Turn) : Broker := { b with turns := b.turns.set i t }

/-- How often a hook has been invoked so far. -/
def invocations (b : Broker) (hook : Nat) : Nat :=
  b.journal.countP fun e =>
    match e.event with
    | .invoked _ h _ => h = hook
    | _ => false

def refersTo (b : Broker) (c : Nat) : Bool :=
  (b.roster.connection? c).any (·.held) || b.waiting.any (·.connection = c) ||
    b.suspended.any (·.chain.connection = c) || b.sleepers.any (·.site.connection = c)

/-- Releases the connections that nothing refers to. -/
def sweep (b : Broker) : Broker :=
  let abandoned := (List.range b.roster.connections.length).filter fun c =>
    !b.refersTo c && !b.roster.isReleased c
  { b with roster := abandoned.foldl Roster.release b.roster }

@[simp] theorem record_limits (b : Broker) (e : Event) : (b.record e).limits = b.limits := rfl

@[simp] theorem record_maxTimeout (b : Broker) (e : Event) : (b.record e).maxTimeout = b.maxTimeout := rfl

@[simp] theorem record_now (b : Broker) (e : Event) : (b.record e).now = b.now := rfl

@[simp] theorem record_roster (b : Broker) (e : Event) : (b.record e).roster = b.roster := rfl

@[simp] theorem record_turns (b : Broker) (e : Event) : (b.record e).turns = b.turns := rfl

@[simp] theorem record_chains (b : Broker) (e : Event) : (b.record e).chains = b.chains := rfl

@[simp] theorem record_waiting (b : Broker) (e : Event) : (b.record e).waiting = b.waiting := rfl

@[simp] theorem record_suspended (b : Broker) (e : Event) : (b.record e).suspended = b.suspended := rfl

@[simp] theorem record_sleepers (b : Broker) (e : Event) : (b.record e).sleepers = b.sleepers := rfl

@[simp] theorem record_journal (b : Broker) (e : Event) :
    (b.record e).journal = b.journal ++ [{ time := b.now, event := e }] := rfl

@[simp] theorem meter_limits (b : Broker) (f : Metrics → Metrics) :
    (b.meter f).limits = b.limits := by
  unfold meter
  split <;> rfl

@[simp] theorem meter_maxTimeout (b : Broker) (f : Metrics → Metrics) :
    (b.meter f).maxTimeout = b.maxTimeout := by
  unfold meter
  split <;> rfl

@[simp] theorem meter_now (b : Broker) (f : Metrics → Metrics) :
    (b.meter f).now = b.now := by
  unfold meter
  split <;> rfl

@[simp] theorem meter_roster (b : Broker) (f : Metrics → Metrics) :
    (b.meter f).roster = b.roster := by
  unfold meter
  split <;> rfl

@[simp] theorem meter_turns (b : Broker) (f : Metrics → Metrics) :
    (b.meter f).turns = b.turns := by
  unfold meter
  split <;> rfl

@[simp] theorem meter_chains (b : Broker) (f : Metrics → Metrics) :
    (b.meter f).chains = b.chains := by
  unfold meter
  split <;> rfl

@[simp] theorem meter_waiting (b : Broker) (f : Metrics → Metrics) :
    (b.meter f).waiting = b.waiting := by
  unfold meter
  split <;> rfl

@[simp] theorem meter_suspended (b : Broker) (f : Metrics → Metrics) :
    (b.meter f).suspended = b.suspended := by
  unfold meter
  split <;> rfl

@[simp] theorem meter_sleepers (b : Broker) (f : Metrics → Metrics) :
    (b.meter f).sleepers = b.sleepers := by
  unfold meter
  split <;> rfl

@[simp] theorem meter_journal (b : Broker) (f : Metrics → Metrics) :
    (b.meter f).journal = b.journal := by
  unfold meter
  split <;> rfl

end Broker
end BrokerHooks
