import BrokerHooks.Broker.Chain

namespace BrokerHooks.Broker

/-- The first entry that satisfies `p`, and the list without it. -/
def takeFirst? {α : Type} (p : α → Bool) : List α → Option (α × List α)
  | [] => none
  | x :: xs =>
    if p x then some (x, xs)
    else (takeFirst? p xs).map fun (y, rest) => (y, x :: rest)

def isReady (b : Broker) (s : Suspended) : Bool :=
  (b.turn? s.turn).any fun t => !t.isPending b.now

def isFree (b : Broker) (lane : Nat × Point) : Bool := b.suspended.all (·.chain.lane ≠ lane)

def deadline? (b : Broker) (s : Suspended) : Option Nat := (b.turn? s.turn).bind Turn.deadline?

def nextSleeper? (b : Broker) : Option (Sleeper × List Sleeper) :=
  match (b.sleepers.map (·.due)).min? with
  | none => none
  | some due => takeFirst? (·.due = due) b.sleepers

def nextDeadline? (b : Broker) : Option Nat := (b.suspended.filterMap b.deadline?).min?

def nextDue? (b : Broker) : Option Nat :=
  (b.sleepers.map (·.due) ++ b.suspended.filterMap b.deadline?).min?

/-- A sleeper wakes up: the clock is moved to when it is due, and it does its work. -/
def runSleeper (b : Broker) (s : Sleeper) (rest : List Sleeper) : Broker :=
  (run s.site s.program { b with now := max b.now s.due, sleepers := rest }).2

/-- Moves the clock to the next due thing. A sleeper then does its work; a deadline only makes its
chain ready. Where both are due at one instant, the chain goes on first: it began to wait before the
work that its hook left behind did. -/
def advance? (b : Broker) : Option Broker :=
  match b.nextSleeper?, b.nextDeadline? with
  | none, none => none
  | none, some deadline => some { b with now := max b.now deadline }
  | some (s, rest), none => some (b.runSleeper s rest)
  | some (s, rest), some deadline =>
    if s.due < deadline then some (b.runSleeper s rest)
    else some { b with now := max b.now deadline }

def instant? (b : Broker) : Option Broker :=
  match takeFirst? b.isReady b.suspended with
  | some (s, rest) => some ({ b with suspended := rest }.wake s)
  | none =>
    match takeFirst? (fun c => b.isFree c.lane) b.waiting with
    | some (c, rest) => some ({ b with waiting := rest }.begin c)
    | none => none

/-- One step; `none` if nothing is left to do. -/
def tick (b : Broker) : Option Broker :=
  match b.instant? with
  | some b => some b.sweep
  | none => b.advance?.map sweep

/-- Steps until `finished` holds, nothing is left to do, or the fuel is spent. -/
def settle (finished : Broker → Bool) : Nat → Broker → Broker
  | 0, b => b
  | fuel + 1, b =>
    if finished b then b
    else
      match b.tick with
      | some b => settle finished fuel b
      | none => b

/-- Whether nothing more happens up to the time given. -/
def isQuietUntil (b : Broker) (time : Nat) : Bool :=
  b.instant?.isNone && b.nextDue?.all (time < ·)

def sleepUntil (time fuel : Nat) (b : Broker) : Broker :=
  let b := settle (·.isQuietUntil time) fuel b
  { b with now := max b.now time }

end BrokerHooks.Broker
