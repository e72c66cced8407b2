import BrokerHooks.Broker.Clock
import BrokerHooks.Config.Basic
import BrokerHooks.Delivery
import BrokerHooks.Metrics.Exposition
import BrokerHooks.Session.Script

namespace BrokerHooks

namespace Broker

/-- A broker that nothing has happened to yet. Its clock counts milliseconds, and a timeout that ends
between two of them is rounded up. -/
def ofConfig (c : Config) (metered : Bool) : Broker where
  limits := c.packetLimits
  maxTimeout := (c.extensions.maxAsyncTimeout + Duration.nanosPerMilli - 1) / Duration.nanosPerMilli
  metered
  roster := {
    aliases := {
      account := {
        softLimit := c.limits.topicAliasSoftLimit
        hardLimit := c.limits.topicAliasHardLimit } } }
  limiter := { limit := c.limits.serviceCallRate }

end Broker

/-- How a packet is handed over: to the chain of a point, for its report or its outcome alone, or as
the transport does it, at the point of its kind. -/
inductive Handover where
  | execute (point : Point)
  | runChain (point : Point)
  | send (inbound : Bool)
deriving DecidableEq, Repr

structure Arrival where
  connection : String
  packet : Packet
  handover : Handover
deriving DecidableEq, Repr

inductive Command where
  /-- An operation of extension code that needs no turn. -/
  | perform (op : Op)
  | call (value : Int)
  | calls (count : Nat)
  | openConnection (name clientId : String) (version : ProtocolVersion)
      (aliasMaximum : Option UInt16) (track : Bool)
  | drop (name : String)
  | untrack (clientId : String)
  | tracked (clientId : String)
  | state (name : String)
  | close (name : String) (reason : Option ReasonCode)
  | resolve (name topic : String) (number : Option UInt16)
  | aliasState
  | add (extension : String) (point : Point) (family : Family) (script : Script)
      (connection : Option String)
  | hooks (name : String) (point : Point) (family : Family)
  | hand (a : Arrival)
  | concurrently (as : List Arrival)
  | sleep (duration : Nat)
  | metrics
  | observeAliases
  | registerMetrics

structure ConnectionView where
  clientId : String
  version : ProtocolVersion
  closed : Bool
  closeReason : Option ReasonCode
  aliasMaximum : UInt16
deriving DecidableEq, Repr

inductive Answer where
  | ok
  | observed (o : Observation)
  | called (r : Except ServiceError Int)
  | verdicts (rs : List (Except ServiceError Unit))
  | aliasMaximum (maximum : UInt16)
  | connection (view : Option ConnectionView)
  | account (a : Alias.Account)
  | hooks (hs : List Ranked)
  | reported (r : Report) (time : Nat)
  | outcome (o : Outcome) (time : Nat)
  | delivered (d : Delivery) (time : Nat)
  | all (answers : List Answer)
  | time (now : Nat)
  | lines (text : List String)
  | metricsRegistered (r : Except Metrics.RegistrationError (List String))
  /-- The chain did not end. -/
  | unfinished
  /-- The command names a connection that there is not. -/
  | noConnection

structure Session where
  broker : Broker
  names : List (String × Nat) := []
  /-- How many actions the scripts hold that were added so far. -/
  actions : Nat := 0
  /-- How much of the journal earlier answers have told. -/
  told : Nat := 0

namespace Session

def ofConfig (c : Config) (metered : Bool) : Session := { broker := .ofConfig c metered }

def connection? (s : Session) (name : String) : Option Nat := s.names.lookup name

def view? (b : Broker) (c : Nat) : Option ConnectionView :=
  (b.roster.connection? c).map fun conn => {
    clientId := conn.clientId
    version := conn.version
    closed := conn.closed
    closeReason := conn.closeReason
    aliasMaximum := b.roster.aliasMaximum c }

def nowhere (b : Broker) : Site := { connection := b.roster.connections.length, turn := b.turns.length }

/-- Enough steps for all that can happen: a chain takes at most three per hook, and each sleeper and
each turn leaves behind at most as much work as all scripts hold actions. -/
def fuel (s : Session) : Nat :=
  let b := s.broker
  let turns := (b.waiting.length + b.suspended.length) * (b.roster.added + 1)
  3 * turns + (b.sleepers.length + turns) * (s.actions + 1) + 1

def isReported (c : Chain) (b : Broker) : Bool :=
  b.journal.any fun e =>
    match e.event with
    | .reported d _ => d.number = c.number
    | .misrouted d => d.number = c.number
    | _ => false

def report? (b : Broker) (c : Chain) : Option (Report × Nat) :=
  b.journal.findSome? fun e =>
    match e.event with
    | .reported d r => if d.number = c.number then some (r, e.time) else none
    | .misrouted d =>
      if d.number = c.number then some ({ outcome := .proceed d.supplied }, e.time) else none
    | _ => none

def Arrival.point (a : Arrival) : Point :=
  match a.handover with
  | .execute point | .runChain point => point
  | .send inbound => a.packet.point inbound

/-- Hands over the packet, if the connection exists. -/
def submit (s : Session) (a : Arrival) : Option Chain × Session :=
  match s.connection? a.connection with
  | none => (none, s)
  | some c =>
    let (chain, broker) := s.broker.submit c (Arrival.point a) a.packet
    (some chain, { s with broker })

def submitAll (s : Session) : List Arrival → List (Option Chain) × Session
  | [] => ([], s)
  | a :: rest =>
    let (chain, s) := s.submit a
    let (chains, s) := s.submitAll rest
    (chain :: chains, s)

def answerTo (b : Broker) (a : Arrival) : Option Chain → Answer
  | none => .noConnection
  | some c =>
    match report? b c with
    | none => .unfinished
    | some (r, time) =>
      match a.handover with
      | .execute _ => .reported r time
      | .runChain _ => .outcome r.outcome time
      | .send _ =>
        let clientId := ((b.roster.connection? c.connection).map (·.clientId)).getD ""
        .delivered (.ofReport clientId c.point r) time

def handAll (s : Session) (as : List Arrival) : List Answer × Session :=
  let (chains, s) := s.submitAll as
  let finished (b : Broker) : Bool := chains.all fun c => c.all (isReported · b)
  let broker := s.broker.settle finished s.fuel
  (List.zipWith (answerTo broker) as chains, { s with broker })

def onBroker (s : Session) (f : Broker → Answer × Broker) : Answer × Session :=
  let (answer, broker) := f s.broker
  (answer, { s with broker })

def withConnection (s : Session) (name : String) (f : Nat → Answer × Session) :
    Answer × Session :=
  match s.connection? name with
  | some c => f c
  | none => (.noConnection, s)

/-- Opens a connection and, where it is to be tracked, tracks it before the one that had its name is
dropped. -/
def openConnection (s : Session) (name clientId : String) (version : ProtocolVersion)
    (aliasMaximum : Option UInt16) (track : Bool) : Answer × Session :=
  let (c, roster) := s.broker.roster.openConnection clientId version aliasMaximum
  let roster := if track then roster.track c else roster
  let answer := Answer.aliasMaximum (roster.aliasMaximum c)
  let roster :=
    match s.connection? name with
    | some old => roster.letGo old
    | none => roster
  let broker := { s.broker with roster }.sweep
  (answer, { s with broker, names := (name, c) :: s.names.filter (·.1 ≠ name) })

def drop (s : Session) (name : String) : Answer × Session :=
  match s.connection? name with
  | none => (.observed (.flag false), s)
  | some c =>
    let broker := { s.broker with roster := s.broker.roster.letGo c }.sweep
    (.observed (.flag true), { s with broker, names := s.names.filter (·.1 ≠ name) })

def addHook (s : Session) (place : Roster.Place) (extension : String) (point : Point)
    (family : Family) (script : Script) : Answer × Session :=
  let (answer, roster) :=
    Broker.tryUpdate s.broker.roster
      (s.broker.roster.add place extension point family script.respond)
  (.observed (.registry answer),
    { s with broker := { s.broker with roster }, actions := s.actions + script.size })

def add (s : Session) (extension : String) (point : Point) (family : Family) (script : Script) :
    Option String → Answer × Session
  | none => s.addHook .shared extension point family script
  | some name => s.withConnection name fun c => s.addHook (.connection c) extension point family script

def observe (op : Op) (answer : op.Answer) : Answer :=
  match op.result default answer with
  | .value o => .observed o
  | _ => .ok

def step (s : Session) : Command → Answer × Session
  | .perform op =>
    s.onBroker fun b =>
      let (answer, b) := b.perform (nowhere b) op
      (observe op answer, b)
  | .call value => s.onBroker fun b =>
      let (r, b) := b.admitted fun b => (value, b)
      (.called r, b)
  | .calls count => s.onBroker fun b =>
      let (verdicts, b) := b.checkTimes count
      (.verdicts verdicts, b)
  | .openConnection name clientId version aliasMaximum track =>
    s.openConnection name clientId version aliasMaximum track
  | .drop name => s.drop name
  | .untrack clientId => s.onBroker fun b => (.ok, { b with roster := b.roster.untrack clientId })
  | .tracked clientId => s.onBroker fun b =>
      (.connection ((b.roster.tracked? clientId).bind (view? b)), b)
  | .state name => s.withConnection name fun c => (.connection (view? s.broker c), s)
  | .close name reason => s.withConnection name fun c => s.onBroker fun b =>
      let (closed, b) := b.onRoster (·.close c reason)
      (.observed (.flag closed), b)
  | .resolve name topic number => s.withConnection name fun c => s.onBroker fun b =>
      let (r, b) := b.onRoster (·.resolve c topic number)
      (.observed (.resolved r), b)
  | .aliasState => (.account s.broker.roster.aliases.account, s)
  | .add extension point family script connection =>
    s.add extension point family script connection
  | .hooks name point family => s.withConnection name fun c =>
      (.hooks (if point.family = family then s.broker.roster.ordered c point else []), s)
  | .hand a =>
    let (answers, s) := s.handAll [a]
    (answers.headD .unfinished, s)
  | .concurrently as =>
    let (answers, s) := s.handAll as
    (.all answers, s)
  | .sleep duration => s.onBroker fun b =>
      let b := b.sleepUntil (b.now + duration) s.fuel
      (.time b.now, b)
  | .metrics => (.lines s.broker.metrics.expose, s)
  | .observeAliases => s.onBroker fun b =>
      let a := b.roster.aliases.account
      (.ok, { b with metrics := b.metrics.observeAliases a.committed a.count })
  | .registerMetrics =>
    let names := s.broker.metrics.families.map (·.name)
    (.metricsRegistered (Metrics.registerNames names names), s)

/-- What was noted since the answer before, with the times. -/
def news (s : Session) : List (Nat × Note) :=
  (s.broker.journal.drop s.told).filterMap fun e =>
    match e.event with
    | .noted n => some (e.time, n)
    | _ => none

/-- The answers to a list of commands, each with what was noted meanwhile. -/
def run (s : Session) : List Command → List (Answer × List (Nat × Note))
  | [] => []
  | c :: rest =>
    let (answer, s) := s.step c
    (answer, s.news) :: run { s with told := s.broker.journal.length } rest

end Session
end BrokerHooks
