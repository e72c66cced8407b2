import BrokerHooks.Broker.Perform

namespace BrokerHooks.Broker

inductive Standing where
  | pending
  | failed (cause : Cause)
  | passed (p : Packet)
deriving DecidableEq, Repr

/-- What a completed turn leads to: time-outs fail by their fallback, and a prevented packet fails
what has not failed already. -/
def standingOf (t : Turn) : Completion → Standing
  | .timedOut .failure => .failed .timeout
  | _ => if t.prevented then .failed .prevented else .passed t.draft.packet

/-- Looks at a turn of the chain, and counts it where its time is found to be up. -/
def standing (b : Broker) (c : Chain) (turn : Nat) : Standing × Broker :=
  match b.turn? turn with
  | none => (.pending, b)
  | some t =>
    let (completion, t) := t.poll b.now
    let b := b.setTurn turn t
    match completion with
    | none => (.pending, b)
    | some completion =>
      let b :=
        match completion with
        | .timedOut fallback =>
          (b.meter (·.timedOut fallback)).record (.expired c fallback)
        | _ => b
      (standingOf t completion, b)

/-- Ends a chain; nothing is sent on a connection that is closed by now. -/
def report (b : Broker) (c : Chain) (r : Report) : Broker :=
  let r := r.onConnection (b.roster.isClosed c.connection)
  (b.meter (·.chainCompleted c.point r.outcome)).record (.reported c r)

def reportFailure (b : Broker) (c : Chain) (current : Packet) (extension : String)
    (cause : Cause) : Broker :=
  let failure : Failure := { extension, cause, supplied := c.supplied, lastGood := current }
  b.report c (failure.report c.point)

/-- Suspends the chain while the turn is pending, ends it where the turn failed, and goes on with the
turn's packet otherwise. -/
def follow (b : Broker) (s : Suspended) (next : Packet → Broker → Broker) : Broker :=
  match b.standing s.chain s.turn with
  | (.pending, b) => { b with suspended := b.suspended ++ [s] }
  | (.failed cause, b) => b.reportFailure s.chain s.current s.extension cause
  | (.passed p, b) => next p b

def input (b : Broker) (c : Chain) (p : Packet) : Input :=
  match b.roster.connection? c.connection with
  | some conn => { clientId := conn.clientId, version := conn.version, packet := p }
  | none => { clientId := "", version := default, packet := p }

/-- Gives a hook its turn with the packet, and answers the turn and why the hook failed, if it did. -/
def invoke (b : Broker) (c : Chain) (h : Hook) (p : Packet) : Nat × Option Cause × Broker :=
  let turn := b.turns.length
  let program := h.respond (b.invocations h.number) (b.input c p)
  let fresh := Turn.fresh c.point b.limits b.maxTimeout p
  let b := { b with turns := b.turns ++ [fresh] }.record (.invoked c h.number p)
  (turn, run { connection := c.connection, turn } program b)

/-- Runs the hooks that are left. A hook whose extension is not enabled when its turn comes is passed
over; one that ends with an error fails at once, whatever it asked for before. -/
def proceed (c : Chain) : List Ranked → Packet → Broker → Broker
  | [], p, b => b.report c { outcome := .proceed p }
  | r :: rest, p, b =>
    if b.roster.isEnabled r.hook.extension then
      match b.invoke c r.hook p with
      | (_, some cause, b) =>
        (b.meter (·.extensionError c.point)).reportFailure c p r.hook.extension cause
      | (turn, none, b) =>
        b.follow { chain := c, current := p, extension := r.hook.extension, turn, rest }
          (proceed c rest)
    else proceed c rest p b

def begin (b : Broker) (c : Chain) : Broker :=
  let hooks := b.roster.ordered c.connection c.point
  proceed c hooks c.supplied (b.record (.began c))

def wake (b : Broker) (s : Suspended) : Broker :=
  b.follow s (proceed s.chain s.rest)

/-- Hands over a packet at a point. A packet that does not belong there goes on untouched; any other
queues up in its lane. -/
def submit (b : Broker) (connection : Nat) (point : Point) (p : Packet) : Chain × Broker :=
  let c : Chain := { number := b.chains, connection, point, supplied := p }
  let b := { b with chains := b.chains + 1 }
  if p.belongsTo point then (c, { b with waiting := b.waiting ++ [c] })
  else (c, b.record (.misrouted c))

@[simp] theorem report_limits (b : Broker) (c : Chain) (r : Report) :
    (b.report c r).limits = b.limits := by
  simp [report]

@[simp] theorem report_maxTimeout (b : Broker) (c : Chain) (r : Report) :
    (b.report c r).maxTimeout = b.maxTimeout := by
  simp [report]

@[simp] theorem report_now (b : Broker) (c : Chain) (r : Report) :
    (b.report c r).now = b.now := by
  simp [report]

@[simp] theorem report_roster (b : Broker) (c : Chain) (r : Report) :
    (b.report c r).roster = b.roster := by
  simp [report]

@[simp] theorem report_turns (b : Broker) (c : Chain) (r : Report) :
    (b.report c r).turns = b.turns := by
  simp [report]

@[simp] theorem report_chains (b : Broker) (c : Chain) (r : Report) :
    (b.report c r).chains = b.chains := by
  simp [report]

@[simp] theorem report_waiting (b : Broker) (c : Chain) (r : Report) :
    (b.report c r).waiting = b.waiting := by
  simp [report]

@[simp] theorem report_suspended (b : Broker) (c : Chain) (r : Report) :
    (b.report c r).suspended = b.suspended := by
  simp [report]

@[simp] theorem report_sleepers (b : Broker) (c : Chain) (r : Report) :
    (b.report c r).sleepers = b.sleepers := by
  simp [report]

@[simp] theorem report_journal (b : Broker) (c : Chain) (r : Report) :
    (b.report c r).journal = b.journal ++
      [{ time := b.now, event := .reported c (r.onConnection (b.roster.isClosed c.connection)) }] := by
  simp [report]

end BrokerHooks.Broker
