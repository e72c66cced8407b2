import BrokerHooks.Broker.Basic

namespace BrokerHooks.Broker

/-- An operation on the turn at a site; where there is no such turn, `default` answers. -/
def onTurn {α : Type} (b : Broker) (s : Site) (default : α) (f : Turn → α × Turn) : α × Broker :=
  match b.turn? s.turn with
  | none => (default, b)
  | some t =>
    let (answer, t) := f t
    (answer, b.setTurn s.turn t)

def onRoster {α : Type} (b : Broker) (f : Roster → α × Roster) : α × Broker :=
  let (answer, roster) := f b.roster
  (answer, { b with roster })

/-- Keeps the new state of an update that succeeds, and the old state otherwise. -/
def tryUpdate {ε σ : Type} (old : σ) : Except ε σ → Except ε Unit × σ
  | .ok new => (.ok (), new)
  | .error e => (.error e, old)

def check (b : Broker) : Except ServiceError Unit × Broker :=
  let (denied, limiter) := b.limiter.exceeded b.now
  let b := { b with limiter }
  if denied then
    (.error .rateLimitExceeded, (b.meter Metrics.serviceDenied).record .denied)
  else (.ok (), b)

def checkTimes : Nat → Broker → List (Except ServiceError Unit) × Broker
  | 0, b => ([], b)
  | n + 1, b =>
    let (verdict, b) := b.check
    let (rest, b) := checkTimes n b
    (verdict :: rest, b)

def admitted {α : Type} (b : Broker) (f : Broker → α × Broker) :
    Except ServiceError α × Broker :=
  match b.check with
  | (.error e, b) => (.error e, b)
  | (.ok (), b) =>
    let (answer, b) := f b
    (.ok answer, b)

def isConnected (b : Broker) (clientId : String) : Except ServiceError Bool × Broker :=
  b.admitted fun b => ((b.roster.tracked? clientId).any (!b.roster.isClosed ·), b)

/-- Closes the client's connection for a reason that a server may give; the answer says whether
this closed it. An unsuitable reason is refused before the call is counted. -/
def disconnectClient (b : Broker) (clientId : String) (reason : Option ReasonCode) :
    Except ServiceError Bool × Broker :=
  match reason.filter (!·.inServerDisconnect) with
  | some code => (.error (.invalidReasonCode code), b)
  | none =>
    b.admitted fun b =>
      match b.roster.tracked? clientId with
      | none => (false, b)
      | some c => b.onRoster (·.close c reason)

def perform (b : Broker) (s : Site) : (op : Op) → op.Answer × Broker
  | .call c =>
    b.onTurn s (.ok .done) fun t =>
      let (answer, draft) := t.draft.call c
      (answer, { t with draft })
  | .defer timeout fallback =>
    b.onTurn s (.ok ()) fun t => tryUpdate t (t.defer b.now timeout fallback)
  | .resume => b.onTurn s () fun t => ((), t.resume)
  | .prevent => b.onTurn s (.ok ()) fun t => tryUpdate t t.prevent
  | .view => b.onTurn s default fun t => (t, t)
  | .close reason => b.onRoster (·.close s.connection reason)
  | .resolve topic number => b.onRoster (·.resolve s.connection topic number)
  | .register id priority => b.onRoster fun r => tryUpdate r (r.register id priority)
  | .remove id => b.onRoster fun r => tryUpdate r (r.remove id)
  | .enable id => b.onRoster fun r => tryUpdate r (r.enable id)
  | .disable id => b.onRoster fun r => tryUpdate r (r.disable id)
  | .isEnabled id => (b.roster.isEnabled id, b)
  | .check => b.check
  | .isConnected clientId => b.isConnected clientId
  | .disconnectClient clientId reason => b.disconnectClient clientId reason
  | .note n => ((), b.record (.noted n))

def unknownPanic : String := "unknown panic"

/-- Runs a program to its end and answers why it failed, if it did. -/
def run (s : Site) : Program → Broker → Option Cause × Broker
  | .done, b => (none, b)
  | .fail e, b => (some (.error e), b)
  | .crash message, b => (some (.panic (message.getD unknownPanic)), b)
  | .perform op next, b =>
    let (answer, b) := b.perform s op
    run s (next answer) b
  | .spawn delay task next, b =>
    let sleeper : Sleeper := { due := b.now + delay, site := s, program := task }
    run s next { b with sleepers := b.sleepers ++ [sleeper] }

end BrokerHooks.Broker
