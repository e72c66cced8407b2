import BrokerHooks.Extension.Program

namespace BrokerHooks

/-- An action goes by the label it was written down with. One that `catches` notes its error and lets
the script go on; otherwise the error ends the script. -/
inductive Action where
  | act (label : String) (op : Op) (catches : Bool)
  | fail (label message : String) (catches : Bool)
  | crash (message : Option String)
  | spawn (delay : Nat) (actions : List Action)

/-- What an operation's answer is to a script: an error, a value worth noting, or neither. -/
inductive Result where
  | silent
  | value (o : Observation)
  | error (e : ExtensionError)

/-- The answer to a call that is no news: a change that was made, or a text that reads like one or is
missing. -/
def Reply.isSilent : Reply → Bool
  | .done => true
  | .text value => value.all (· = "ok")
  | _ => false

/-- Operations on the turn are noted only where they yield a value, all others always. -/
def Op.result (input : Input) : (op : Op) → op.Answer → Result
  | .call _, .ok r => if r.isSilent then .silent else .value (.reply r)
  | .call _, .error e => .error (.packet e)
  | .defer _ _, .ok () | .prevent, .ok () => .silent
  | .defer _ _, .error e | .prevent, .error e => .error (.illegalUse e)
  | .resume, () | .note _, () => .silent
  | .view, t => .value (.turn input t)
  | .close _, b | .isEnabled _, b => .value (.flag b)
  | .resolve _ _, r => .value (.resolved r)
  | .register _ _, r | .remove _, r | .enable _, r | .disable _, r => .value (.registry r)
  | .check, r => .value (.service r)
  | .isConnected _, r | .disconnectClient _ _, r => .value (.serviceFlag r)

def Program.noting (n : Note) (rest : Program) : Program := .perform (.note n) fun _ => rest

def Result.andThen (name label : String) (catches : Bool) (rest : Program) : Result → Program
  | .silent => rest
  | .value o => .noting (.result name label o) rest
  | .error e => if catches then .noting (.caught name label e) rest else .fail e

mutual

/-- The action of the hook `name`, then `rest`. In work left behind for later every action catches. -/
def Action.program (name : String) (input : Input) (later : Bool) :
    Action → Program → Program
  | .act label op catches, rest =>
    .perform op fun answer => (op.result input answer).andThen name label (catches || later) rest
  | .fail label message catches, rest =>
    Result.andThen name label (catches || later) rest (.error (.other message))
  | .crash message, _ => .crash message
  | .spawn delay actions, rest => .spawn delay (actionsProgram name input true actions) rest

def actionsProgram (name : String) (input : Input) (later : Bool) : List Action → Program
  | [] => .done
  | a :: rest => a.program name input later (actionsProgram name input later rest)

end

mutual

def Action.size : Action → Nat
  | .spawn _ actions => actionsSize actions + 1
  | _ => 1

def actionsSize : List Action → Nat
  | [] => 0
  | a :: rest => a.size + actionsSize rest

end

/-- A named hook with one list of actions for each invocation; the last list serves for all later
ones, and a hook without a list does nothing. -/
structure Script where
  name : String
  lists : List (List Action)

namespace Script

def actions (s : Script) (n : Nat) : List Action := s.lists[n]?.getD (s.lists.getLast?.getD [])

def respond (s : Script) (n : Nat) (input : Input) : Program :=
  .noting (.called s.name) (actionsProgram s.name input false (s.actions n))

def size (s : Script) : Nat := s.lists.foldr (actionsSize · + ·) 0

end Script
end BrokerHooks
