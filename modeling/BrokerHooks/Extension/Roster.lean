import BrokerHooks.Alias.Ledger
import BrokerHooks.Extension.Program

namespace BrokerHooks

structure Extension where
  id : String
  priority : Int
  enabled : Bool := true
deriving DecidableEq, Repr, Inhabited

/-- The transport holds a connection from its opening until it drops it. Once nothing refers to the
connection any more it is released. -/
structure Connection where
  clientId : String
  version : ProtocolVersion
  hooks : List Hook := []
  closed : Bool := false
  closeReason : Option ReasonCode := none
  held : Bool := true
  released : Bool := false

structure Roster where
  extensions : List Extension := []
  shared : List Hook := []
  connections : List Connection := []
  /-- Which connection each tracked client identifier stands for. -/
  tracked : List (String × Nat) := []
  /-- How many hooks have been added so far. -/
  added : Nat := 0
  aliases : Alias.Ledger Nat

structure Ranked where
  priority : Int
  hook : Hook

/-- Higher priorities run first; hooks of one priority run in the order in which they were added. -/
def Ranked.precedes (a b : Ranked) : Bool :=
  b.priority < a.priority || (a.priority = b.priority && a.hook.number ≤ b.hook.number)

namespace Roster

def extension? (r : Roster) (id : String) : Option Extension := r.extensions.find? (·.id = id)

def isRegistered (r : Roster) (id : String) : Bool := (r.extension? id).isSome

def isEnabled (r : Roster) (id : String) : Bool := (r.extension? id).any (·.enabled)

def connection? (r : Roster) (c : Nat) : Option Connection := r.connections[c]?

def modifyConnection (r : Roster) (c : Nat) (f : Connection → Connection) : Roster :=
  { r with connections := r.connections.modify c f }

def openConnection (r : Roster) (clientId : String) (version : ProtocolVersion)
    (aliasMaximum : Option UInt16) : Nat × Roster :=
  let c := r.connections.length
  let aliases :=
    match aliasMaximum with
    | some maximum => (r.aliases.grant c maximum).2
    | none => r.aliases
  (c, { r with connections := r.connections ++ [{ clientId, version }], aliases })

def track (r : Roster) (c : Nat) : Roster :=
  match r.connection? c with
  | none => r
  | some conn =>
    { r with tracked := (conn.clientId, c) :: r.tracked.filter (·.1 ≠ conn.clientId) }

def untrack (r : Roster) (clientId : String) : Roster :=
  { r with tracked := r.tracked.filter (·.1 ≠ clientId) }

def isReleased (r : Roster) (c : Nat) : Bool := (r.connection? c).all (·.released)

def isClosed (r : Roster) (c : Nat) : Bool := (r.connection? c).all (·.closed)

/-- The connection tracked under a client identifier, while anything refers to it. -/
def tracked? (r : Roster) (clientId : String) : Option Nat :=
  (r.tracked.lookup clientId).filter (!r.isReleased ·)

/-- Closes a connection for the reason given and gives back its aliases. Only the first close
counts, and only it answers `true`. -/
def close (r : Roster) (c : Nat) (reason : Option ReasonCode) : Bool × Roster :=
  if r.isClosed c then (false, r)
  else
    let r := r.modifyConnection c fun conn => { conn with closed := true, closeReason := reason }
    (true, { r with aliases := r.aliases.drop c })

def aliasMaximum (r : Roster) (c : Nat) : UInt16 :=
  ((r.aliases.table? c).map (·.maximum)).getD 0

def resolve (r : Roster) (c : Nat) (topic : String) (number : Option UInt16) :
    Except Alias.AliasError String × Roster :=
  match r.aliases.resolve? c topic number with
  | (some answer, aliases) => (answer, { r with aliases })
  | (none, _) => (Alias.resolveWithoutTable topic number, r)

def letGo (r : Roster) (c : Nat) : Roster :=
  r.modifyConnection c fun conn => { conn with held := false }

def release (r : Roster) (c : Nat) : Roster :=
  let r := r.modifyConnection c fun conn => { conn with released := true }
  { r with aliases := r.aliases.drop c }

def register (r : Roster) (id : String) (priority : Int) : Except RegistryError Roster :=
  if r.isRegistered id then .error (.duplicateExtension id)
  else .ok { r with extensions := r.extensions ++ [{ id, priority }] }

def isTracked (r : Roster) (c : Nat) : Bool :=
  r.tracked.any (·.2 = c) && !r.isReleased c

/-- Discards the hooks of an extension on all tracked connections. -/
def purge (r : Roster) (id : String) : Roster :=
  let connections := r.connections.mapIdx fun c conn =>
    if r.isTracked c then { conn with hooks := conn.hooks.filter (·.extension ≠ id) } else conn
  { r with connections }

def remove (r : Roster) (id : String) : Except RegistryError Roster :=
  if r.isRegistered id then
    let extensions := r.extensions.filter (·.id ≠ id)
    let shared := r.shared.filter (·.extension ≠ id)
    .ok ({ r with extensions, shared }.purge id)
  else .error (.unknownExtension id)

def setEnabled (r : Roster) (id : String) (enabled : Bool) : Except RegistryError Roster :=
  if r.isRegistered id then
    let extensions := r.extensions.map fun e => if e.id = id then { e with enabled } else e
    .ok { r with extensions }
  else .error (.unknownExtension id)

def enable (r : Roster) (id : String) : Except RegistryError Roster := r.setEnabled id true

def disable (r : Roster) (id : String) : Except RegistryError Roster :=
  (r.setEnabled id false).map (·.purge id)

inductive Place where
  | shared
  | connection (c : Nat)
deriving DecidableEq, Repr

/-- Adds a hook that reads packets of a family; refused additions use up no number. -/
def add (r : Roster) (place : Place) (id : String) (point : Point) (family : Family)
    (respond : Nat → Input → Program) : Except RegistryError Roster :=
  if point.family ≠ family then .error (.unsupportedPoint point family)
  else if !r.isRegistered id then .error (.unknownExtension id)
  else
    let hook : Hook := { extension := id, point, number := r.added, family, respond }
    let r := { r with added := r.added + 1 }
    match place with
    | .shared => .ok { r with shared := r.shared ++ [hook] }
    | .connection c =>
      .ok (r.modifyConnection c fun conn => { conn with hooks := conn.hooks ++ [hook] })

def hooksAt (r : Roster) (c : Nat) (point : Point) : List Hook :=
  (r.shared ++ ((r.connection? c).map (·.hooks)).getD []).filter (·.point = point)

/-- A hook has a rank if its extension is registered and it reads the packets of its point. -/
def rank? (r : Roster) (h : Hook) : Option Ranked :=
  (r.extension? h.extension).bind fun e =>
    if h.family = h.point.family then some { priority := e.priority, hook := h } else none

/-- The hooks a chain at the point runs through, in the order of their turns. Disabled extensions
are not left out here: whether an extension is enabled is asked when its turn comes. -/
def ordered (r : Roster) (c : Nat) (point : Point) : List Ranked :=
  ((r.hooksAt c point).filterMap r.rank?).mergeSort Ranked.precedes

end Roster
end BrokerHooks
