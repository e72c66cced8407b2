import BrokerHooks.Alias.Account

namespace BrokerHooks.Alias

inductive AliasError where
  | zero
  | tooLarge (number max : UInt16)
  | unmapped (number : UInt16)
  | hardLimitExceeded
  | absent
deriving DecidableEq, Repr

def AliasError.message : AliasError → String
  | .zero => "Topic alias must not be 0"
  | .tooLarge number max => s!"Topic alias {number} exceeds maximum of {max}"
  | .unmapped number => s!"Topic alias {number} is not mapped"
  | .hardLimitExceeded => "Topic alias memory limit exceeded"
  | .absent => "Topic name empty and no topic alias present"

/-- A finished table has settled its account; it still answers, but never settles again. -/
structure Table where
  slots : List (Option String)
  finished : Bool := false
deriving DecidableEq, Repr, Inhabited

namespace Table

def maximum (t : Table) : UInt16 := UInt16.ofNat t.slots.length

def get? (t : Table) (number : UInt16) : Option String :=
  if number = 0 then none else (t.slots[number.toNat - 1]?).join

def bind (t : Table) (number : UInt16) (topic : String) : Table :=
  { t with slots := t.slots.set (number.toNat - 1) (some topic) }

/-- Charges an account for the topic that takes the place of another. -/
def recharge (a : Account) (previous : Option String) (topic : String) : Account :=
  match previous with
  | some old => (a.releaseTopic old).chargeTopic topic
  | none => a.chargeTopic topic

/-- Without an alias a request stands for its topic, if it names one. -/
def resolveUnaliased (topic : String) : Except AliasError String :=
  if topic.isEmpty then .error .absent else .ok topic

/-- A topic with an alias is bound to it, even where the hard limit then refuses the request; an
empty topic is looked up. -/
def resolve (t : Table) (a : Account) (topic : String) :
    Option UInt16 → Except AliasError String × Account × Table
  | none => (resolveUnaliased topic, a, t)
  | some number =>
    if number = 0 then (.error .zero, a, t)
    else if t.maximum < number then (.error (.tooLarge number t.maximum), a, t)
    else if topic.isEmpty then
      match t.get? number with
      | some bound => (.ok bound, a, t)
      | none => (.error (.unmapped number), a, t)
    else
      let charged := recharge a (t.get? number) topic
      let answer := if charged.exceeded then .error .hardLimitExceeded else .ok topic
      (answer, charged, t.bind number topic)

def finish (t : Table) (a : Account) : Account × Table :=
  if t.finished then (a, t) else (a.releaseSlots t.slots, { t with finished := true })

/-- A table of the maximum asked for, unless that is zero or the soft limit is reached. -/
def grant? (a : Account) (maximum : UInt16) : Option (Account × Table) :=
  if maximum = 0 ∨ !a.available then none
  else some (a.chargeSlots maximum.toNat, { slots := List.replicate maximum.toNat none })

end Table

def resolveWithoutTable (topic : String) : Option UInt16 → Except AliasError String
  | some number => .error (.tooLarge number 0)
  | none => Table.resolveUnaliased topic

end BrokerHooks.Alias
