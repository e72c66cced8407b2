import BrokerHooks.Alias.Table

namespace BrokerHooks.Alias

structure Ledger (κ : Type) where
  account : Account
  tables : List (κ × Table) := []

namespace Ledger

variable {κ : Type} [DecidableEq κ]

def table? (l : Ledger κ) (key : κ) : Option Table := l.tables.lookup key

def put (l : Ledger κ) (key : κ) (t : Table) : Ledger κ :=
  { l with tables := l.tables.map fun e => if e.1 = key then (key, t) else e }

def finish (l : Ledger κ) (key : κ) : Ledger κ :=
  match l.table? key with
  | none => l
  | some t =>
    let (account, t) := t.finish l.account
    { l with account }.put key t

def drop (l : Ledger κ) (key : κ) : Ledger κ :=
  match l.table? key with
  | none => l
  | some t => { account := (t.finish l.account).1, tables := l.tables.filter (·.1 ≠ key) }

/-- Whether a table is granted; it then takes the place of one under the same key, which is dropped
after the new one has been charged. -/
def grant (l : Ledger κ) (key : κ) (maximum : UInt16) : Bool × Ledger κ :=
  match Table.grant? l.account maximum with
  | none => (false, l)
  | some (account, t) =>
    let rest := { l with account }.drop key
    (true, { rest with tables := (key, t) :: rest.tables })

def resolve? (l : Ledger κ) (key : κ) (topic : String) (number : Option UInt16) :
    Option (Except AliasError String) × Ledger κ :=
  match l.table? key with
  | none => (none, l)
  | some t =>
    let (answer, account, t) := t.resolve l.account topic number
    (some answer, { l with account }.put key t)

end Ledger
end BrokerHooks.Alias
