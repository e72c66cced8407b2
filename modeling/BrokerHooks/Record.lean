namespace BrokerHooks

inductive Datum where
  | null
  | flag (b : Bool)
  | number (n : Int)
  | text (s : String)
  | list (xs : List Datum)
  | record (fields : List (String × Datum))
deriving Repr, Inhabited

namespace Datum

def nat (n : Nat) : Datum := .number n

def option {α : Type} (f : α → Datum) : Option α → Datum
  | none => .null
  | some a => f a

def listOf {α : Type} (f : α → Datum) (xs : List α) : Datum := .list (xs.map f)

def hexDigits (b : UInt8) : List Char :=
  [Nat.digitChar (b.toNat / 16), Nat.digitChar (b.toNat % 16)]

def hex (bs : List UInt8) : Datum := .text (String.ofList (bs.flatMap hexDigits))

end Datum
end BrokerHooks
