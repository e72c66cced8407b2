import BrokerHooks.Config.Duration
import BrokerHooks.Config.Setting
import BrokerHooks.Toml.Number

namespace BrokerHooks.Setting

def readInteger? (s : List Char) : Option Int :=
  let (negative, digits) :=
    match s with
    | '-' :: rest => (true, rest)
    | '+' :: rest => (false, rest)
    | s => (false, s)
  if digits = [] ∨ !digits.all Char.isDigit then none
  else
    let n : Int := Toml.digitsValue 10 digits
    some (if negative then -n else n)

/-- A natural number of at most 64 bits, written without a minus. -/
def readNatural? (s : List Char) : Option Nat :=
  if s.head? = some '-' then none
  else (readInteger? s).bind fun n => Duration.word? n.toNat

def lower (s : String) : List Char := s.toList.map Char.toLower

def exponentOf? : List Char → Option Int
  | [] => some 0
  | c :: rest => if c = 'e' ∨ c = 'E' then readInteger? rest else none

/-- A decimal number with at least one digit, where a point may stand anywhere between them. -/
def readDecimal? (negative : Bool) (s : List Char) : Option Float := do
  let whole := s.takeWhile Char.isDigit
  let (fraction, rest) :=
    match s.dropWhile Char.isDigit with
    | '.' :: rest => (rest.takeWhile Char.isDigit, rest.dropWhile Char.isDigit)
    | rest => ([], rest)
  if whole = [] ∧ fraction = [] then none
  else
    let exponent ← exponentOf? rest
    return Toml.nearestFloat negative (Toml.digitsValue 10 (whole ++ fraction))
      (exponent - fraction.length)

/-- A number for a double; infinities and the value that is no number go by their names. -/
def readFloat? (s : List Char) : Option Float :=
  let (negative, body) :=
    match s with
    | '-' :: rest => (true, rest)
    | '+' :: rest => (false, rest)
    | s => (false, s)
  let named (x : Float) : Option Float := some (if negative then -x else x)
  let word := body.map Char.toLower
  if word = "inf".toList ∨ word = "infinity".toList then named (1 / 0)
  else if word = "nan".toList then named (0 / 0)
  else readDecimal? negative body

/-- A setting from a text: a flag, an integer, a number, or else the text itself. -/
def ofText (s : String) : Setting :=
  if lower s = "true".toList then .flag true
  else if lower s = "false".toList then .flag false
  else
    match (readInteger? s.toList).bind int64? with
    | some n => .integer n
    | none =>
      match readFloat? s.toList with
      | some x => .float x
      | none => .text s

def word? (s : String) : Option Bool :=
  if lower s ∈ ["true".toList, "on".toList, "yes".toList] then some true
  else if lower s ∈ ["false".toList, "off".toList, "no".toList] then some false
  else none

/-- Doubles are rounded to the nearest integer, halves away from zero, and kept within 64 bits. -/
def int? : Setting → Option Int
  | .integer n => some n
  | .flag b => some (if b then 1 else 0)
  | .float x => some x.round.toInt64.toInt
  | .text s =>
    match word? s with
    | some b => some (if b then 1 else 0)
    | none => (readInteger? s.toList).bind int64?
  | _ => none

def nat64? : Setting → Option Nat
  | .integer n => if 0 ≤ n then some n.toNat else none
  | .flag b => some (if b then 1 else 0)
  | .float x => some x.round.toUInt64.toNat
  | .text s =>
    match word? s with
    | some b => some (if b then 1 else 0)
    | none => readNatural? s.toList
  | _ => none

def nat? (bound : Nat) (s : Setting) : Option Nat := s.nat64?.filter (· < bound)

def flag? : Setting → Option Bool
  | .flag b => some b
  | .integer n => some (n ≠ 0)
  | .float x => some (x != 0)
  | .text s =>
    if s = "1" then some true
    else if s = "0" then some false
    else word? s
  | _ => none

/-- Numbers stand for durations as their texts do, and of those only zero needs no unit. -/
def duration? : Setting → Option Nat
  | .text s => Duration.ofText? s
  | .integer 0 => some 0
  | .float x => if x.toBits = 0 then some 0 else none
  | _ => none

end BrokerHooks.Setting
