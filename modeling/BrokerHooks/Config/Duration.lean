namespace BrokerHooks.Duration

def nanosPerSecond : Nat := 1000000000

def nanosPerMilli : Nat := 1000000

def maxWord : Nat := UInt64.size - 1

def word? (n : Nat) : Option Nat := if n ≤ maxWord then some n else none

def isSpace (c : Char) : Bool :=
  let n := c.toNat
  (0x09 ≤ n && n ≤ 0x0D) || n = 0x20 || n = 0x85 || n = 0xA0 || n = 0x1680 ||
    (0x2000 ≤ n && n ≤ 0x200A) || n = 0x2028 || n = 0x2029 || n = 0x202F || n = 0x205F || n = 0x3000

def isUnitChar (c : Char) : Bool := c.isAlpha || c = 'µ'

def quotient? (n d : Nat) : Option Nat := if n % d = 0 then some (n / d) else none

/-- A unit counts nanoseconds or seconds. Fractions of a nanosecond do not exist; fractions of units
from the hour on must make up whole seconds, all others whole nanoseconds. -/
inductive Unit where
  | nanosecond
  | nanoseconds (count : Nat)
  | second
  | minute
  | seconds (count : Nat)
deriving DecidableEq, Repr

namespace Unit

def ofName? (name : String) : Option Unit :=
  if name ∈ ["nanos", "nsec", "ns"] then some .nanosecond
  else if name ∈ ["usec", "us", "µs"] then some (.nanoseconds 1000)
  else if name ∈ ["millis", "msec", "ms"] then some (.nanoseconds 1000000)
  else if name ∈ ["seconds", "second", "secs", "sec", "s"] then some .second
  else if name ∈ ["minutes", "minute", "min", "mins", "m"] then some .minute
  else if name ∈ ["hours", "hour", "hrs", "hr", "h"] then some (.seconds 3600)
  else if name ∈ ["days", "day", "d"] then some (.seconds 86400)
  else if name ∈ ["weeks", "week", "wks", "wk", "w"] then some (.seconds 604800)
  else if name ∈ ["months", "month", "M"] then some (.seconds 2630016)
  else if name ∈ ["years", "year", "yrs", "yr", "y"] then some (.seconds 31557600)
  else none

def whole? (u : Unit) (n : Nat) : Option (Nat × Nat) :=
  match u with
  | .nanosecond => some (0, n)
  | .nanoseconds count => do return (0, ← word? (n * count))
  | .second => some (n, 0)
  | .minute => do return (← word? (n * 60), 0)
  | .seconds count => do return (← word? (n * count), 0)

def part? (u : Unit) (numerator denominator : Nat) : Option (Nat × Nat) :=
  match u with
  | .nanosecond => none
  | .nanoseconds count => do return (0, ← quotient? (← word? (numerator * count)) denominator)
  | .second => do
    return (0, ← quotient? (← word? (numerator * nanosPerSecond)) denominator)
  | .minute => do
    return (0, ← quotient? (← word? (numerator * 60 * nanosPerSecond)) denominator)
  | .seconds count => do return (← quotient? (← word? (numerator * count)) denominator, 0)

end Unit

structure Fraction where
  numerator : Nat := 0
  denominator : Nat := 1
deriving DecidableEq, Repr

def readFraction (f : Fraction) : List Char → Option (Fraction × List Char)
  | [] => some (f, [])
  | c :: rest =>
    if c.isDigit then do
      let numerator ← word? (f.numerator * 10 + (c.toNat - 0x30))
      let denominator ← word? (f.denominator * 10)
      readFraction { numerator, denominator } rest
    else if isSpace c then readFraction f rest
    else if isUnitChar c then some (f, c :: rest)
    else none

/-- The rest of a number that begins with `n`, and its fraction if it has one, up to the unit. -/
def readNumber (n : Nat) : List Char → Option (Nat × Option Fraction × List Char)
  | [] => some (n, none, [])
  | c :: rest =>
    if c.isDigit then do readNumber (← word? (n * 10 + (c.toNat - 0x30))) rest
    else if isSpace c then readNumber n rest
    else if isUnitChar c then some (n, none, c :: rest)
    else if c = '.' then do
      let (f, rest) ← readFraction {} rest
      if f.denominator = 1 then none else some (n, some f, rest)
    else none

/-- What may follow a unit: the end, a digit or white space. -/
def readUnit (s : List Char) : Option (Unit × List Char) := do
  let u ← Unit.ofName? (String.ofList (s.takeWhile isUnitChar))
  match s.dropWhile isUnitChar with
  | [] => some (u, [])
  | c :: rest =>
    if c.isDigit then some (u, c :: rest) else if isSpace c then some (u, rest) else none

def add? (total : Nat) (part : Nat × Nat) : Option Nat := do
  let nanos ← word? (total % nanosPerSecond + part.2)
  let sum := (total / nanosPerSecond + part.1) * nanosPerSecond + nanos
  let _ ← word? (sum / nanosPerSecond)
  return sum

def addUnits? (total n : Nat) (f : Option Fraction) (u : Unit) : Option Nat := do
  let total ← add? total (← u.whole? n)
  match f with
  | none => some total
  | some f => add? total (← u.part? f.numerator f.denominator)

/-- The numbers and units of a text no longer than the fuel; `none` if the first thing in it is no
digit. -/
def readAll (total : Nat) : Nat → List Char → Option Nat
  | 0, _ => some total
  | fuel + 1, s =>
    match s.dropWhile isSpace with
    | [] => some total
    | c :: rest =>
      if c.isDigit then do
        let (n, f, rest) ← readNumber (c.toNat - 0x30) rest
        let (u, rest) ← readUnit rest
        readAll (← addUnits? total n f u) fuel rest
      else none

/-- The nanoseconds that a text stands for. Only zero needs no unit. -/
def ofText? (text : String) : Option Nat :=
  let s := text.toList
  if s = ['0'] then some 0
  else if s.all isSpace then none
  else readAll 0 (s.length + 1) s

end BrokerHooks.Duration
