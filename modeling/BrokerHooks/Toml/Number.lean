import BrokerHooks.Toml.Dialect
import BrokerHooks.Toml.Scanner
import BrokerHooks.Toml.Value

namespace BrokerHooks.Toml

open Scanner

def grouped (p : Char → Bool) : Scanner (List Char) := do
  let first ← satisfy p
  let more ← many (satisfy p <|> (char '_' *> satisfy p))
  pure (first :: more)

def sign : Scanner Bool := do
  match ← optional (satisfy fun c => c = '+' || c = '-') with
  | some c => pure (c = '-')
  | none => pure false

/-- Digits without a needless zero in front. -/
def plainDigits : Scanner (List Char) :=
  (do
    let c ← peek?
    guard (c ≠ some '0')
    grouped isDigit) <|> (do char '0'; pure ['0'])

/-- The double nearest to `digits · 10 ^ exponent`. -/
def nearestFloat (negative : Bool) (digits : Nat) (exponent : Int) : Float :=
  let x : Float :=
    if digits = 0 then 0
    else if exponent < 0 then
      if exponent + digits.log2 < -1200 then 0 else Float.ofScientific digits true exponent.natAbs
    else if 400 < exponent then 1 / 0
    else Float.ofScientific digits false exponent.natAbs
  if negative then -x else x

def exponentPart : Scanner Int := do
  let _ ← satisfy fun c => c = 'e' || c = 'E'
  let negative ← sign
  let n := digitsValue 10 (← grouped isDigit)
  pure (if negative then -n else n)

def fractionPart : Scanner (List Char) := char '.' *> grouped isDigit

/-- A number too large for a double is refused. -/
def decimalFloat (d : Dialect) : Scanner Float := do
  let negative ← sign
  let whole ← plainDigits
  let fraction ← optional fractionPart
  let exponent ← optional exponentPart
  guard (fraction.isSome || exponent.isSome)
  let fraction := fraction.getD []
  let x := nearestFloat negative (digitsValue 10 (whole ++ fraction))
    (exponent.getD 0 - fraction.length)
  guard !(x.isInf && (!negative || d.boundedBelow))
  pure x

def specialFloat : Scanner Float := do
  let negative ← sign
  let x : Float ← (do text "inf"; pure (1 / 0)) <|> (do text "nan"; pure (0 / 0))
  pure (if negative then -x else x)

def prefixedInteger : Scanner Int :=
  (do text "0x"; return digitsValue 16 (← grouped isHexDigit)) <|>
  (do text "0o"; return digitsValue 8 (← grouped fun c => '0' ≤ c && c ≤ '7')) <|>
  (do text "0b"; return digitsValue 2 (← grouped fun c => c = '0' || c = '1'))

def decimalInteger : Scanner Int := do
  let negative ← sign
  let n : Int := digitsValue 10 (← plainDigits)
  pure (if negative then -n else n)

def fixedDigits (count least greatest : Nat) : Scanner Nat := do
  let n := digitsValue 10 (← times (satisfy isDigit) count)
  guard (least ≤ n && n ≤ greatest)
  pure n

def isLeapYear (y : Nat) : Bool := y % 4 = 0 && (y % 100 ≠ 0 || y % 400 = 0)

def daysInMonth (year month : Nat) : Nat :=
  if month = 2 then if isLeapYear year then 29 else 28
  else if month = 4 ∨ month = 6 ∨ month = 9 ∨ month = 11 then 30
  else 31

def fullDate : Scanner Unit := do
  let year ← fixedDigits 4 0 9999
  char '-'
  let month ← fixedDigits 2 1 12
  char '-'
  let _ ← fixedDigits 2 1 (daysInMonth year month)

/-- The seconds of a time; the sixtieth is a leap second. -/
def secondsPart : Scanner Unit := do
  char ':'
  let _ ← fixedDigits 2 0 60
  let _ ← optional (char '.' *> satisfy isDigit *> skipWhile isDigit)

def timeOfDay (d : Dialect) : Scanner Unit := do
  let _ ← fixedDigits 2 0 23
  char ':'
  let _ ← fixedDigits 2 0 59
  let seconds ← optional secondsPart
  guard (d.relaxed || seconds.isSome)

def timeOffset : Scanner Unit :=
  (do let _ ← satisfy fun c => c = 'Z' || c = 'z') <|> do
    let _ ← satisfy fun c => c = '+' || c = '-'
    let _ ← fixedDigits 2 0 23
    char ':'
    let _ ← fixedDigits 2 0 59

def datetime (d : Dialect) : Scanner Unit :=
  (do
    fullDate
    let _ ← optional do
      let _ ← satisfy fun c => c = 'T' || c = 't' || c = ' '
      timeOfDay d
      let _ ← optional timeOffset) <|> timeOfDay d

def anyNumber (d : Dialect) : Scanner Value :=
  (do datetime d; pure .datetime) <|>
  (do return .float (← decimalFloat d <|> specialFloat)) <|>
  (do check (Value.integer? (← prefixedInteger <|> decimalInteger)))

end BrokerHooks.Toml
