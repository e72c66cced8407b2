namespace BrokerHooks.Toml

abbrev Scanner := StateT (List Char) Option

namespace Scanner

def peek? : Scanner (Option Char) := fun s => some (s.head?, s)

/-- What is left of the text. -/
def rest : Scanner (List Char) := get

def satisfy (p : Char → Bool) : Scanner Char := fun s =>
  match s with
  | c :: rest => if p c then some (c, rest) else none
  | [] => none

def char (c : Char) : Scanner Unit := do let _ ← satisfy (· = c)

def text (t : String) : Scanner Unit := fun s => (t.toList.isPrefixOf? s).map ((), ·)

def skipWhile (p : Char → Bool) : Scanner Unit := fun s => some ((), s.dropWhile p)

def takeWhile (p : Char → Bool) : Scanner (List Char) := fun s => some (s.takeWhile p, s.dropWhile p)

def atEnd : Scanner Unit := fun s => if s.isEmpty then some ((), s) else none

def manyUpTo {α : Type} (p : Scanner α) : Nat → Scanner (List α)
  | 0 => pure []
  | n + 1 =>
    (do
      let a ← p
      let rest ← manyUpTo p n
      pure (a :: rest)) <|> pure []

/-- As many pieces as there are, where each takes at least one character. -/
def many {α : Type} (p : Scanner α) : Scanner (List α) := fun s => manyUpTo p s.length s

def separated {α : Type} (p : Scanner α) (separator : Scanner Unit) : Scanner (List α) := do
  let first ← p
  let more ← many (separator *> p)
  pure (first :: more)

def times {α : Type} (p : Scanner α) : Nat → Scanner (List α)
  | 0 => pure []
  | n + 1 => do
    let a ← p
    let rest ← times p n
    pure (a :: rest)

def check {α : Type} (o : Option α) : Scanner α := fun s => o.map (·, s)

end Scanner

def isBlank (c : Char) : Bool := c = ' ' || c = '\t'

def isDigit (c : Char) : Bool := '0' ≤ c && c ≤ '9'

def isHexDigit (c : Char) : Bool := isDigit c || ('a' ≤ c && c ≤ 'f') || ('A' ≤ c && c ≤ 'F')

def digitValue (c : Char) : Nat :=
  if c ≤ '9' then c.toNat - 0x30 else if c ≤ 'F' then c.toNat - 0x41 + 10 else c.toNat - 0x61 + 10

def digitsValue (base : Nat) (cs : List Char) : Nat :=
  cs.foldl (fun n c => base * n + digitValue c) 0

end BrokerHooks.Toml
