import BrokerHooks.Toml.Scanner
import BrokerHooks.Toml.Value

namespace BrokerHooks

inductive Setting where
  | missing
  | text (s : String)
  | integer (n : Int)
  | float (x : Float)
  | flag (b : Bool)
  | list (items : List Setting)
  | table (entries : List (String × Setting))

namespace Setting

mutual

def ofToml : Toml.Value → Setting
  | .text s => .text s
  | .integer n => .integer n
  | .float x => .float x
  | .boolean b => .flag b
  | .datetime => .text "datetime"
  | .array items => .list (ofTomlList items)
  | .table entries => .table (ofTomlTable entries)

def ofTomlList : List Toml.Value → List Setting
  | [] => []
  | v :: rest => ofToml v :: ofTomlList rest

def ofTomlTable : List (String × Toml.Value) → List (String × Setting)
  | [] => []
  | (key, v) :: rest => (key, ofToml v) :: ofTomlTable rest

end

def entries : Setting → List (String × Setting)
  | .table es => es
  | _ => []

def items : Setting → List Setting
  | .list xs => xs
  | _ => []

def put (es : List (String × Setting)) (key : String) (s : Setting) : List (String × Setting) :=
  match es with
  | [] => [(key, s)]
  | e :: rest => if e.1 = key then (key, s) :: rest else e :: put rest key s

mutual

def laidOver (old : Setting) : Setting → Setting
  | .table es => .table (allLaidOver old.entries es)
  | s => s

def allLaidOver (old : List (String × Setting)) : List (String × Setting) → List (String × Setting)
  | [] => old
  | (key, s) :: rest => allLaidOver (put old key (laidOver ((old.lookup key).getD .missing) s)) rest

end

/-- A step of a path. An index may count from the end. -/
inductive Step where
  | key (name : String)
  | index (i : Int)
deriving DecidableEq, Repr

/-- The list with an entry at an index, and where that entry is; missing settings fill what lies
between. -/
def widened (xs : List Setting) (i : Int) : List Setting × Nat :=
  if 0 ≤ i then (xs ++ List.replicate (i.toNat + 1 - xs.length) .missing, i.toNat)
  else if 0 ≤ i + xs.length then (xs, (i + xs.length).toNat)
  else (List.replicate (-(i + xs.length)).toNat .missing ++ xs, 0)

/-- Lays a setting over what a path leads to, and makes the path where it is not there. -/
def setAt (s : Setting) : List Step → Setting → Setting
  | [], old => laidOver old s
  | .key name :: path, old =>
    let es := old.entries
    .table (put es name (setAt s path ((es.lookup name).getD .missing)))
  | .index i :: path, old =>
    let (xs, place) := widened old.items i
    .list (xs.set place (setAt s path (xs[place]?.getD .missing)))

def isNameChar (c : Char) : Bool := c.isAlphanum || c = '_' || c = '-'

def readName? (s : List Char) : Option (String × List Char) :=
  let name := s.takeWhile isNameChar
  if name = [] then none else some (String.ofList name, s.dropWhile isNameChar)

def int64? (n : Int) : Option Int :=
  if Toml.Value.minInteger ≤ n ∧ n ≤ Toml.Value.maxInteger then some n else none

def readIndex? (s : List Char) : Option (Int × List Char) :=
  let (negative, s) :=
    match s with
    | '-' :: s => (true, s)
    | s => (false, s)
  let digits := s.takeWhile Char.isDigit
  if digits = [] then none
  else
    let n : Int := Toml.digitsValue 10 digits
    (int64? (if negative then -n else n)).map (·, s.dropWhile Char.isDigit)

def dropBlanks (s : List Char) : List Char := s.dropWhile Toml.isBlank

/-- The steps behind the first name, of a text no longer than the fuel. Blanks may stand around an
index, within its brackets. -/
def readSteps? : Nat → List Char → Option (List Step)
  | _, [] => some []
  | fuel + 1, '.' :: s => do
    let (name, rest) ← readName? s
    return .key name :: (← readSteps? fuel rest)
  | fuel + 1, '[' :: s => do
    let (i, rest) ← readIndex? (dropBlanks s)
    match dropBlanks rest with
    | ']' :: rest => return .index i :: (← readSteps? fuel rest)
    | _ => none
  | _, _ => none

/-- The path a text stands for; one that is no path is a single key. -/
def path (text : String) : List Step :=
  let read : Option (List Step) := do
    let (name, rest) ← readName? text.toList
    return .key name :: (← readSteps? rest.length rest)
  read.getD [.key text]

end Setting
end BrokerHooks
