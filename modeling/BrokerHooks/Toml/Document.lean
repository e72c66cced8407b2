import BrokerHooks.Toml.Number
import BrokerHooks.Toml.Text

namespace BrokerHooks.Toml

open Scanner

/-- A part of a document while it is read. A table is implicit until a header names it, and dotted if
keys made it. The tables of an array are kept last first. -/
inductive Node where
  | value (v : Value)
  | table (implicit dotted : Bool) (entries : List (String × Node))
  | tables (ts : List (List (String × Node)))

abbrev Entries := List (String × Node)

mutual

def Node.result : Node → Value
  | .value v => v
  | .table _ _ entries => .table (entriesResult entries)
  | .tables ts => .array (tablesResult ts).reverse

def entriesResult : List (String × Node) → List (String × Value)
  | [] => []
  | (key, n) :: rest => (key, n.result) :: entriesResult rest

def tablesResult : List (List (String × Node)) → List Value
  | [] => []
  | t :: rest => .table (entriesResult t) :: tablesResult rest

end

namespace Entries

def put (es : Entries) (key : String) (n : Node) : Entries :=
  match es with
  | [] => [(key, n)]
  | e :: rest => if e.1 = key then (key, n) :: rest else e :: put rest key n

/-- Assigns a value to a dotted key. Its path may only run through tables that no header names, and
must end in one that dotted keys made or, where the dialect lets them, now define. -/
def assign (d : Dialect) (key : String) (v : Value) : List String → Entries → Option Entries
  | [], es => if (es.lookup key).isSome then none else some (es ++ [(key, .value v)])
  | k :: path, es =>
    match es.lookup k with
    | none => do return es.put k (.table true true (← assign d key v path []))
    | some (.table implicit dotted sub) =>
      let dotted := dotted || (path.isEmpty && d.joinsImplied)
      if !implicit || (path.isEmpty && !dotted) then none
      else do return es.put k (.table implicit dotted (← assign d key v path sub))
    | some (.tables (t :: ts)) =>
      if path.isEmpty then none
      else do return es.put k (.tables ((← assign d key v path t) :: ts))
    | some _ => none

/-- Changes the table that a header leads to; in an array of tables that is the last. -/
def within (f : Entries → Option Entries) : List String → Entries → Option Entries
  | [], es => f es
  | k :: path, es =>
    match es.lookup k with
    | none => do return es.put k (.table true false (← within f path []))
    | some (.table implicit dotted sub) => do
      return es.put k (.table implicit dotted (← within f path sub))
    | some (.tables (t :: ts)) => do return es.put k (.tables ((← within f path t) :: ts))
    | some _ => none

def openTable (key : String) (es : Entries) : Option Entries :=
  match es.lookup key with
  | none => some (es.put key (.table false false []))
  | some (.table true false sub) => some (es.put key (.table false false sub))
  | some _ => none

def pushTable (key : String) (es : Entries) : Option Entries :=
  match es.lookup key with
  | none => some (es.put key (.tables [[]]))
  | some (.tables ts) => some (es.put key (.tables ([] :: ts)))
  | some _ => none

end Entries

def isKeyChar (c : Char) : Bool :=
  c.isAlphanum || c = '_' || c = '-'

def simpleKey (d : Dialect) : Scanner String :=
  basicText d <|> literalText <|> do
    let cs ← takeWhile isKeyChar
    guard !cs.isEmpty
    pure (String.ofList cs)

def dottedKey (d : Dialect) : Scanner (List String × String) := do
  let parts ← separated (skipBlanks *> simpleKey d <* skipBlanks) (char '.')
  guard (parts.length ≤ d.maxDepth)
  let last ← check parts.getLast?
  pure (parts.dropLast, last)

/-- A key, an equals sign and what `item` reads. Around the sign may stand what `gap` skips. -/
def assignment (d : Dialect) (gap : Scanner Unit) (item : Scanner Value) :
    Scanner (List String × String × Value) := do
  let (path, key) ← dottedKey d
  gap
  char '='
  gap
  let v ← item
  pure (path, key, v)

def items (item : Scanner Value) : Scanner (List Value) := do
  let first ← optional item
  match first with
  | none => pure []
  | some v =>
    let more ← many (skipLines *> char ',' *> skipLines *> item)
    skipLines
    let _ ← optional (char ',')
    pure (v :: more)

def arrayOf (item : Scanner Value) : Scanner Value := do
  char '['
  skipLines
  let vs ← items item
  skipLines
  char ']'
  pure (.array vs)

def skipInside (d : Dialect) : Scanner Unit := if d.relaxed then skipLines else skipBlanks

def inlineAssignments (d : Dialect) (item : Scanner Value) :
    Scanner (List (List String × String × Value)) := do
  let one := assignment d (skipInside d) item <* skipInside d
  let first ← optional (separated one (char ',' *> skipInside d))
  match first with
  | none => pure []
  | some as =>
    let comma ← optional (char ',')
    guard (d.relaxed || comma.isNone)
    skipInside d
    pure as

def inlineTableOf (d : Dialect) (item : Scanner Value) : Scanner Value := do
  char '{'
  skipInside d
  let assignments ← inlineAssignments d item
  char '}'
  let entries ← check <| assignments.foldlM
    (fun (es : Entries) (path, key, v) => es.assign d key v path) []
  pure (.table (entriesResult entries))

/-- A value with at most so many arrays and inline tables around its innermost parts. -/
def valueWithin (d : Dialect) : Nat → Scanner Value
  | 0 => simpleValue
  | depth + 1 =>
    arrayOf (valueWithin d depth) <|> inlineTableOf d (valueWithin d depth) <|> simpleValue
where
  simpleValue : Scanner Value :=
    (do return .text (← anyText d)) <|>
    (do text "true"; pure (.boolean true)) <|>
    (do text "false"; pure (.boolean false)) <|>
    anyNumber d

def value (d : Dialect) : Scanner Value := valueWithin d d.maxDepth

inductive Line where
  | blank
  | header (path : List String) (key : String)
  | arrayHeader (path : List String) (key : String)
  | assign (path : List String) (key : String) (v : Value)

def headerLine (d : Dialect) : Scanner Line :=
  (do
    text "[["
    let (path, key) ← dottedKey d
    text "]]"
    lineEnd
    pure (.arrayHeader path key)) <|>
  (do
    char '['
    let (path, key) ← dottedKey d
    char ']'
    lineEnd
    pure (.header path key))

def assignmentLine (d : Dialect) : Scanner Line := do
  let (path, key, v) ← assignment d skipBlanks (value d)
  lineEnd
  pure (.assign path key v)

def blankLine : Scanner Line := do
  let _ ← optional comment
  newline
  pure .blank

def line (d : Dialect) : Scanner Line := do
  skipBlanks
  blankLine <|> headerLine d <|> assignmentLine d

structure Document where
  dialect : Dialect
  /-- The path of the header above. -/
  header : List String := []
  entries : Entries := []

def Document.add? (d : Document) : Line → Option Document
  | .blank => some d
  | .header path key => do
    let entries ← d.entries.within (Entries.openTable key) path
    return { d with header := path ++ [key], entries }
  | .arrayHeader path key => do
    let entries ← d.entries.within (Entries.pushTable key) path
    return { d with header := path ++ [key], entries }
  | .assign path key v => do
    let entries ← d.entries.within (Entries.assign d.dialect key v path) d.header
    return { d with entries }

/-- All lines; the last may be a comment that nothing ends. -/
def lines (d : Dialect) : Scanner (List Line) := do
  let ls ← many (line d)
  skipBlanks
  let _ ← optional comment
  atEnd
  pure ls

/-- The table a document stands for, if it is one; a byte order mark in front is no part of it. -/
def parse? (dialect : Dialect) (document : String) : Option (List (String × Value)) := do
  let cs :=
    match document.toList with
    | '\ufeff' :: cs => cs
    | cs => cs
  let (ls, _) ← lines dialect cs
  let d ← ls.foldlM Document.add? { dialect }
  return entriesResult d.entries

end BrokerHooks.Toml
