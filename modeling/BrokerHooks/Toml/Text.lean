import BrokerHooks.Toml.Dialect
import BrokerHooks.Toml.Scanner

namespace BrokerHooks.Toml

open Scanner

/-- Control characters other than the tab stand nowhere in a document. -/
def isText (c : Char) : Bool := c = '\t' || (0x20 ≤ c.toNat && c.toNat ≠ 0x7F)

def skipBlanks : Scanner Unit := skipWhile isBlank

def newline : Scanner Unit := text "\n" <|> text "\r\n"

def comment : Scanner Unit := do
  char '#'
  skipWhile isText

def lineEnd : Scanner Unit := do
  skipBlanks
  let _ ← optional comment
  newline <|> atEnd

/-- Blanks, line ends and comments, as they may stand between the items of an array. -/
def skipLines : Scanner Unit := do
  let _ ← many ((do let _ ← satisfy isBlank) <|> newline <|> (comment *> newline))

/-- A character by the hexadecimal digits of its code point, which must be a scalar value. -/
def codePoint (count : Nat) : Scanner Char := do
  let n := digitsValue 16 (← times (satisfy isHexDigit) count)
  guard n.isValidChar
  pure (Char.ofNat n)

def shortEscape? : Char → Option Char
  | 'b' => some '\x08'
  | 't' => some '\t'
  | 'n' => some '\n'
  | 'f' => some '\x0c'
  | 'r' => some '\r'
  | '"' => some '"'
  | '\\' => some '\\'
  | _ => none

def escape (d : Dialect) : Scanner Char := do
  char '\\'
  match ← satisfy fun c => d.relaxed || !(c = 'e' || c = 'x') with
  | 'e' => pure '\x1b'
  | 'x' => codePoint 2
  | 'u' => codePoint 4
  | 'U' => codePoint 8
  | c => check (shortEscape? c)

def isBasicChar (c : Char) : Bool := isText c && c ≠ '"' && c ≠ '\\'

def isLiteralChar (c : Char) : Bool := isText c && c ≠ '\''

def basicText (d : Dialect) : Scanner String := do
  char '"'
  let cs ← many (satisfy isBasicChar <|> escape d)
  char '"'
  pure (String.ofList cs)

def literalText : Scanner String := do
  char '\''
  let cs ← takeWhile isLiteralChar
  char '\''
  pure (String.ofList cs)

/-- A backslash at the end of a line takes away all white space up to the next character. -/
def lineContinuation : Scanner (List Char) := do
  char '\\'
  skipBlanks
  newline
  let _ ← many ((do let _ ← satisfy isBlank) <|> newline)
  pure []

/-- One or two quotes that do not close the text. -/
def innerQuotes (quote : Char) : Scanner (List Char) := do
  let quotes ← takeWhile (· = quote)
  guard (quotes.length = 1 || quotes.length = 2)
  pure quotes

/-- The three quotes that close a text over several lines; up to two more belong to the text. -/
def closingQuotes (quote : Char) : Scanner (List Char) := do
  let _ ← times (char quote) 3
  let more ← many (char quote)
  guard (more.length ≤ 2)
  pure (more.map fun _ => quote)

def lineBreak : Scanner (List Char) := do
  newline
  pure ['\n']

def linesText (quote : Char) (piece : Scanner (List Char)) : Scanner String := do
  let _ ← times (char quote) 3
  let _ ← optional newline
  let pieces ← many (innerQuotes quote <|> lineBreak <|> piece)
  let last ← closingQuotes quote
  pure (String.ofList (pieces.flatten ++ last))

def basicLines (d : Dialect) : Scanner String :=
  linesText '"' (lineContinuation <|> (do pure [← escape d]) <|> (do pure [← satisfy isBasicChar]))

def literalLines : Scanner String := linesText '\'' (do pure [← satisfy isLiteralChar])

def anyText (d : Dialect) : Scanner String := do
  let s ← rest
  if "\"\"\"".toList.isPrefixOf s then basicLines d
  else if "'''".toList.isPrefixOf s then literalLines
  else basicText d <|> literalText

end BrokerHooks.Toml
