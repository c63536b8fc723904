import Codeword.Text.Numeral

namespace Codeword.Toml

/-- The forms of a string. Only the plain ones know escapes, only the long ones, with three
quotes, several lines. -/
inductive Quotes
  | plain
  | literal
  | longPlain
  | longLiteral
  deriving DecidableEq, Repr

namespace Quotes

def mark : Quotes → String
  | plain => "\""
  | literal => "'"
  | longPlain => "\"\"\""
  | longLiteral => "'''"

def isLong : Quotes → Bool
  | plain | literal => false
  | longPlain | longLiteral => true

def isLiteral : Quotes → Bool
  | plain | longPlain => false
  | literal | longLiteral => true

/-- How many of its own quotes may stand next to each other within a string. -/
def freeQuotes (q : Quotes) : Nat := if q.isLong then 2 else 0

end Quotes

/-- The length of the longest run of a character, after `run` of them. -/
def longestRun (q : Char) (run : Nat) : List Char → Nat
  | [] => run
  | c :: cs => if c = q then longestRun q (run + 1) cs else max run (longestRun q 0 cs)

def isControl (c : Char) : Bool := c.toNat < 0x20 || c.toNat = 0x7f

def fits (q : Quotes) (cs : List Char) : Bool :=
  !cs.any (fun c => isControl c && c ≠ '\t' && c ≠ '\n') &&
  (q.isLong || !cs.contains '\n') &&
  if q.isLiteral then longestRun '\'' 0 cs ≤ q.freeQuotes
  else !cs.contains '\\' && longestRun '"' 0 cs ≤ q.freeQuotes

/-- The first form that a text fits. One that fits none is escaped. -/
def quotesFor (cs : List Char) : Quotes :=
  let forms : List Quotes := [.plain, .literal, .longPlain, .longLiteral]
  (forms.find? (fits · cs)).getD (if cs.contains '\n' then .longPlain else .plain)

def escaped (c : Char) : List Char :=
  match c with
  | '\x08' => ['\\', 'b']
  | '\t' => ['\\', 't']
  | '\x0c' => ['\\', 'f']
  | '\r' => ['\\', 'r']
  | '\\' => ['\\', '\\']
  | c =>
    if isControl c then
      ['\\', 'u'] ++ Text.padLeft 4 '0' (Text.hexDigits true c.toNat)
    else [c]

/-- The text of a plain string. A double quote is escaped once `limit` of them stand next to
each other; `free` says how many still may. -/
def escapeText (limit free : Nat) : List Char → List Char
  | [] => []
  | '\n' :: cs => '\n' :: escapeText limit limit cs
  | '"' :: cs =>
    match free with
    | 0 => '\\' :: '"' :: escapeText limit limit cs
    | free + 1 => '"' :: escapeText limit free cs
  | c :: cs => escaped c ++ escapeText limit limit cs

/-- A text of several lines starts on a line of its own. -/
def quote (text : String) : String :=
  let cs := text.toList
  let q := quotesFor cs
  let body := if q.isLiteral then cs else escapeText q.freeQuotes q.freeQuotes cs
  q.mark ++ (if cs.contains '\n' then "\n" else "") ++ String.ofList body ++ q.mark

end Codeword.Toml
