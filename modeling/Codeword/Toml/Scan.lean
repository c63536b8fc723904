import Codeword.Text.Numeral

namespace Codeword.Toml

/-- Reads the start of a text and gives what is left of it. -/
abbrev Reader (α : Type) := List Char → Option (α × List Char)

def isBlank (c : Char) : Bool := c = ' ' || c = '\t'

/-- Everything but control characters other than the tab. -/
def isPlain (c : Char) : Bool := c = '\t' || (0x20 ≤ c.toNat && c.toNat ≠ 0x7f)

def skipBlanks (cs : List Char) : List Char := cs.dropWhile isBlank

def newline? : List Char → Option (List Char)
  | '\n' :: cs => some cs
  | '\r' :: '\n' :: cs => some cs
  | _ => none

def endOfLine (cs : List Char) : Option (List Char) :=
  let cs := skipBlanks cs
  let cs := match cs with
    | '#' :: rest => rest.dropWhile isPlain
    | _ => cs
  match cs with
  | [] => some []
  | _ => newline? cs

def skipLines (inComment : Bool) : List Char → List Char
  | [] => []
  | '\n' :: cs => skipLines false cs
  | '\r' :: '\n' :: cs => skipLines false cs
  | c :: cs =>
    if inComment then (if isPlain c then skipLines true cs else c :: cs)
    else if isBlank c then skipLines false cs
    else if c = '#' then skipLines true cs
    else c :: cs

def escape? : Char → Option Char
  | 'b' => some '\x08'
  | 't' => some '\t'
  | 'n' => some '\n'
  | 'f' => some '\x0c'
  | 'r' => some '\r'
  | '"' => some '"'
  | '\\' => some '\\'
  | _ => none

/-- The character with a number in hexadecimal digits. Surrogates are none. -/
def codePoint? (digits : List Char) : Option Char := do
  let ds ← digits.mapM Text.hexDigit?
  let n := ds.foldl (fun n d => 16 * n + d) 0
  if n.isValidChar then some (Char.ofNat n) else none

def cons (c : Char) : List Char × List Char → List Char × List Char :=
  fun (text, rest) => (c :: text, rest)

def basicText : List Char → Option (List Char × List Char)
  | [] => none
  | '"' :: cs => some ([], cs)
  | '\\' :: 'u' :: a :: b :: c :: d :: cs => do
    return cons (← codePoint? [a, b, c, d]) (← basicText cs)
  | '\\' :: 'U' :: a :: b :: c :: d :: e :: f :: g :: h :: cs => do
    return cons (← codePoint? [a, b, c, d, e, f, g, h]) (← basicText cs)
  | '\\' :: c :: cs => do return cons (← escape? c) (← basicText cs)
  | c :: cs => if isPlain c then (basicText cs).map (cons c) else none

def literalText : List Char → Option (List Char × List Char)
  | [] => none
  | '\'' :: cs => some ([], cs)
  | c :: cs => if isPlain c then (literalText cs).map (cons c) else none

/-- A string of several lines after its opening quotes. A backslash at the end of a line
takes away all blanks and ends of lines up to the next character. -/
def basicLines (trimming : Bool) : List Char → Option (List Char × List Char)
  | [] => none
  | '"' :: '"' :: '"' :: '"' :: '"' :: cs => some (['"', '"'], cs)
  | '"' :: '"' :: '"' :: '"' :: cs => some (['"'], cs)
  | '"' :: '"' :: '"' :: cs => some ([], cs)
  | '\\' :: 'u' :: a :: b :: c :: d :: cs => do
    return cons (← codePoint? [a, b, c, d]) (← basicLines false cs)
  | '\\' :: 'U' :: a :: b :: c :: d :: e :: f :: g :: h :: cs => do
    return cons (← codePoint? [a, b, c, d, e, f, g, h]) (← basicLines false cs)
  | '\\' :: c :: cs =>
    if (newline? (skipBlanks (c :: cs))).isSome then basicLines true (c :: cs)
    else do return cons (← escape? c) (← basicLines false cs)
  | '\r' :: '\n' :: cs => basicLines trimming ('\n' :: cs)
  | '\n' :: cs =>
    if trimming then basicLines true cs else (basicLines false cs).map (cons '\n')
  | c :: cs =>
    if trimming && isBlank c then basicLines true cs
    else if isPlain c then (basicLines false cs).map (cons c)
    else none

def literalLines : List Char → Option (List Char × List Char)
  | [] => none
  | '\'' :: '\'' :: '\'' :: '\'' :: '\'' :: cs => some (['\'', '\''], cs)
  | '\'' :: '\'' :: '\'' :: '\'' :: cs => some (['\''], cs)
  | '\'' :: '\'' :: '\'' :: cs => some ([], cs)
  | '\r' :: '\n' :: cs => (literalLines cs).map (cons '\n')
  | '\n' :: cs => (literalLines cs).map (cons '\n')
  | c :: cs => if isPlain c then (literalLines cs).map (cons c) else none

def dropNewline (cs : List Char) : List Char := (newline? cs).getD cs

def string? (cs : List Char) : Option (List Char × List Char) :=
  match cs with
  | '"' :: '"' :: '"' :: cs => basicLines false (dropNewline cs)
  | '"' :: cs => basicText cs
  | '\'' :: '\'' :: '\'' :: cs => literalLines (dropNewline cs)
  | '\'' :: cs => literalText cs
  | _ => none

def isBare (c : Char) : Bool := c.isAlphanum || c = '-' || c = '_'

def simpleKey : Reader String := fun cs =>
  match cs with
  | '"' :: cs => (basicText cs).map fun (k, cs) => (String.ofList k, cs)
  | '\'' :: cs => (literalText cs).map fun (k, cs) => (String.ofList k, cs)
  | _ =>
    let bare := cs.takeWhile isBare
    if bare = [] then none else some (String.ofList bare, cs.dropWhile isBare)

def dottedKey (fuel : Nat) : Reader (List String) := fun cs =>
  match fuel with
  | 0 => none
  | fuel + 1 => do
    let (k, cs) ← simpleKey (skipBlanks cs)
    match skipBlanks cs with
    | '.' :: cs => do
      let (ks, cs) ← dottedKey fuel cs
      return (k :: ks, cs)
    | cs => return ([k], cs)

/-- Neither keys nor values may be nested deeper than this. -/
def depthLimit : Nat := 79

def key : Reader (List String × String) := fun cs => do
  let (path, cs) ← dottedKey depthLimit cs
  return ((path.dropLast, ← path.getLast?), cs)

end Codeword.Toml
