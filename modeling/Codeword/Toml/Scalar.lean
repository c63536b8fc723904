import Codeword.Toml.Scan
import Codeword.Toml.Value

namespace Codeword.Toml

def isScalarChar (c : Char) : Bool := c.isAlphanum || "+-_.:".contains c

def digitIn (base : Nat) (c : Char) : Option Nat := (Text.hexDigit? c).filter (· < base)

def moreDigits (base n : Nat) : List Char → Option Nat
  | [] => some n
  | '_' :: c :: cs => do moreDigits base (base * n + (← digitIn base c)) cs
  | c :: cs => do moreDigits base (base * n + (← digitIn base c)) cs

def digits (base : Nat) : List Char → Option Nat
  | [] => none
  | c :: cs => do moreDigits base (← digitIn base c) cs

def decimal : List Char → Option Nat
  | '0' :: _ :: _ => none
  | cs => digits 10 cs

def splitSign : List Char → Bool × List Char
  | '-' :: cs => (true, cs)
  | '+' :: cs => (false, cs)
  | cs => (false, cs)

def InInt64 (n : Int) : Prop := Int64.minValue.toInt ≤ n ∧ n ≤ Int64.maxValue.toInt

instance (n : Int) : Decidable (InInt64 n) := inferInstanceAs (Decidable (_ ∧ _))

def integer? (cs : List Char) : Option Int := do
  let n ← match cs with
    | '0' :: 'x' :: cs => (digits 16 cs).map Int.ofNat
    | '0' :: 'o' :: cs => (digits 8 cs).map Int.ofNat
    | '0' :: 'b' :: cs => (digits 2 cs).map Int.ofNat
    | cs =>
      let (negative, cs) := splitSign cs
      (decimal cs).map fun n => if negative then -n else n
  if InInt64 n then some n else none

/-- Whether `mantissa · 10^exponent` is beyond every finite double: it is not below
2^1024 - 2^970. -/
def tooLarge (mantissa : Nat) (exponent : Int) : Bool :=
  let size := (Nat.toDigits 10 mantissa).length + exponent
  if mantissa = 0 || size < 309 then false
  else if 309 < size then true
  else
    let bound := (1 <<< 1024) - (1 <<< 970)
    if 0 ≤ exponent then bound ≤ mantissa * Nat.pow 10 exponent.toNat
    else bound * Nat.pow 10 exponent.natAbs ≤ mantissa

/-- The digits after the point are added to the mantissa, and their number is kept. -/
def withFraction (mantissa : Nat) : Option (List Char) → Option (Nat × Nat)
  | none => some (mantissa, 0)
  | some cs => do
    let _ ← digits 10 cs
    let ds := cs.filter (· ≠ '_')
    return (← moreDigits 10 mantissa ds, ds.length)

def exponent : Option (List Char) → Option Int
  | none => some 0
  | some cs =>
    let (negative, cs) := splitSign cs
    (digits 10 cs).map fun n => if negative then -(n : Int) else n

/-- A number with a fraction, an exponent or both. Too small a negative number is taken, too
large a positive one is not. -/
def isFloat (cs : List Char) : Bool :=
  let (negative, cs) := splitSign cs
  if cs = "inf".toList || cs = "nan".toList then true
  else
    let isExponentMark (c : Char) : Bool := c = 'e' || c = 'E'
    let number := cs.takeWhile (!isExponentMark ·)
    let whole := number.takeWhile (· ≠ '.')
    let fraction? := (number.dropWhile (· ≠ '.')).tail?
    let exponent? := (cs.dropWhile (!isExponentMark ·)).tail?
    let parts : Option (Nat × Int) := do
      let (mantissa, places) ← withFraction (← decimal whole) fraction?
      return (mantissa, (← exponent exponent?) - places)
    match parts with
    | none => false
    | some (mantissa, e) =>
      (fraction?.isSome || exponent?.isSome) && (negative || !tooLarge mantissa e)

def fixedDigits (n : Nat) (cs : List Char) : Option (Nat × List Char) :=
  let ds := cs.take n
  if ds.length = n && ds.all Char.isDigit then (digits 10 ds).map (·, cs.drop n) else none

def expect (c : Char) : List Char → Option (List Char)
  | [] => none
  | d :: cs => if d = c then some cs else none

def isLeap (year : Nat) : Bool := year % 4 = 0 && (year % 100 ≠ 0 || year % 400 = 0)

def daysIn (year month : Nat) : Nat :=
  if month = 2 then (if isLeap year then 29 else 28)
  else if month ∈ [4, 6, 9, 11] then 30
  else 31

def date? (cs : List Char) : Option (List Char) := do
  let (year, cs) ← fixedDigits 4 cs
  let (month, cs) ← fixedDigits 2 (← expect '-' cs)
  let (day, cs) ← fixedDigits 2 (← expect '-' cs)
  if 1 ≤ month ∧ month ≤ 12 ∧ 1 ≤ day ∧ day ≤ daysIn year month then some cs else none

def hourMinute? (cs : List Char) : Option (List Char) := do
  let (hour, cs) ← fixedDigits 2 cs
  let (minute, cs) ← fixedDigits 2 (← expect ':' cs)
  if hour ≤ 23 ∧ minute ≤ 59 then some cs else none

def time? (cs : List Char) : Option (List Char) := do
  let cs ← hourMinute? cs
  let (second, cs) ← fixedDigits 2 (← expect ':' cs)
  if 60 < second then none
  else
    match cs with
    | '.' :: cs =>
      if cs.takeWhile Char.isDigit = [] then none else some (cs.dropWhile Char.isDigit)
    | cs => some cs

def isOffset : List Char → Bool
  | [] | ['Z'] | ['z'] => true
  | '+' :: cs | '-' :: cs => hourMinute? cs = some []
  | _ => false

def isMoment (cs : List Char) : Bool :=
  match time? cs with
  | some rest => isOffset rest
  | none => false

def isDate (cs : List Char) : Bool :=
  match date? cs with
  | some [] => true
  | some (c :: rest) => (c = 'T' || c = 't' || c = ' ') && isMoment rest
  | none => time? cs = some []

/-- A scalar that is no string. A date may have its time after one blank. -/
def scalar? : Reader Value := fun cs =>
  let token := cs.takeWhile isScalarChar
  let rest := cs.dropWhile isScalarChar
  if token = "true".toList then some (.boolean true, rest)
  else if token = "false".toList then some (.boolean false, rest)
  else if date? token = some [] then
    match rest with
    | ' ' :: c :: more =>
      if c.isDigit then
        let time := (c :: more).takeWhile isScalarChar
        if isMoment time then some (.date, (c :: more).dropWhile isScalarChar) else none
      else some (.date, rest)
    | _ => some (.date, rest)
  else if isDate token then some (.date, rest)
  else if isFloat token then some (.float, rest)
  else (integer? token).map fun n => (.integer n, rest)

end Codeword.Toml
