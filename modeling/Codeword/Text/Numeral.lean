namespace Codeword.Text

def hexDigits (upper : Bool) (n : Nat) : List Char :=
  let digits := Nat.toDigits 16 n
  if upper then digits.map Char.toUpper else digits

def padLeft (width : Nat) (c : Char) (cs : List Char) : List Char :=
  List.replicate (width - cs.length) c ++ cs

def hex (n : Nat) : String := String.ofList (hexDigits false n)

def hexPadded (width n : Nat) : String := String.ofList (padLeft width '0' (hexDigits false n))

def hexDigit? (c : Char) : Option Nat :=
  if '0' ≤ c ∧ c ≤ '9' then some (c.toNat - '0'.toNat)
  else if 'a' ≤ c ∧ c ≤ 'f' then some (c.toNat - 'a'.toNat + 10)
  else if 'A' ≤ c ∧ c ≤ 'F' then some (c.toNat - 'A'.toNat + 10)
  else none

end Codeword.Text
