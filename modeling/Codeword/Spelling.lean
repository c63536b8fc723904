import Codeword.Text.Numeral
import Codeword.Operand.Basic

namespace Codeword

structure Spelling where
  sigil : String := "$"
  /-- Immediates smaller than this, whatever their sign, are written in decimal. -/
  hexThreshold : Nat := 10
  uppercaseHex : Bool := false
  deriving DecidableEq, Repr

namespace Spelling

variable (s : Spelling)

def hex (n : Nat) : String := "0x" ++ String.ofList (Text.hexDigits s.uppercaseHex n)

def signedHex (value : Int) : String :=
  if value < 0 then "-" ++ s.hex value.natAbs else s.hex value.natAbs

def immediate (value : Int) (forceHex : Bool) : String :=
  if forceHex = false ∧ value.natAbs < s.hexThreshold then toString value
  else s.signedHex value

def register : RegisterValue → String
  | .numbered file index suffix => s.sigil ++ file ++ toString index ++ suffix
  | .named name => s.sigil ++ name
  | .zero => "0"
  | .one => "1"
  | .unknownSpecial file index => s.sigil ++ file ++ toString index
  | .fixed name => s.sigil ++ name

/-- The registers of an address. The hard-wired zero adds nothing and is left out. -/
def addressRegisters (m : MemoryValue) : List RegisterValue :=
  [m.base, m.index].filterMap fun r => r.filter (· ≠ .zero)

def plus (left right : String) : String :=
  if left = "" then right else left ++ "+" ++ right

/-- What stands between the brackets. A zero displacement is written only where nothing
else is. -/
def address (m : MemoryValue) : String :=
  let registers := (addressRegisters m).foldl (fun t r => plus t (s.register r)) ""
  match m.symbol with
  | some name => plus registers name
  | none =>
    if registers = "" ∨ m.displacement < 0 then registers ++ s.signedHex m.displacement
    else if m.displacement = 0 then registers
    else plus registers (s.hex m.displacement.natAbs)

def memory (m : MemoryValue) : String :=
  m.space.getD "" ++ m.bank.elim "" toString ++ "[" ++ s.address m ++ "]"

def slot (file : String) : Option Nat → String
  | some index => s.sigil ++ file ++ toString index
  | none => "#"

def vector (file : String) (slots : List (Option Nat)) : String :=
  "\x7b" ++ String.join (slots.map fun x => " " ++ s.slot file x) ++ " \x7d"

def operand : Operand → String
  | .register r => s.register r
  | .immediate value hex => s.immediate value hex
  | .memory m => s.memory m
  | .vector file slots => s.vector file slots
  | .target _ address name => name.getD (s.hex address.toNat)

end Spelling

end Codeword
