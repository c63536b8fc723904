import Codeword.Field.Basic
import Codeword.Operand.Basic

namespace Codeword

/-- Another spelling for one register of a file. -/
inductive Special
  | named (name : String)
  | zero
  | one
  deriving DecidableEq

def Special.value : Special → RegisterValue
  | named name => .named name
  | zero => .zero
  | one => .one

/-- A register operand: the file it is in and the field that holds its number. -/
structure Register where
  field : Option Field
  file : String
  suffix : String := ""
  specials : List (Nat × Special) := []
  /-- The file has no registers but the special ones. -/
  onlySpecial : Bool := false
  deriving DecidableEq

namespace Register

def fixed (name : String) : Register := { field := none, file := name }

def select (r : Register) (index : Nat) : RegisterValue :=
  match r.specials.lookup index with
  | some s => s.value
  | none =>
    if r.onlySpecial then .unknownSpecial r.file index
    else .numbered r.file index r.suffix

def decode (r : Register) (word address : Word) : RegisterValue :=
  match r.field with
  | none => .fixed r.file
  | some f => r.select (f.extract word address).toNat

end Register

end Codeword
