import Codeword.Symbols

namespace Codeword

inductive RegisterValue
  | numbered (file : String) (index : Nat) (suffix : String)
  | named (name : String)
  | zero
  | one
  /-- An index that only special registers may have, and none of them has. -/
  | unknownSpecial (file : String) (index : Nat)
  | fixed (name : String)
  deriving DecidableEq, Repr

structure MemoryValue where
  space : Option String
  bank : Option Nat
  base : Option RegisterValue
  index : Option RegisterValue
  displacement : Int
  symbol : Option String
  deriving DecidableEq, Repr

inductive Operand
  | register (r : RegisterValue)
  | immediate (value : Int) (hex : Bool)
  | memory (m : MemoryValue)
  /-- Registers of one group; a slot without a register is a hole. -/
  | vector (file : String) (slots : List (Option Nat))
  | target (kind : TargetKind) (address : Word) (name : Option String)
  deriving DecidableEq, Repr

end Codeword
