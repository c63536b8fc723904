import Codeword.Spelling

namespace Codeword

inductive Token
  | opcode (name : String)
  | modifier (text : String)
  | operand (o : Operand)
  | unrecognized
  deriving DecidableEq, Repr

def Spelling.token (s : Spelling) : Token → String
  | .opcode text | .modifier text => text
  | .operand o => s.operand o
  | .unrecognized => "???"

def Spelling.tokens (s : Spelling) (ts : List Token) : String :=
  " ".intercalate (ts.map s.token)

structure Instruction where
  address : Word
  word : Word
  tokens : List Token
  deriving DecidableEq, Repr

namespace Instruction

def mnemonic (i : Instruction) : Option String :=
  i.tokens.findSome? fun
    | .opcode name => some name
    | _ => none

def modifiers (i : Instruction) : List String :=
  i.tokens.filterMap fun
    | .modifier text => some text
    | _ => none

def operands (i : Instruction) : List Operand :=
  i.tokens.filterMap fun
    | .operand o => some o
    | _ => none

def targets (i : Instruction) : List (TargetKind × Word) :=
  i.operands.filterMap fun
    | .target kind address _ => some (kind, address)
    | _ => none

def isUnrecognized (i : Instruction) : Bool := i.tokens.contains .unrecognized

def render (i : Instruction) (s : Spelling) : String := s.tokens i.tokens

end Instruction

end Codeword
