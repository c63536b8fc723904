import Codeword.Listing
import Mathlib.Data.List.Sort

namespace Codeword

variable {i : Instruction} {kind : TargetKind} {address : Word} {name : Option String}

def Instruction.RefersTo (i : Instruction) (kind : TargetKind) (address : Word) : Prop :=
  ∃ name, Token.operand (.target kind address name) ∈ i.tokens

def Token.unnamed : Token → Token
  | .operand (.target kind address _) => .operand (.target kind address none)
  | x => x

def Instruction.unnamed (i : Instruction) : Instruction :=
  { i with tokens := i.tokens.map Token.unnamed }

namespace Labels

variable {l : Labels} {results : List Decoded} {xs : List Word}

end Labels

end Codeword
