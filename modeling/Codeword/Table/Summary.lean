import Codeword.Table.Basic
import Codeword.Text.GraphemeExtend
import Codeword.Text.Printable

namespace Codeword

namespace Text

/-- How a character stands in quoted text: one that cannot be seen, or not alone, by its code
point. -/
def quoteChar (c : Char) : List Char :=
  match c with
  | '"' => ['\\', '"']
  | '\\' => ['\\', '\\']
  | '\n' => ['\\', 'n']
  | '\r' => ['\\', 'r']
  | '\t' => ['\\', 't']
  | '\x00' => ['\\', '0']
  | c =>
    if isPrintable c && !isAttached c then [c]
    else ['\\', 'u', '\x7b'] ++ hexDigits false c.toNat ++ ['\x7d']

def quote (s : String) : String :=
  String.ofList ('"' :: s.toList.flatMap quoteChar ++ ['"'])

end Text

def TargetKind.name : TargetKind → String
  | branch => "Branch"
  | call => "Call"
  | number => "Number"

def Piece.summary (p : Piece) : String :=
  "Piece \x7b start: " ++ toString p.start ++ ", width: " ++ toString p.width ++ " \x7d"

def Atom.summary : Atom → String
  | .opcode name => "Opcode(" ++ name ++ ")"
  | .modifier text => "Modifier(" ++ text ++ ")"
  | .register r => "Reg(" ++ r.file ++ ")"
  | .immediate f =>
    "Imm([" ++ ", ".intercalate (f.layout.pieces.map Piece.summary) ++ "])"
  | .memory m =>
    "Mem(" ++ m.space.elim "None" (fun s => "Some(" ++ Text.quote s ++ ")") ++ ")"
  | .vector g => "Vec(" ++ g.file ++ ")"
  | .target kind _ => "Target(" ++ kind.name ++ ")"
  | .table t => "Table(" ++ t.name ++ ")"
  | .unrecognized => "Oops"

end Codeword
