import Codeword.Text.Numeral
import Codeword.Word

namespace Codeword

inductive DecodeError
  | noMatchingRow (table : String) (word : Word)
  /-- A row took the word, but only to say that its encoding is unknown. -/
  | unrecognized (word address : Word) (rendering : String)
  | truncated (address : Word) (length : Nat)
  deriving DecidableEq, Repr

namespace DecodeError

def message : DecodeError → String
  | noMatchingRow table word =>
    "No matching rule in table '" ++ table ++ "' for 0x" ++ Text.hexPadded 16 word.toNat
  | unrecognized word address rendering =>
    "Unrecognized encoding 0x" ++ Text.hexPadded 16 word.toNat ++ " at 0x" ++
      Text.hex address.toNat ++ ": " ++ rendering
  | truncated address length =>
    "Truncated instruction at 0x" ++ Text.hex address.toNat ++ ": " ++ toString length ++
      " trailing bytes"

end DecodeError

end Codeword
