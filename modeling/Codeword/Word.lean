namespace Codeword

abbrev Word := BitVec 64

namespace Word

/-- The `width` lowest bits set; all of them from 64 on. -/
def lowBits (width : Nat) : Word := BitVec.ofNat 64 ((1 <<< width) - 1)

/-- The word of a byte sequence whose first byte is the least significant. Bytes past the
eighth push the highest ones out. -/
def ofLittleEndian : List UInt8 → Word
  | [] => 0
  | b :: bs => ofLittleEndian bs <<< 8 ||| b.toBitVec.setWidth 64

end Word

end Codeword
