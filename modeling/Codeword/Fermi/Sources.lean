import Codeword.Fermi.Addresses
import Codeword.Fermi.Flags

namespace Codeword.Fermi

/-- Bits 0x2e and 0x2f choose the form of a source. -/
def forms (name : String) (entries : List (Option Atom)) : Table :=
  .enumerate name 0x2e 2 (entries.map fun e => e.map ([·]))

def integerSource2 : Table :=
  forms "is2" [some src2, some constant, none, some imm]
def integerSource2Of3 : Table :=
  forms "is2w3" [some src2, some constant, some src3, some imm]

/-- The third source, which changes places with a constant that is the second. -/
def source3 : Table := forms "is3" [some src3, some src3, some constant, some src3]

def floatSource2 : Table :=
  forms "fs2" [some src2, some constant, none, some floatImm]
def floatSource2Of3 : Table :=
  forms "fs2w3" [some src2, some constant, some src3, some floatImm]
def doubleSource2 : Table := forms "ds2" [some src2Pair, none, none, some doubleImm]
def longSource2 : Table := forms "ls2" [some src2Pair, none, none, some imm]

def predicateSource : Table where
  name := "psrc"
  rows :=
    [⟨0, 0xfc00_0000, [notPredicate1, predicateSrc1]⟩,
     ⟨0x0000_0000, 0xc000_0000,
      [notPredicate1, predicateSrc1, "and", notPredicate2, predicateSrc2]⟩,
     ⟨0x4000_0000, 0xc000_0000,
      [notPredicate1, predicateSrc1, "or", notPredicate2, predicateSrc2]⟩,
     ⟨0x8000_0000, 0xc000_0000,
      [notPredicate1, predicateSrc1, "xor", notPredicate2, predicateSrc2]⟩,
     .unknown []]

/-- What the result of a comparison is combined with. A conjunction with the predicate that
is always true is not written. -/
def setCombination : Table where
  name := "setlop"
  rows :=
    [⟨0x000e_0000_0000_0000, 0x006e_0000_0000_0000, []⟩,
     ⟨0x0000_0000_0000_0000, 0x0060_0000_0000_0000,
      ["and", notPredicate3, predicateSrc3]⟩,
     ⟨0x0020_0000_0000_0000, 0x0060_0000_0000_0000,
      ["or", notPredicate3, predicateSrc3]⟩,
     ⟨0x0040_0000_0000_0000, 0x0060_0000_0000_0000,
      ["xor", notPredicate3, predicateSrc3]⟩,
     .unknown [notPredicate3, predicateSrc3]]

end Codeword.Fermi
