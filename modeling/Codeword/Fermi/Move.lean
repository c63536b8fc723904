import Codeword.Fermi.Conversion
import Codeword.Fermi.Float
import Codeword.Fermi.Video

namespace Codeword.Fermi

def opcodeMask6 : Word := 0xfc00_0000_0000_0007

def setRows : List Row :=
  [⟨code 0x00 4, opcodeMask6,
    [.opcode "set", resultType5, dst, carryOut30, condition, conditionCode, setCombination]⟩,
   ⟨code 0x04 4, opcodeMask6,
    [.opcode "set", predicateDst, predicateDst2, condition, conditionCode, setCombination]⟩,
   ⟨code 0x08 4, opcodeMask6,
    [.opcode "set", resultType5, dst, carryOut30, predicateSource, setCombination]⟩,
   ⟨code 0x0c 4, opcodeMask6,
    [.opcode "set", predicateDst, predicateDst2, predicateSource, setCombination]⟩]

def conversionRows : List Row :=
  floatConversions.map (fun c => ⟨code 0x10 4 ||| c.sizes, opcodeMask6 ||| 0x1b0_0000, c.atoms⟩) ++
  [⟨code 0x14 4, opcodeMask6,
    [.opcode "cvt", flush37, integerRounding, floatToIntegerDestination, floatSource]⟩,
   ⟨code 0x18 4, opcodeMask6,
    [.opcode "cvt", convertRounding, floatDestination, integerSource]⟩,
   ⟨code 0x1c 4, opcodeMask6,
    [.opcode "cvt", saturate5, integerDestination, integerToIntegerSource]⟩]

def eventBit : Word := 1 <<< 0x32

def moveRows : List Row :=
  [⟨code 0x20 4, opcodeMask6,
    [.opcode "selp", "b32", dst, src1, integerSource2, notPredicate3, predicateSrc3]⟩,
   ⟨code 0x24 4, opcodeMask6,
    [.opcode "prmt", permutation, "b32", dst, src1, integerSource2Of3, source3]⟩,
   ⟨code 0x28 4, opcodeMask6, [lanes, .opcode "mov", "b32", dst, integerSource2]⟩,
   ⟨code 0x2c 4, opcodeMask6, [.opcode "mov", "b32", dst, systemRegister]⟩,
   -- without a first source the flags are read as they are
   ⟨code 0x30 4 ||| 0x3f0_0000, opcodeMask6 ||| 0x3f0_0000,
    [.opcode "mov", dst, highHalf5, flagsRegister, "mask", integerSource2]⟩,
   ⟨code 0x30 4, opcodeMask6,
    [.opcode "mov", dst, src1, "or", highHalf5, flagsRegister, "mask", integerSource2]⟩,
   ⟨code 0x34 4, opcodeMask6,
    [.opcode "mov", highHalf5, flagsRegister, src1, "mask", integerSource2]⟩,
   ⟨code 0x38 4, opcodeMask6, [.opcode "bar", "read", dst, barrier]⟩,
   ⟨code 0x40 4, opcodeMask6 ||| eventBit, [conditionGuard, .opcode "nop"]⟩,
   -- the operand seems to be a mask of events
   ⟨code 0x40 4 ||| eventBit, opcodeMask6 ||| eventBit,
    [conditionGuard, .opcode "pmevent", eventMask]⟩,
   ⟨code 0x44 4, opcodeMask6, [.opcode "lepc", dst]⟩]

def voteRow (mode : String) (value : Word) : Row :=
  ⟨code 0x48 4 ||| value, opcodeMask6 ||| 0x60,
   [.opcode "vote", mode, dst, .register (predicate 0x36), notPredicate1, predicateSrc1]⟩

def barrierRow (mode : String) (value : Word) : Row :=
  ⟨code 0x50 4 ||| value, opcodeMask6 ||| 0xe0,
   [.opcode "bar", mode, .register (predicate 0x35), dst, barrierSource, threadCountSource,
    notPredicate3, predicateSrc3]⟩

/-- Barriers, votes and counts. A barrier that only waits is a count whose result is not
used. -/
def threadRows : List Row :=
  [voteRow "all" 0x00, voteRow "any" 0x20, voteRow "uni" 0x40,
   barrierRow "popc" 0x00, barrierRow "and" 0x20, barrierRow "or" 0x40,
   barrierRow "arrive" 0x80,
   -- presumably of both sources together
   ⟨code 0x54 4, opcodeMask6, [.opcode "popc", dst, not9, src1, not8, integerSource2]⟩]

/-- Moves, conversions, predicates and video instructions, class 4. -/
def move : Table where
  name := "move"
  rows := setRows ++ conversionRows ++ moveRows ++ threadRows ++ fourBytes.rows ++
    twoHalves.rows ++ scalarVideoRows ++ [.unknown [dst, src1, integerSource2, src3]]

end Codeword.Fermi
