import Codeword.Fermi.Float

namespace Codeword.Fermi

/-- Immediates of 32 bits, class 2. -/
def longImmediate : Table where
  name := "long_imm"
  rows :=
    [⟨code 0x00 2, opcodeMask,
      [addition, dst, carryOut3a, "mul", highHalf6, signedness7, src1, signedness5, longImm,
       src3]⟩,
     ⟨code 0x08 2, opcodeMask,
      [addition, saturate5, "b32", dst, carryOut3a, src1, longImm, carryIn6]⟩,
     ⟨code 0x10 2, opcodeMask,
      [.opcode "mul", highHalf6, dst, carryOut3a, signedness7, src1, signedness5, longImm]⟩,
     ⟨code 0x18 2, opcodeMask, [lanes, .opcode "mov", "b32", dst, longImm]⟩,
     ⟨code 0x20 2, opcodeMask,
      [.opcode "add", flush6, saturate5, addRounding, "f32", dst, carryOut3a, negate9, "mul",
       zeroProduct, src1, longImm, negate8, src3]⟩,
     ⟨code 0x28 2, opcodeMask,
      [.opcode "add", flush5, "f32", dst, carryOut3a, negate9, absolute7, src1, longImm]⟩,
     ⟨code 0x30 2, opcodeMask,
      [.opcode "mul", zeroProduct, flush6, saturate5, "f32", dst, carryOut3a, src1, longImm]⟩,
     ⟨code 0x38 2, opcodeMask,
      [logic, "b32", dst, carryOut3a, not9, src1, not8, longImm, carryIn5]⟩,
     ⟨code 0x40 2, opcodeMask,
      [.opcode "add", "b32", dst, carryOut3a, "shl", src1, shiftCount, longImm]⟩,
     .unknown ["b32", dst, src1, longImm]]

def minMaxRow (mode : Word) (part carry : List Atom) : Row :=
  let operands : List Atom := [signedness5, dst, carryOut30, src1, integerSource2]
  ⟨code 0x08 3 ||| mode, opcodeMask ||| 0xc0, minMax :: (part ++ operands ++ carry)⟩

/-- Integers, class 3. -/
def integer : Table where
  name := "integer"
  rows :=
    [minMaxRow 0x00 [] [],
     minMaxRow 0x40 ["low"] [conditionCode],
     minMaxRow 0x80 ["med"] [conditionCode],
     minMaxRow 0xc0 ["high"] [],
     ⟨code 0x10 3, opcodeMask,
      [.opcode "set", resultType7, dst, carryOut30, comparison, signedness5, src1,
       integerSource2, carryIn6, setCombination]⟩,
     ⟨code 0x18 3, opcodeMask,
      [.opcode "set", predicateDst, predicateDst2, comparison, signedness5, src1,
       integerSource2, carryIn6, setCombination]⟩,
     ⟨code 0x20 3, opcodeMask,
      [addition, saturate38, dst, carryOut30, "mul", highHalf6, signedness7, src1, signedness5,
       integerSource2Of3, source3, carryIn37]⟩,
     ⟨code 0x28 3, opcodeMask,
      [.opcode "ins", "b32", dst, carryOut30, src1, integerSource2Of3, source3]⟩,
     ⟨code 0x30 3, opcodeMask,
      [.opcode "slct", "b32", dst, src1, integerSource2Of3, comparison, signedness5,
       source3]⟩,
     ⟨code 0x38 3, opcodeMask,
      [.opcode "sad", signedness5, dst, carryOut30, src1, integerSource2Of3, source3]⟩,
     ⟨code 0x40 3, opcodeMask,
      [shiftedAddition, "b32", dst, carryOut30, "shl", src1, shiftCount, integerSource2]⟩,
     ⟨code 0x48 3, opcodeMask,
      [addition, saturate5, "b32", dst, carryOut30, src1, integerSource2, carryIn6]⟩,
     ⟨code 0x50 3, opcodeMask,
      [.opcode "mul", highHalf6, dst, carryOut30, signedness7, src1, signedness5,
       integerSource2]⟩,
     ⟨code 0x58 3, opcodeMask,
      [.opcode "shr", reversed, signedness5, dst, carryOut30, src1, shiftClamp,
       integerSource2, carryIn7]⟩,
     ⟨code 0x60 3, opcodeMask,
      [.opcode "shl", "b32", dst, carryOut30, src1, shiftClamp, integerSource2, carryIn6]⟩,
     ⟨code 0x68 3, opcodeMask,
      [logic, "b32", dst, carryOut30, not9, src1, not8, integerSource2, carryIn5]⟩,
     -- the bits of what is extracted may be reversed
     ⟨code 0x70 3, opcodeMask,
      [.opcode "ext", reversed, signedness5, dst, carryOut30, src1, integerSource2]⟩,
     -- the highest bit that is set or, of a signed number, differs from the sign
     ⟨code 0x78 3, opcodeMask,
      [.opcode "bfind", shiftAmount, signedness5, dst, carryOut30, not8, integerSource2]⟩,
     .unknown ["b32", dst, src1, integerSource2Of3, source3]]

end Codeword.Fermi
