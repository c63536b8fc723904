import Codeword.Fermi.Sources

namespace Codeword.Fermi

def opcodeMask : Word := 0xf800_0000_0000_0007

/-- An opcode in the highest bits. The class is in the lowest three. -/
def code (opcode : Word) (cls : Word) : Word := opcode <<< 56 ||| cls

def operands2 (first : Atom) (second : Table) : List Atom :=
  [negate9, absolute7, first, negate8, absolute6, second]

def floatRows : List Row :=
  [⟨code 0x08 0, opcodeMask,
    minMax :: flush5 :: "f32" :: dst :: carryOut30 :: operands2 src1 floatSource2⟩,
   ⟨code 0x10 0, 0xf000_0000_0000_0007,
    .opcode "set" :: flush3b :: resultType5 :: dst :: carryOut30 :: comparison :: "f32" ::
      (operands2 src1 floatSource2 ++ [.table setCombination])⟩,
   ⟨code 0x20 0, 0xf000_0000_0000_0007,
    .opcode "set" :: flush3b :: predicateDst :: predicateDst2 :: comparison :: "f32" ::
      (operands2 src1 floatSource2 ++ [.table setCombination])⟩,
   ⟨code 0x30 0, opcodeMask,
    [.opcode "add", flush6, saturate5, addRounding, "f32", dst, carryOut30, negate9, "mul",
     zeroProduct, src1, floatSource2Of3, negate8, source3]⟩,
   ⟨code 0x38 0, opcodeMask,
    [.opcode "slct", flush5, "b32", dst, src1, floatSource2Of3, comparison, "f32", source3]⟩,
   ⟨code 0x48 0, opcodeMask,
    [.opcode "quadop", flush5, addRounding, "f32", quadOperation0, quadOperation1,
     quadOperation2, quadOperation3, dst, carryOut30, quadLane, src1, src2]⟩,
   ⟨code 0x50 0, opcodeMask,
    .opcode "add" :: flush5 :: saturate31 :: addRounding :: "f32" :: dst :: carryOut30 ::
      operands2 src1 floatSource2⟩,
   ⟨code 0x58 0, opcodeMask,
    [.opcode "mul", scale, zeroProduct, flush6, saturate5, addRounding, negate39, "f32", dst,
     carryOut30, src1, floatSource2]⟩,
   ⟨code 0x60 0, opcodeMask ||| 0x20,
    [.opcode "presin", "f32", dst, negate8, absolute6, floatSource2]⟩,
   ⟨code 0x60 0 ||| 0x20, opcodeMask ||| 0x20,
    [.opcode "preex2", "f32", dst, negate8, absolute6, floatSource2]⟩]

def interpolate : Word := 0xc07e_0000_0000_0000

def interpolateMask : Word := 0xf87e_0000_0000_01c7

/-- No second source: register 63. -/
def noSource2 : Word := 0xfc00_0000

/-- The mode is in bits 6 to 8. A mode without a multiplier has no second source. -/
def interpolateRows : List Row :=
  [⟨interpolate ||| noSource2, interpolateMask ||| noSource2,
    [.opcode "interp", "f32", dst, varying]⟩,
   ⟨interpolate ||| 0x40, interpolateMask, [.opcode "interp", "f32", dst, src2, varying]⟩,
   ⟨interpolate ||| noSource2 ||| 0x80, interpolateMask ||| noSource2,
    [.opcode "interp", "f32", dst, "flat", varying]⟩,
   ⟨interpolate ||| noSource2 ||| 0x100, interpolateMask ||| noSource2,
    [.opcode "interp", "f32", dst, "cent", varying]⟩,
   ⟨interpolate ||| 0x140, interpolateMask,
    [.opcode "interp", "f32", dst, "cent", src2, varying]⟩]

/-- The functions of the special function unit. The last two take half of a double. -/
def specialFunctions : List (String × List Atom) :=
  [("cos", ["f32"]), ("sin", ["f32"]), ("ex2", ["f32"]), ("lg2", ["f32"]), ("rcp", ["f32"]),
   ("rsqrt", ["f32"]), ("rcp64h", []), ("rsqrt64h", [])]

def specialFunctionRows : List Row :=
  specialFunctions.zipIdx.map fun ((name, type), i) =>
    ⟨code 0xc8 0 ||| BitVec.ofNat 64 i <<< 0x1a, opcodeMask ||| 0x1c00_0000,
     .opcode name :: saturate5 :: (type ++ [dst, .table negate9, .table absolute7, src1])⟩

/-- Single precision, class 0. -/
def float : Table where
  name := "float"
  rows := floatRows ++ interpolateRows ++ specialFunctionRows ++
    [.unknown [addRounding, "f32", dst, src1, floatSource2Of3, source3]]

/-- Double precision, class 1. -/
def double : Table where
  name := "double"
  rows :=
    [⟨code 0x08 1, opcodeMask,
      minMax :: "f64" :: dstPair :: carryOut30 :: operands2 src1Pair doubleSource2⟩,
     ⟨code 0x10 1, opcodeMask,
      .opcode "set" :: resultType5 :: dst :: carryOut30 :: comparison :: "f64" ::
        (operands2 src1Pair doubleSource2 ++ [.table setCombination])⟩,
     ⟨code 0x18 1, opcodeMask,
      .opcode "set" :: predicateDst :: predicateDst2 :: comparison :: "f64" ::
        (operands2 src1Pair doubleSource2 ++ [.table setCombination])⟩,
     ⟨code 0x20 1, opcodeMask,
      [.opcode "fma", addRounding, "f64", dstPair, carryOut30, negate9, src1Pair,
       doubleSource2, negate8, src3Pair]⟩,
     ⟨code 0x48 1, opcodeMask,
      .opcode "add" :: addRounding :: "f64" :: dstPair :: carryOut30 ::
        operands2 src1Pair doubleSource2⟩,
     ⟨code 0x50 1, opcodeMask,
      [.opcode "mul", addRounding, negate9, "f64", dstPair, carryOut30, src1Pair,
       doubleSource2]⟩,
     .unknown [addRounding, "f64", dstPair, src1Pair, doubleSource2, src3Pair]]

end Codeword.Fermi
