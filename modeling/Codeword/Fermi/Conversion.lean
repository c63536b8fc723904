import Codeword.Fermi.Sources

namespace Codeword.Fermi

def destinationSize : Word := 0x30_0000
def destinationType : Word := 0x30_0080
def sourceSize : Word := 0x380_0000
def sourceType : Word := 0x380_0200

def floatDestination : Table where
  name := "cvtfdst"
  rows :=
    [⟨0x10_0000, destinationSize, ["f16", dst, carryOut30]⟩,
     ⟨0x20_0000, destinationSize, ["f32", dst, carryOut30]⟩,
     ⟨0x30_0000, destinationSize, ["f64", dstPair, carryOut30]⟩,
     .unknown [dst]]

def integerDestinations : List (Word × String) :=
  [(0x00_0000, "u8"), (0x00_0080, "s8"), (0x10_0000, "u16"), (0x10_0080, "s16"),
   (0x20_0000, "u32"), (0x20_0080, "s32"), (0x30_0000, "u64"), (0x30_0080, "s64")]

def integerDestinationRow (value : Word) (type : String) : Row :=
  let data := if value &&& destinationSize = destinationSize then dstPair else dst
  ⟨value, destinationType, [type, data, carryOut30]⟩

def integerDestination : Table where
  name := "cvtidst"
  rows := integerDestinations.map (fun (v, t) => integerDestinationRow v t) ++ [.unknown [dst]]

/-- A float has no integer of one byte. -/
def floatToIntegerDestination : Table where
  name := "cvtf2idst"
  rows := (integerDestinations.drop 2).map (fun (v, t) => integerDestinationRow v t) ++
    [.unknown [dst]]

def floatSource : Table where
  name := "cvtf2isrc"
  rows :=
    [⟨0x080_0000, sourceSize, [negate8, absolute6, "f16", halfNumber, integerSource2]⟩,
     ⟨0x100_0000, sourceSize, [negate8, absolute6, "f32", floatSource2]⟩,
     ⟨0x180_0000, sourceSize, [negate8, absolute6, "f64", doubleSource2]⟩,
     .unknown [negate8, absolute6, src2]]

def integerSources : List (Word × String × List Atom) :=
  [(0x000_0000, "u8", [byteNumber]), (0x000_0200, "s8", [byteNumber]),
   (0x080_0000, "u16", [halfNumber]), (0x080_0200, "s16", [halfNumber]),
   (0x100_0000, "u32", []), (0x100_0200, "s32", []),
   (0x180_0000, "u64", []), (0x180_0200, "s64", [])]

def integerSourceRow (value : Word) (type : String) (part : List Atom) : Row :=
  let source : Table :=
    if value &&& sourceSize = 0x180_0000 then longSource2 else integerSource2
  ⟨value, sourceType, negate8 :: absolute6 :: type :: (part ++ [.table source])⟩

def integerSource : Table where
  name := "cvtisrc"
  rows := integerSources.map (fun (v, t, p) => integerSourceRow v t p) ++
    [.unknown [negate8, absolute6, src2]]

/-- Between integers there are no sources of 64 bits. -/
def integerToIntegerSource : Table where
  name := "cvti2isrc"
  rows := (integerSources.take 6).map (fun (v, t, p) => integerSourceRow v t p) ++
    [.unknown [negate8, absolute6, src2]]

/-- A conversion between floats: its sizes, its rounding, its destination and its source.
Rounding to the same size makes an integer. -/
structure FloatConversion where
  sizes : Word
  rounding : Option Table
  destinationType : String
  destination : Atom
  sourceType : String
  source : Table
  part : List Atom := []

def floatConversions : List FloatConversion :=
  [⟨0x090_0000, some roundToInteger, "f16", dst, "f16", integerSource2, [halfNumber]⟩,
   ⟨0x120_0000, some roundToInteger, "f32", dst, "f32", floatSource2, []⟩,
   ⟨0x1b0_0000, some roundToInteger, "f64", dstPair, "f64", doubleSource2, []⟩,
   ⟨0x110_0000, some convertRounding, "f16", dst, "f32", floatSource2, []⟩,
   ⟨0x1a0_0000, some convertRounding, "f32", dst, "f64", doubleSource2, []⟩,
   ⟨0x0a0_0000, none, "f32", dst, "f16", integerSource2, [halfNumber]⟩,
   ⟨0x130_0000, none, "f64", dstPair, "f32", floatSource2, []⟩]

def FloatConversion.atoms (c : FloatConversion) : List Atom :=
  let rounding : List Atom := (c.rounding.map Atom.table).toList
  let types : List Atom :=
    [c.destinationType, c.destination, carryOut30, negate8, absolute6, c.sourceType, c.source]
  .opcode "cvt" :: flush37 :: saturate5 :: (rounding ++ types ++ c.part)

end Codeword.Fermi
