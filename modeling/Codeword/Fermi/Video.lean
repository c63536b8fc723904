import Codeword.Fermi.Sources

namespace Codeword.Fermi

def videoOperation : Table :=
  .enumerate "vdst" 0x37 3 (names ["h1", "h0", "b0", "b2", "add", "min", "max", ""])

def parts : List String := ["b0", "b1", "b2", "b3", "h0", "h1", ""]

def videoPart1 : Table := .enumerate "vsrc1" 0x2c 3 (names parts)
def videoPart2 : Table := .enumerate "vsrc2" 0x20 3 (names parts)

/-- The second source is an immediate unless bit 0x2f is set. -/
def videoSource2 : Table := .enumerate "vs2" 0x2f 1 [some [videoImm], some [src2]]
def video4Source2 : Table := .enumerate "v4s2" 0x2f 1 [some [video4Imm], some [src2]]

def packedOperation : Table := .enumerate "v4dst" 0x2c 3 <|
  names ["", "simd_min", "simd_max"] ++ none :: names ["add", "min", "max"]

def nameAtoms (name : String) : List Atom := if name = "" then [] else [.modifier name]

/-- The components that are written, x and y in one place and z and w in another. All four
go without saying. -/
def byteMask : Table where
  name := "v4dmask"
  rows :=
    (["none", "x", "y", "xy", "z", "xz", "yz", "xyz", "w", "xw", "yw", "xyw", "zw", "xzw",
      "yzw", ""].zipIdx.map fun (name, i) =>
      ⟨BitVec.ofNat 64 (i % 4) <<< 0x37 ||| BitVec.ofNat 64 (i / 4) <<< 0x22,
       3 <<< 0x37 ||| 3 <<< 0x22, nameAtoms name⟩) ++
    [.unknown []]

def halfMask : Table := .enumerate "v2dmask" 0x37 2 (names ["none", "x", "y", ""])

def bytes1 : Table := .enumerate "v4src1" 0x28 4 (names
  ["b0", "b1", "b2", "b3", "", "b1234", "b2345", "b3456", "b1023", "b2103", "b3120",
   "b0213", "b0321", "b0132"])

def bytes2 : Table := .enumerate "v4src2" 0x24 4 (names
  ["b4", "b5", "b6", "b7", "", "b3456", "b2345", "b1234", "b7654", "b5476", "b6745"])

def longForm : Word := 1 <<< 0x2f

def halfRows (start : Nat) (ns : List String) : List Row :=
  ns.zipIdx.map fun (name, i) =>
    ⟨BitVec.ofNat 64 i <<< start ||| longForm, 0xf <<< start ||| longForm, nameAtoms name⟩

/-- The short form has no low two bits. -/
def halves1 : Table where
  name := "v2src1"
  rows :=
    [⟨0x0 <<< 0x28, 0xc <<< 0x28 ||| longForm, ["h0"]⟩,
     ⟨0x4 <<< 0x28, 0xc <<< 0x28 ||| longForm, ["h10"]⟩,
     ⟨0x8 <<< 0x28, 0xc <<< 0x28 ||| longForm, []⟩,
     ⟨0xc <<< 0x28, 0xc <<< 0x28 ||| longForm, ["h1"]⟩] ++
    halfRows 0x28 ["h0", "h10", "h20", "h30", "", "h1", "h21", "h31", "h02", "h12", "h2",
      "h32", "h03", "h13", "h23", "h3"] ++
    [.unknown []]

/-- The short form is for an immediate, which has no halves. -/
def halves2 : Table where
  name := "v2src2"
  rows :=
    ⟨0, longForm, []⟩ ::
    (halfRows 0x24 ["h0", "h10", "h20", "h30", "h01", "h1", "h21", "h31", "h02", "h12", "h2",
      "h32", "h03", "h13", "", "h3"] ++
    [.unknown []])

def productSum : Table :=
  .enumerate "vmop" 7 2 (names ["add", "sub", "subr", "addpo"])
def productShift : Table := .enumerate "vmshr" 0x37 2 (names ["", "shr7", "shr15"])

def videoComparison : Table := .enumerate "vsetop" 7 3 (names
  ["false", "lt", "eq", "le", "gt", "ne", "ge", "true"])

def videoMask : Word := 0xfc00_0000_0000_0007

def videoCode (opcode : Word) : Word := opcode <<< 56 ||| 4

/-- Instructions on four bytes or two halves at once. -/
structure Packing where
  suffix : String
  code : Word
  mask : Table
  part1 : Table
  part2 : Table
  source2 : Table

def fourBytes : Packing := ⟨"4", 0x80, byteMask, bytes1, bytes2, video4Source2⟩

def twoHalves : Packing := ⟨"2", 0xa0, halfMask, halves1, halves2, videoSource2⟩

namespace Packing

variable (p : Packing)

def opcode (name : String) : Atom := .opcode (name ++ p.suffix)

def result : List Atom :=
  [saturate9, packedOperation, p.mask, byteSignedness39, dst, carryOut30]

def first : List Atom := [p.part1, byteSignedness6, src1]

def second : List Atom := [p.part2, byteSignedness5, p.source2]

def shiftBy : List Atom := [p.part2, p.source2]

def arithmetic (name : String) (last : List Atom) : List Atom :=
  p.opcode name :: (p.result ++ p.first ++ p.second ++ last)

def compare : List Atom :=
  let result : List Atom := [packedOperation, p.mask, dst, carryOut30, videoComparison]
  p.opcode "vset" :: (result ++ p.first ++ p.second ++ [src3])

def shift (name : String) : List Atom :=
  p.opcode name :: videoShiftClamp :: (p.result ++ p.first ++ p.shiftBy ++ [src3])

def rows : List Row :=
  [⟨videoCode p.code, videoMask ||| 0x180, p.arithmetic "vadd" [src3]⟩,
   ⟨videoCode p.code ||| 0x80, videoMask ||| 0x180, p.arithmetic "vsub" [src3]⟩,
   ⟨videoCode p.code ||| 0x100, videoMask ||| 0x180, p.arithmetic "vsubr" [src3]⟩,
   ⟨videoCode p.code ||| 0x180, videoMask ||| 0x180, p.arithmetic "vavg" [src3]⟩,
   ⟨videoCode (p.code + 4), videoMask ||| 0x80, p.arithmetic "vmin" [src3]⟩,
   ⟨videoCode (p.code + 4) ||| 0x80, videoMask ||| 0x80, p.arithmetic "vmax" [src3]⟩,
   ⟨videoCode (p.code + 8), videoMask, p.arithmetic "vabsdiff" [src3]⟩,
   ⟨videoCode (p.code + 0xc), videoMask, p.compare⟩,
   ⟨videoCode (p.code + 0x10), videoMask, p.shift "vshr"⟩,
   ⟨videoCode (p.code + 0x14), videoMask, p.shift "vshl"⟩,
   ⟨videoCode (p.code + 0x18), videoMask,
    p.arithmetic "vsel" [notPredicate3, predicateSrc3]⟩]

end Packing

def scalarVideo (name : String) (result : List Atom) (last : Atom) : List Atom :=
  let sources : List Atom :=
    [videoPart1, signedness6, src1, videoPart2, signedness5, videoSource2]
  .opcode name :: (result ++ sources ++ [last])

def scalarResult : List Atom := [saturate9, videoOperation, signedness2a, dst, carryOut30]

def scalarShiftResult : List Atom :=
  [videoShiftClamp, saturate9, videoOperation, signedness2a, carryOut30, dst]

def scalarVideoRows : List Row :=
  [⟨videoCode 0xc0, 0xf800_0000_0000_0187, scalarVideo "vadd" scalarResult src3⟩,
   ⟨videoCode 0xc0 ||| 0x080, 0xf800_0000_0000_0187, scalarVideo "vsub" scalarResult src3⟩,
   ⟨videoCode 0xc0 ||| 0x100, 0xf800_0000_0000_0187, scalarVideo "vsubr" scalarResult src3⟩,
   ⟨videoCode 0xc0 ||| 0x180, 0xf800_0000_0000_0187, scalarVideo "vaddpo" scalarResult src3⟩,
   ⟨videoCode 0xc8, 0xf800_0000_0000_0087, scalarVideo "vmin" scalarResult src3⟩,
   ⟨videoCode 0xc8 ||| 0x080, 0xf800_0000_0000_0087, scalarVideo "vmax" scalarResult src3⟩,
   ⟨videoCode 0xd0, 0xf800_0000_0000_0007, scalarVideo "vabsdiff" scalarResult src3⟩,
   ⟨videoCode 0xd8, 0xf800_0000_0000_0007,
    scalarVideo "vset" [videoOperation, dst, carryOut30, videoComparison] src3⟩,
   ⟨videoCode 0xe0, 0xf800_0000_0000_0007, scalarVideo "vshr" scalarShiftResult src3⟩,
   ⟨videoCode 0xe8, 0xf800_0000_0000_0007, scalarVideo "vshl" scalarShiftResult src3⟩,
   ⟨videoCode 0xf0, 0xf800_0000_0000_0007,
    scalarVideo "vmad" [productSum, saturate9, productShift, dst, carryOut30] src3⟩,
   ⟨videoCode 0xf8, 0xf800_0000_0000_0007,
    scalarVideo "vset" [predicateDst, predicateDst2, videoComparison] setCombination⟩]

end Codeword.Fermi
