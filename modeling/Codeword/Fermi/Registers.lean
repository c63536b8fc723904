import Codeword.Table.Build

namespace Codeword

/-- In the atoms of a row a table stands for itself and a string for a modifier. -/
instance : Coe Table Atom := ⟨.table⟩

instance : Coe String Atom := ⟨.modifier⟩

namespace Fermi

/-- A general register, 32 bits wide. The last one reads as zero. -/
def general (start : Nat) (h : Piece.fits start 6 := by exact Eq.refl true) : Register where
  field := some (.bits start 6 h)
  file := "r"
  specials := [(63, .zero)]

def anyGeneral (start : Nat) (suffix : String)
    (h : Piece.fits start 6 := by exact Eq.refl true) : Register where
  field := some (.bits start 6 h)
  file := "r"
  suffix

def pair (start : Nat) (h : Piece.fits start 6 := by exact Eq.refl true) : Register :=
  anyGeneral start "d" h

def quad (start : Nat) (h : Piece.fits start 6 := by exact Eq.refl true) : Register :=
  anyGeneral start "q" h

/-- The last predicate is always true. -/
def predicateIn (field : Field) : Register where
  field := some field
  file := "p"
  specials := [(7, .one)]

def predicate (start : Nat) (h : Piece.fits start 3 := by exact Eq.refl true) : Register :=
  predicateIn (.bits start 3 h)

def systemRegisters : List (Nat × Special) :=
  [(0x00, .named "laneid"),
   -- nwarpid in bits 8-14, nsmid in 20-28
   (0x02, .named "nphysid"),
   -- warpid in bits 8-12, smid in 20-28
   (0x03, .named "physid"),
   (0x04, .named "pm0"),
   (0x05, .named "pm1"),
   (0x06, .named "pm2"),
   (0x07, .named "pm3"),
   (0x10, .named "vtxcnt"),
   (0x11, .named "invoc"),
   (0x21, .named "tidx"),
   (0x22, .named "tidy"),
   (0x23, .named "tidz"),
   (0x25, .named "ctaidx"),
   (0x26, .named "ctaidy"),
   (0x27, .named "ctaidz"),
   (0x29, .named "ntidx"),
   (0x2a, .named "ntidy"),
   (0x2b, .named "ntidz"),
   (0x2c, .named "gridid"),
   (0x2d, .named "nctaidx"),
   (0x2e, .named "nctaidy"),
   (0x2f, .named "nctaidz"),
   -- where shared and local memory appear in global memory
   (0x30, .named "sbase"),
   (0x34, .named "lbase"),
   (0x37, .named "stackbase"),
   (0x38, .named "lanemask_eq"),
   (0x39, .named "lanemask_lt"),
   (0x3a, .named "lanemask_le"),
   (0x3b, .named "lanemask_gt"),
   (0x3c, .named "lanemask_ge"),
   (0x50, .named "clock"),
   (0x51, .named "clockhi")]

def dst : Atom := .register (general 0x0e)
def dstPair : Atom := .register (pair 0x0e)
def dstQuad : Atom := .register (quad 0x0e)
def src1 : Atom := .register (general 0x14)
def src1Pair : Atom := .register (pair 0x14)
def src2 : Atom := .register (general 0x1a)
def src2Pair : Atom := .register (pair 0x1a)
def src3 : Atom := .register (general 0x31)
def src3Pair : Atom := .register (pair 0x31)

/-- What an atomic operation found in memory. -/
def old : Atom := .register (general 0x2b)
def oldPair : Atom := .register (pair 0x2b)

def guardPredicate : Atom := .register (predicate 0x0a)
def predicateDst : Atom := .register (predicate 0x11)
def predicateDst2 : Atom := .register (predicate 0x0e)
def predicateSrc1 : Atom := .register (predicate 0x14)
def predicateSrc2 : Atom := .register (predicate 0x1a)
def predicateSrc3 : Atom := .register (predicate 0x31)

/-- Whether a lock was taken. Its number is split for global memory. -/
def globalLock : Atom :=
  .register (predicateIn { layout := { pieces := [⟨0x3a, 1⟩, ⟨8, 2⟩] } })
def sharedLock : Atom := .register (predicate 0x32)

def textureUnit : Atom := .register { field := some (.bits 0x20 7), file := "t" }
def sampler : Atom := .register { field := some (.bits 0x28 4), file := "s" }
def surface : Atom := .register { field := some (.bits 0x1a 3), file := "g" }

def conditionCode : Atom := .register (.fixed "c")
def flagsRegister : Atom := .register (.fixed "flags")

def systemRegister : Atom := .register
  { field := some (.bits 0x1a 7), file := "sr", specials := systemRegisters
    onlySpecial := true }

def countAt (start : Nat) (h : Piece.fits start 2 := by exact Eq.refl true) : Field :=
  { Field.bits start 2 h with addend := 1 }

def texelDst : Atom := .vector
  { file := "r", base := .bits 0x0e 6, count := .constant 4, mask := some (.bits 0x2e 4) }
def texelSrc : Atom := .vector { file := "r", base := .bits 0x14 6, count := countAt 0x34 }
def surfaceAddress : Atom := .vector
  { file := "r", base := .bits 0x14 6, count := countAt 0x2c }
def exportSrc : Atom := .vector { file := "r", base := .bits 0x1a 6, count := countAt 5 }
def vertexDst : Atom := .vector { file := "r", base := .bits 0x0e 6, count := countAt 5 }

end Fermi

end Codeword
