import Codeword.Fermi.Registers

namespace Codeword.Fermi

/-- Relative to the next instruction. -/
def nearTarget : Field := { Field.sbits 26 24 with addend := 8, relative := true }

def farTarget : Field := .bits 26 32

def branchNear : Atom := .target .branch nearTarget
def callNear : Atom := .target .call nearTarget
def numberNear : Atom := .target .number nearTarget
def branchFar : Atom := .target .branch farTarget
def callFar : Atom := .target .call farTarget
def numberFar : Atom := .target .number farTarget

def imm : Atom := .immediate (.sbits 0x1a 20)

/-- The top 20 bits of a single. -/
def floatImm : Atom := .immediate { Field.bits 0x1a 20 with shift := 12 }

/-- The top 20 bits of a double. -/
def doubleImm : Atom := .immediate { Field.bits 0x1a 20 with shift := 44 }

def longImm : Atom := .immediate { Field.bits 0x1a 32 with wraps := true }

def videoImm : Atom := .immediate (.bits 0x1a 16)
def video4Imm : Atom := .immediate (.bits 0x1a 8)

def shiftCount : Atom := .immediate (.bits 5 5)

def byteNumber : Atom := .immediate (.bits 0x37 2)
def halfNumber : Atom := .immediate (.bits 0x38 1)

def barrier : Atom := .immediate (.bits 0x14 4)
def threadCount : Atom := .immediate (.bits 0x1a 12)
def eventMask : Atom := .immediate (.bits 0x1a 16)

end Codeword.Fermi
