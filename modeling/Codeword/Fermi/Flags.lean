import Codeword.Fermi.Immediates
import Codeword.Fermi.Modes

namespace Codeword.Fermi

def saturate5 : Table := .flag "SAT5" 5 ["sat"]
def saturate9 : Table := .flag "SAT9" 9 ["sat"]
def saturate31 : Table := .flag "SAT31" 0x31 ["sat"]
def saturate38 : Table := .flag "SAT38" 0x38 ["sat"]

/-- Denormal numbers are taken for zero. -/
def flush5 : Table := .flag "FTZ5" 5 ["ftz"]
def flush6 : Table := .flag "FTZ6" 6 ["ftz"]
def flush3b : Table := .flag "FTZ3B" 0x3b ["ftz"]
def flush37 : Table := .flag "FTZ37" 0x37 ["ftz"]

/-- Zero times anything is zero. -/
def zeroProduct : Table := .flag "FMZ7" 7 ["fmz"]

def negate39 : Table := .flag "NEG39" 0x39 ["neg"]
def negate9 : Table := .flag "NEG9" 9 ["neg"]
def negate8 : Table := .flag "NEG8" 8 ["neg"]
def absolute7 : Table := .flag "ABS7" 7 ["abs"]
def absolute6 : Table := .flag "ABS6" 6 ["abs"]
def not9 : Table := .flag "NOT9" 9 ["not"]
def not8 : Table := .flag "NOT8" 8 ["not"]

def roundToInteger : Table := .flag "RINT" 7 [integerRounding]
def reversed : Table := .flag "REV" 8 ["rev"]
def shiftAmount : Table := .flag "SHIFTAMT" 6 ["shiftamt"]
def highHalf5 : Table := .flag "HIGH5" 5 ["high"]
def highHalf6 : Table := .flag "HIGH6" 6 ["high"]
def allWarp : Table := .flag "BRAWARP" 0xf ["allwarp"]
def limited : Table := .flag "LIM" 0x10 ["lim"]

def carryOut30 : Table := .flag "ACOUT30" 0x30 [conditionCode]
def carryOut3a : Table := .flag "ACOUT3A" 0x3a [conditionCode]

def carryIn5 : Table := .flag "ACIN5" 5 [conditionCode]
def carryIn6 : Table := .flag "ACIN6" 6 [conditionCode]
def carryIn7 : Table := .flag "ACIN7" 7 [conditionCode]
def carryIn37 : Table := .flag "ACIN37" 0x37 [conditionCode]

def notPredicate1 : Table := .flag "PNOT1" 0x17 ["not"]
def notPredicate2 : Table := .flag "PNOT2" 0x1d ["not"]
def notPredicate3 : Table := .flag "PNOT3" 0x34 ["not"]

def resultType5 : Table := .choice "SETDT5" 5 ["b32"] ["f32"]
def resultType7 : Table := .choice "SETDT7" 7 ["b32"] ["f32"]
def shiftClamp : Table := .choice "SHCLAMP" 9 ["clamp"] ["wrap"]
def videoShiftClamp : Table := .choice "VSCLAMP" 7 ["clamp"] ["wrap"]
def signedness5 : Table := .choice "US32_5" 5 ["u32"] ["s32"]
def signedness6 : Table := .choice "US32_6" 6 ["u32"] ["s32"]
def signedness7 : Table := .choice "US32_7" 7 ["u32"] ["s32"]
def signedness2a : Table := .choice "US32_2A" 0x2a ["u32"] ["s32"]
def byteSignedness5 : Table := .choice "US8_5" 5 ["u8"] ["s8"]
def byteSignedness6 : Table := .choice "US8_6" 6 ["u8"] ["s8"]
def byteSignedness39 : Table := .choice "US8_39" 0x39 ["u8"] ["s8"]

def barrierSource : Table := .choice "BAR_SRC" 0x2f [src1] [barrier]
def threadCountSource : Table := .choice "TCNT_SRC" 0x2e [src2] [threadCount]

def derivative : Table := .flag "DTEX" 0x2d ["deriv"]
def textureLanes : Table := .choice "LTEX" 9 ["all"] ["live"]

def textureFlags : Table :=
  { name := "TEXF", rows := [.otherwise [textureLanes, derivative]] }

def minMax : Table where
  name := "minmax"
  rows :=
    [⟨0x000e_0000_0000_0000, 0x001e_0000_0000_0000, [.opcode "min"]⟩,
     ⟨0x001e_0000_0000_0000, 0x001e_0000_0000_0000, [.opcode "max"]⟩,
     .otherwise [.opcode "minmax", notPredicate3, predicateSrc3]]

end Codeword.Fermi
