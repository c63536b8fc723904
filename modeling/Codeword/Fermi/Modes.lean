import Codeword.Fermi.Registers

namespace Codeword.Fermi

/-- The modifier of each value of a field; the empty one is not written. -/
def names (ns : List String) : List (Option (List Atom)) :=
  ns.map fun n => some (if n = "" then [] else [.modifier n])

def opcodes (ns : List String) : List (Option (List Atom)) :=
  ns.map fun n => some [.opcode n]

def roundings : List String := ["rn", "rm", "rp", "rz"]

def addRounding : Table := .enumerate "farm" 0x37 2 (names roundings)
def convertRounding : Table := .enumerate "fcrm" 0x31 2 (names roundings)
def integerRounding : Table :=
  .enumerate "fcrmi" 0x31 2 (names ["rni", "rmi", "rpi", "rzi"])

def comparison : Table := .enumerate "setit" 0x37 4 (names
  ["false", "lt", "eq", "le", "gt", "ne", "ge", "num", "nan", "ltu", "equ", "leu", "gtu",
   "neu", "geu", "true"])

def conditions : List String :=
  ["never", "l", "e", "le", "g", "lg", "ge", "lge", "u", "lu", "eu", "leu", "gu", "lgu",
   "geu", "true", "no", "nc", "ns", "na", "a", "s", "c", "o"]

def condition : Table := .enumerate "setct" 20 6 (names conditions)

/-- The condition under which an instruction takes effect. `true` goes without saying. -/
def conditionGuard : Table := .enumerate "cc" 5 5 <|
  conditions.map fun n => some (if n = "true" then [] else [.modifier n, conditionCode])

def scale : Table := .enumerate "mulf" 0x31 3 <|
  (names ["", "mul2", "mul4", "mul8"]) ++ none :: names ["div2", "div4", "div8"]

def permutation : Table :=
  .enumerate "prmtmod" 5 3 (names ["", "f4e", "b4e", "rc8", "ecl", "ecr", "rc16"])

def loadCache : Table := .enumerate "lcop" 8 2 (names ["ca", "cg", "cs", "cv"])
def storeCache : Table := .enumerate "scop" 8 2 (names ["wb", "cg", "cs", "wt"])

def surfaceClamp : Table := .enumerate "sclamp" 0x2f 2 (names ["zero", "clamp", "trap"])

def cacheOperation : Table := .enumerate "cctlop" 5 5 (names
  ["query1", "pf1", "pf15", "pf2", "wb", "iv", "ivall", "rs"])
def cacheSpace : Table := .enumerate "cctlmod" 26 2 (names ["", "u", "c", "i"])

/-- The lanes that take part; all of them is the rule. -/
def lanes : Table := .enumerate "lane" 5 4 (names
  ["lnone", "l0", "l1", "l01", "l2", "l02", "l12", "l012", "l3", "l03", "l13", "l013",
   "l23", "l023", "l123", ""])

def quadLane : Table :=
  .enumerate "qs1" 6 3 (names ["l0", "l1", "l2", "l3", "dx", "dy"])

def quadOperations : List String := ["add", "subr", "sub", "mov2"]

def quadOperation0 : Table := .enumerate "qop0" 38 2 (names quadOperations)
def quadOperation1 : Table := .enumerate "qop1" 36 2 (names quadOperations)
def quadOperation2 : Table := .enumerate "qop2" 34 2 (names quadOperations)
def quadOperation3 : Table := .enumerate "qop3" 32 2 (names quadOperations)

def accessType : Table := .enumerate "ldstt" 5 3 (names
  ["u8", "s8", "u16", "s16", "b32", "b64", "b128"])

def accessData : Table where
  name := "ldstd"
  rows :=
    ([dst, dst, dst, dst, dst, dstPair, dstQuad].zipIdx.map fun (data, size) =>
      ⟨BitVec.ofNat 64 size <<< 5, 0xe0, [data]⟩) ++ [.unknown [dst]]

def fetchWidth : Table :=
  .enumerate "ldvf" 5 3 (names ["b32", "b64", "b96", "b128"])

def sums : List String := ["add", "sub", "subr", "addpo"]

def addition : Table := .enumerate "addop" 8 2 (opcodes sums)
def shiftedAddition : Table := .enumerate "addop2" 0x37 2 (opcodes sums)
def logic : Table := .enumerate "logop" 6 2 (opcodes ["and", "or", "xor", "mov2"])

def reduction : Table := .enumerate "redop" 5 4 (opcodes
  ["add", "min", "max", "inc", "dec", "and", "or", "xor"])

def signedReduction : Table := .enumerate "redops" 5 4 (opcodes ["add", "min", "max"])

end Codeword.Fermi
