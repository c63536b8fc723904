import Codeword.Fermi.Addresses
import Codeword.Fermi.Modes

namespace Codeword.Fermi

/-! Two loads in one instruction: `ld` from shared or global memory and `ldu` from global
memory. One code in five bits tells the types of both. The displacements are scaled by
the size of the access. -/

def dualOffset (pieces : Layout) (scale : Nat) : Field :=
  { layout := pieces, signed := true, shift := scale }

def loadOffset (scale : Nat) : Field := dualOffset (.single 0x2b 10) scale

def uniformOffset (scale : Nat) : Field :=
  dualOffset { pieces := [⟨0x26, 5⟩, ⟨5, 5⟩] } scale

def loadShared (scale : Nat) : Atom := based "s" (loadOffset scale) (general 0x14)

def scaled (name : String) (scale : Nat) : String :=
  if scale = 0 then name else name ++ "s" ++ toString scale

def loadGlobal (scale : Nat) : Table :=
  .choice (scaled "lduld_gmem1" scale) 0x3b [based "g" (loadOffset scale) (general 0x14)]
    [based "g" (loadOffset scale) (pair 0x14)]

def uniformGlobal (scale : Nat) : Table :=
  .choice (scaled "lduld_gmem2" scale) 0x3a [based "g" (uniformOffset scale) (general 0x1a)]
    [based "g" (uniformOffset scale) (pair 0x1a)]

/-- The binary logarithm of the number of bytes that `ld` reads, for each code. -/
def loadScale (code : Nat) : Nat :=
  if code < 10 then 0
  else if code < 20 then 1
  else if code < 27 then 2
  else if code < 30 then 3
  else 4

/-- The same for `ldu`, whose types take turns. -/
def uniformScale (code : Nat) : Nat :=
  if code < 25 then
    match code % 5 with
    | 0 | 1 => 0
    | 2 | 3 => 1
    | _ => 2
  else
    match (code - 25) % 3 with
    | 0 => 3
    | 1 => 4
    | _ => 2

def perCode (name : String) (atoms : Nat → List Atom) : Table :=
  .enumerate name 0x35 5 ((List.range 32).map fun code => some (atoms code))

/-- The destination of `ld`. Any of the 64 registers is an ordinary one here. -/
def loaded (suffix : String) : Atom := .register (anyGeneral 0x20 suffix)

def loadAtoms (code : Nat) : List Atom :=
  if code < 5 then ["u8", loaded ""]
  else if code < 10 then ["s8", loaded ""]
  else if code < 15 then ["u16", loaded ""]
  else if code < 20 then ["s16", loaded ""]
  else if code < 27 then ["b32", loaded ""]
  else if code < 30 then ["b64", loaded "d"]
  else ["b128", loaded "q"]

def loadDestination : Table := perCode "ldulddst2" loadAtoms

def loadSharedSource : Table :=
  perCode "lduldsrc2s" fun code => [loadShared (loadScale code)]

def loadGlobalSource : Table :=
  perCode "lduldsrc2g" fun code => [loadGlobal (loadScale code)]

def uniformAtoms (code : Nat) : List Atom :=
  match uniformScale code with
  | 3 => ["b64", dstPair]
  | 4 => ["b128", dstQuad]
  | _ =>
    if code < 25 then
      match code % 5 with
      | 0 => ["u8", dst]
      | 1 => ["s8", dst]
      | 2 => ["u16", dst]
      | 3 => ["s16", dst]
      | _ => ["b32", dst]
    else ["b32", dst]

def uniformDestination : Table := perCode "ldulddst1" uniformAtoms

def uniformSource : Table :=
  perCode "lduldsrc1g" fun code => [uniformGlobal (uniformScale code)]

end Codeword.Fermi
