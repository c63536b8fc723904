import Codeword.Field.Basic
import Codeword.Operand.Basic

namespace Codeword

/-- Consecutive registers of one file. A mask, if there is one, says which slots hold a
register. -/
structure VectorGroup where
  file : String
  base : Field
  count : Field
  mask : Option Field := none
  deriving DecidableEq

namespace VectorGroup

/-- Hand out consecutive numbers to the slots that are present. The counter has no end, so that
this is exact only where it stays below 2^64, also behind the last register. -/
def fill (next : Nat) : List Bool → List (Option Nat)
  | [] => []
  | true :: ps => some next :: fill (next + 1) ps
  | false :: ps => none :: fill next ps

def slotCount (g : VectorGroup) (word address : Word) : Nat :=
  min (g.count.extract word address).toInt.toNat 64

def isPresent (g : VectorGroup) (word address : Word) (slot : Nat) : Bool :=
  match g.mask with
  | none => true
  | some m => (m.extract word address).getLsbD slot

def decode (g : VectorGroup) (word address : Word) : List (Option Nat) :=
  fill (g.base.extract word address).toNat
    ((List.range (g.slotCount word address)).map (g.isPresent word address))

end VectorGroup

end Codeword
