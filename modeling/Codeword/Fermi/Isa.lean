import Codeword.Decoder
import Codeword.Fermi.Control
import Codeword.Fermi.Integer
import Codeword.Fermi.MemoryAccess
import Codeword.Fermi.Texture

namespace Codeword.Fermi

/-- The class of an instruction is in its three lowest bits. -/
def ops : Table where
  name := "ops"
  rows :=
    [⟨0, 7, [float]⟩,
     ⟨1, 7, [double]⟩,
     ⟨2, 7, [longImmediate]⟩,
     ⟨3, 7, [integer]⟩,
     ⟨4, 7, [move]⟩,
     ⟨5, 7, [memory]⟩,
     ⟨6, 7, [texture]⟩,
     .unknown [dst, src1, integerSource2, src3]]

/-- Control flow guards itself. Bit 4 of any other instruction joins the threads of a warp
before it. -/
def root : Table where
  name := "root"
  rows :=
    [⟨7, 7, [control]⟩,
     ⟨0x00, 0x10, [guard, ops]⟩,
     ⟨0x10, 0x10, ["join", guard, ops]⟩,
     .unknown []]

/-- Shader code of the Fermi family: little-endian words of 64 bits. -/
def isa : Isa := { name := "nvc0", root }

end Codeword.Fermi
