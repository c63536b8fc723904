import Codeword.Fermi.Registers

namespace Codeword.Fermi

def based (space : String) (displacement : Field) (base : Register) : Atom :=
  .memory { space := some space, displacement, base := some base }

/-- The high three bits of the displacement stand apart. -/
def atomicOffset : Field :=
  { layout := { pieces := [⟨0x37, 3⟩, ⟨0x1a, 17⟩] }, signed := true }

def cacheOffset : Field := { Field.sbits 0x1c 30 with shift := 2 }

def global : Atom := based "g" (.sbits 0x1a 32) (general 0x14)
def globalWide : Atom := based "g" (.sbits 0x1a 32) (pair 0x14)
def atomicGlobal : Atom := based "g" atomicOffset (general 0x14)
def atomicGlobalWide : Atom := based "g" atomicOffset (pair 0x14)
def cacheGlobal : Atom := based "g" cacheOffset (general 0x14)
def cacheGlobalWide : Atom := based "g" cacheOffset (pair 0x14)
def shared : Atom := based "s" (.sbits 0x1a 24) (general 0x14)
def localMemory : Atom := based "l" (.sbits 0x1a 24) (general 0x14)
def varying : Atom := based "v" (.bits 0x20 16) (general 0x14)

def vertexAttribute : Atom := .memory
  { space := some "a", displacement := .bits 0x20 16, base := some (general 0x14)
    index := some (general 0x1a) }

def constant : Atom := .memory
  { space := some "c", displacement := .bits 0x1a 16, bank := some (.bits 0x2a 4) }

def constantIndexed : Atom := .memory
  { space := some "c", displacement := .sbits 0x1a 16, bank := some (.bits 0x2a 4)
    base := some (general 0x14) }

/-- The base address of a vertex, for tessellation and geometry programs. -/
def vertexBase : Atom := .memory
  { space := none, displacement := .bits 0x1a 6, base := some (general 0x14) }

/-- Bit 0x3a says whether a global address is 64 bits wide, in a register pair. -/
def globalAddress : Table := .choice "gmem" 0x3a [global] [globalWide]
def atomicAddress : Table := .choice "gamem" 0x3a [atomicGlobal] [atomicGlobalWide]
def cacheAddress : Table := .choice "gcmem" 0x3a [cacheGlobal] [cacheGlobalWide]

end Codeword.Fermi
