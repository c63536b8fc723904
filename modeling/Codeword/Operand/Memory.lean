import Codeword.Operand.Register

namespace Codeword

/-- A memory operand: an optional space, constant bank, base and index register, and a
displacement. -/
structure Memory where
  space : Option String
  displacement : Field
  bank : Option Field := none
  base : Option Register := none
  index : Option Register := none
  deriving DecidableEq

/-- Only an operand with a bank can have a symbol. -/
def Memory.decode (m : Memory) (word address : Word) (symbols : Symbols) : MemoryValue :=
  let bank := m.bank.map fun f => (f.extract word address).toNat
  let displacement := (m.displacement.extract word address).toInt
  { space := m.space
    bank
    base := m.base.map (·.decode word address)
    index := m.index.map (·.decode word address)
    displacement
    symbol := bank.bind (symbols.constant · displacement) }

end Codeword
