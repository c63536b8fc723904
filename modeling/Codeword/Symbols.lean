import Codeword.Word

namespace Codeword

inductive TargetKind
  | branch
  | call
  | number
  deriving DecidableEq, Repr

structure Symbols where
  constant : (bank : Nat) → (offset : Int) → Option String
  target : (address : Word) → TargetKind → Option String

namespace Symbols

def empty : Symbols := ⟨fun _ _ => none, fun _ _ => none⟩

structure Constant where
  bank : Nat
  offset : Int
  name : String

structure Target where
  address : Word
  kind : TargetKind
  name : String

/-- The first entry that agrees in every key names the item. -/
def ofLists (constants : List Constant) (targets : List Target) : Symbols where
  constant bank offset :=
    (constants.find? fun c => c.bank = bank ∧ c.offset = offset).map Constant.name
  target address kind :=
    (targets.find? fun t => t.address = address ∧ t.kind = kind).map Target.name

end Symbols

end Codeword
