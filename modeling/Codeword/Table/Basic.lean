import Codeword.Instruction
import Codeword.DecodeError
import Codeword.Operand.Memory
import Codeword.Operand.VectorGroup

namespace Codeword

mutual

inductive Atom
  | opcode (name : String)
  | modifier (text : String)
  | register (r : Register)
  | immediate (f : Field)
  | memory (m : Memory)
  | vector (g : VectorGroup)
  | target (kind : TargetKind) (f : Field)
  | table (t : Table)
  | unrecognized

/-- A row takes the words whose bits under `mask` are those of `value`. -/
structure Row where
  value : Word
  mask : Word
  atoms : List Atom

/-- Rows in order of precedence. Tables are told apart by name. -/
structure Table where
  name : String
  rows : List Row

end

structure Site where
  word : Word
  address : Word := 0
  symbols : Symbols := .empty

def Row.Matches (r : Row) (word : Word) : Prop := word &&& r.mask = r.value

instance (r : Row) (word : Word) : Decidable (r.Matches word) :=
  inferInstanceAs (Decidable (_ = _))

namespace Table

def find (t : Table) (word : Word) : Option Nat :=
  t.rows.findIdx? fun r => r.Matches word

end Table

mutual

def Table.tokens (s : Site) : Table → Except DecodeError (List Token)
  | ⟨name, rows⟩ => firstRow s name rows

def firstRow (s : Site) (name : String) : List Row → Except DecodeError (List Token)
  | [] => .error (.noMatchingRow name s.word)
  | ⟨value, mask, atoms⟩ :: rows =>
    if s.word &&& mask = value then atomTokens s atoms else firstRow s name rows

def atomTokens (s : Site) : List Atom → Except DecodeError (List Token)
  | [] => .ok []
  | a :: as => do
    let first ← a.tokens s
    let others ← atomTokens s as
    return first ++ others

def Atom.tokens (s : Site) : Atom → Except DecodeError (List Token)
  | .opcode name => .ok [.opcode name]
  | .modifier text => .ok [.modifier text]
  | .register r => .ok [.operand (.register (r.decode s.word s.address))]
  | .immediate f => .ok [.operand (.immediate (f.extract s.word s.address).toInt f.wraps)]
  | .memory m => .ok [.operand (.memory (m.decode s.word s.address s.symbols))]
  | .vector g => .ok [.operand (.vector g.file (g.decode s.word s.address))]
  | .target kind f =>
    let address := f.extract s.word s.address
    .ok [.operand (.target kind address (s.symbols.target address kind))]
  | .table t => t.tokens s
  | .unrecognized => .ok [.unrecognized]

end

theorem search_eq {α : Type} {word : Word} {search : List Row → α} {missing : α}
    {found : List Atom → α} (nil : search [] = missing)
    (cons : ∀ value mask atoms rows, search (⟨value, mask, atoms⟩ :: rows) =
      if word &&& mask = value then found atoms else search rows) (rows : List Row) :
    search rows =
      match rows.find? fun r => r.Matches word with
      | none => missing
      | some r => found r.atoms := by
  induction rows with
  | nil => exact nil
  | cons r rows ih =>
      obtain ⟨value, mask, atoms⟩ := r
      rw [cons, List.find?_cons]
      by_cases h : word &&& mask = value
      · simp [h, Row.Matches]
      · simp [h, Row.Matches, ih]

theorem firstRow_eq (s : Site) (name : String) (rows : List Row) :
    firstRow s name rows =
      match rows.find? fun r => r.Matches s.word with
      | none => .error (.noMatchingRow name s.word)
      | some r => atomTokens s r.atoms :=
  search_eq rfl (fun _ _ _ _ => rfl) rows

end Codeword
