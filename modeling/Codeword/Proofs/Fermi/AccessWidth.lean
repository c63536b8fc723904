import Codeword.Proofs.Fermi.DataTypes

namespace Codeword.Fermi

/-! An access moves data of one type between memory and registers. -/

def types (ms : List Mark) : List DataType := ms.filterMap Mark.type?

def suffixes (ms : List Mark) : List String := ms.filterMap Mark.suffix?

/-- One type is written, and all general registers are as wide as it. -/
def Suits (ms : List Mark) : Prop :=
  (types ms).length = 1 ∧ ∀ type ∈ types ms, ∀ suffix ∈ suffixes ms, suffix = type.suffix

instance (ms : List Mark) : Decidable (Suits ms) := inferInstanceAs (Decidable (_ ∧ _))

/-- Loads, stores, reductions, exchanges and comparisons. A reduction goes by its operation. -/
def accessNames : List String :=
  ["ld", "ldu", "st", "add", "min", "max", "inc", "dec", "and", "or", "xor", "exch", "cas"]

/-- A dual load makes two accesses. -/
def accesses (ms : List Mark) : List (List Mark) :=
  if .opcode "ld" ∈ ms ∧ .opcode "ldu" ∈ ms then
    [ms.takeWhile (· ≠ .opcode "ldu"), ms.dropWhile (· ≠ .opcode "ldu")]
  else [ms]

/-- An atomic addition of 64 bits that returns what it found. Its registers are written as single
ones. -/
def longAddition : List Mark :=
  [.opcode "ld", .type ⟨.unsigned, 64⟩, .register "", .register ""]

section Rows

variable {s : Site} {ts : List Token}

theorem memory_regular : memory.every (Table.excludes Atom.isOdd) = true := by decide +kernel

theorem memory_outlines_suit : ∀ o ∈ memory.outlines Atom.mark .nothing,
    (∃ name ∈ accessNames, o.marks.findSome? Mark.opcode? = some name) →
      ((∀ part ∈ accesses o.marks, Suits part) ↔ o.marks ≠ longAddition) := by
  decide +kernel

theorem ops_tokens_of_memory_class (h : s.word &&& 7 = 5) : ops.tokens s = memory.tokens s := by
  refine Eq.trans ?_ (atomTokens_singleton s memory)
  simp only [ops, Table.tokens, firstRow, h]
  rfl

end Rows

/-- The general registers of an access are as wide as its type, and those of a dual load each as
wide as the type that is loaded there. Only an atomic addition of 64 bits with a result is an
exception. -/
theorem access_suits_iff (symbols : Symbols) (word address : Word) (i : Instruction)
    (h : ({ isa, symbols } : Decoder).decode word address = .ok i) (hclass : word &&& 7 = 5)
    (hname : ∃ name ∈ accessNames, i.mnemonic = some name) :
    (∀ part ∈ accesses i.marks, Suits part) ↔ i.marks ≠ longAddition := by
  obtain ⟨ts, hts, hknown, rfl⟩ := Decoder.decode_eq_ok.1 h
  change root.tokens { word, address, symbols } = .ok ts at hts
  have hnot : word &&& 7 ≠ 7 := by
    rw [hclass]
    decide
  obtain ⟨us, hus, rfl⟩ := exists_ops_tokens_of_not_class hnot hts
  rw [ops_tokens_of_memory_class hclass] at hus
  obtain ⟨o, ho, -, hmarks⟩ := exists_markOutline _ _ memory_regular hus hknown
  rw [Instruction.mnemonic_eq_marks, Instruction.marks, hmarks] at hname
  rw [Instruction.marks, hmarks]
  exact memory_outlines_suit o ho hname

theorem access_suits_dual : ∃ i, decoder.decode 0xbbbfefc81840dfc5 0 = .ok i ∧
    (∀ part ∈ accesses i.marks, Suits part) ∧ accesses i.marks =
      [[.opcode "ld", .type ⟨.bits, 64⟩, .register "d"],
       [.opcode "ldu", .type ⟨.bits, 128⟩, .register "q"]] := by
  obtain ⟨i, hi, hname, hne, hparts⟩ : ∃ i, decoder.decode 0xbbbfefc81840dfc5 0 = .ok i ∧
      (∃ name ∈ accessNames, i.mnemonic = some name) ∧ i.marks ≠ longAddition ∧
      accesses i.marks = [[.opcode "ld", .type ⟨.bits, 64⟩, .register "d"],
        [.opcode "ldu", .type ⟨.bits, 128⟩, .register "q"]] :=
    ⟨_, rfl, by decide, by decide, by decide⟩
  exact ⟨i, hi, (access_suits_iff .empty _ 0 i hi (by decide) hname).2 hne, hparts⟩

/-- An addition of 64 bits to what register 6 points to, with registers 2 and 4. -/
theorem exists_unsuited : ∃ i, decoder.decode 0x507e100000611e05 0 = .ok i ∧
    0x507e100000611e05 &&& 7 = (5 : Word) ∧ i.mnemonic = some "ld" ∧
    i.tokens = [.opcode "ld", .modifier "add", .modifier "u64",
      .operand (.register (.numbered "r" 2 "")),
      .operand (.memory ⟨some "g", none, some (.numbered "r" 6 ""), none, 0, none⟩),
      .operand (.register (.numbered "r" 4 ""))] ∧
    ¬∀ part ∈ accesses i.marks, Suits part :=
  ⟨_, rfl, by decide, by decide, by decide, by decide⟩

end Codeword.Fermi
