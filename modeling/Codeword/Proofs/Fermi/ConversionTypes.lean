import Codeword.Proofs.Fermi.DataTypes
import Codeword.Proofs.Fermi.Mnemonics

namespace Codeword.Fermi

open Word

/-- Where a word tells the type of a number: in two single bits and in two bits for the size. -/
structure TypeField where
  integer : Nat
  signed : Nat
  size : Nat

namespace TypeField

variable {f : TypeField} {k : Known} {t : DataType} {a b word : Word}

def read (f : TypeField) (word : Word) : DataType where
  number :=
    if word.getLsbD f.integer then if word.getLsbD f.signed then .signed else .unsigned
    else .float
  width := 8 <<< (word.extractLsb' f.size 2).toNat

/-- The bits that matter. A float has no bit for a sign. -/
def reads (f : TypeField) (word : Word) : Word :=
  lowBits 1 <<< f.integer ||| lowBits 2 <<< f.size |||
    if word.getLsbD f.integer then lowBits 1 <<< f.signed else 0

theorem read_congr (h : AgreeOn (f.reads b) a b) : f.read a = f.read b := by
  simp only [reads, agreeOn_or] at h
  obtain ⟨⟨hinteger, hsize⟩, hsigned⟩ := h
  have hinteger : a.getLsbD f.integer = b.getLsbD f.integer := hinteger.getLsbD Nat.one_pos
  rw [read, read, hinteger, hsize.extractLsb']
  split at hsigned
  next hset =>
    have hsigned : a.getLsbD f.signed = b.getLsbD f.signed := hsigned.getLsbD Nat.one_pos
    rw [hsigned]
  next hset => rw [if_neg hset, if_neg hset]

def Tells (f : TypeField) (k : Known) (t : DataType) : Prop :=
  f.reads k.value &&& k.mask = f.reads k.value ∧ f.read k.value = t

instance (f : TypeField) (k : Known) (t : DataType) : Decidable (f.Tells k t) :=
  inferInstanceAs (Decidable (_ ∧ _))

theorem Tells.read_eq (h : f.Tells k t) (hk : k.Holds word) : f.read word = t :=
  (read_congr (Known.agreeOn hk h.1)).trans h.2

end TypeField

/-- The type that a conversion makes and the type that it takes. The opcode says which of them are
integers. -/
def destinationField : TypeField := { integer := 58, signed := 7, size := 20 }

def sourceField : TypeField := { integer := 59, signed := 9, size := 23 }

/-- What a conversion says: its types, each with the suffix of its register. The source may be
something else than a register. -/
structure Conversion where
  destination : DataType
  destinationSuffix : String
  source : DataType
  sourceSuffix : Option String

namespace Conversion

def marks (c : Conversion) : List Mark :=
  [.opcode "cvt", .type c.destination, .register c.destinationSuffix, .type c.source] ++
    (c.sourceSuffix.map Mark.register).toList

def ofMarks : List Mark → Option Conversion
  | [.opcode _, .type d, .register x, .type s] => some ⟨d, x, s, none⟩
  | [.opcode _, .type d, .register x, .type s, .register y] => some ⟨d, x, s, some y⟩
  | _ => none

def Suits (c : Conversion) : Prop :=
  (c.destinationSuffix = "d" ↔ c.destination.width = 64) ∧
    ∀ suffix ∈ c.sourceSuffix, (suffix = "d" ↔ c.source.width = 64)

instance (c : Conversion) : Decidable c.Suits := inferInstanceAs (Decidable (_ ∧ _))

end Conversion

section Rows

variable {s : Site} {ts : List Token}

theorem move_regular : move.every (Table.excludes Atom.isOdd) = true := by decide +kernel

theorem move_outlines_convert : ∀ o ∈ move.outlines Atom.mark .nothing,
    o.marks.findSome? Mark.opcode? = some "cvt" → ∃ c ∈ Conversion.ofMarks o.marks,
      o.marks = c.marks ∧ destinationField.Tells o.known c.destination ∧
        sourceField.Tells o.known c.source ∧ c.Suits := by
  decide +kernel

theorem control_excludes_convert :
    control.every (Table.excludes (Atom.isOpcode "cvt")) = true := by
  decide +kernel

theorem ops_writers_convert : ops.writers (Atom.isOpcode "cvt") = [4] := by decide +kernel

theorem ops_tokens_convert (hts : ops.tokens s = .ok ts) (hconvert : .opcode "cvt" ∈ ts) :
    move.tokens s = .ok ts :=
  Table.tokens_of_writer ops_writers_convert rfl (detects_isOpcode "cvt" s) hts hconvert

end Rows

/-- A conversion writes the type that it makes before the type that it takes, both as the word
tells them, and each before its register, which is as wide. -/
theorem conversion_types (symbols : Symbols) (word address : Word) (i : Instruction)
    (h : ({ isa, symbols } : Decoder).decode word address = .ok i)
    (hname : i.mnemonic = some "cvt") :
    ∃ c : Conversion, i.marks = c.marks ∧ c.destination = destinationField.read word ∧
      c.source = sourceField.read word ∧ c.Suits := by
  obtain ⟨ts, hts, hknown, rfl⟩ := Decoder.decode_eq_ok.1 h
  change root.tokens { word, address, symbols } = .ok ts at hts
  have hconvert : .opcode "cvt" ∈ ts := Instruction.mem_of_mnemonic hname
  obtain ⟨us, hus, rfl⟩ :=
    exists_ops_tokens_of_mem control_excludes_convert (detects_isOpcode "cvt" _) hts hconvert
  have hmove := ops_tokens_convert hus (mem_of_mem_guarded hconvert)
  obtain ⟨o, ho, hholds, hmarks⟩ := exists_markOutline _ _ move_regular hmove hknown
  rw [Instruction.mnemonic_eq_marks, Instruction.marks, hmarks] at hname
  rw [Instruction.marks, hmarks]
  obtain ⟨c, -, hc, hdestination, hsource, hsuits⟩ := move_outlines_convert o ho hname
  exact ⟨c, hc, (hdestination.read_eq hholds).symm, (hsource.read_eq hholds).symm, hsuits⟩

theorem conversion_types_narrow : ∃ i, decoder.decode 0x1000000009a05c04 0 = .ok i ∧
    i.marks = [.opcode "cvt", .type ⟨.float, 32⟩, .register "", .type ⟨.float, 64⟩,
      .register "d"] ∧
    ∃ c : Conversion, i.marks = c.marks ∧ c.destination = ⟨.float, 32⟩ ∧
      c.source = ⟨.float, 64⟩ ∧ c.Suits := by
  obtain ⟨i, hi, hname, hmarks⟩ : ∃ i, decoder.decode 0x1000000009a05c04 0 = .ok i ∧
      i.mnemonic = some "cvt" ∧ i.marks = [.opcode "cvt", .type ⟨.float, 32⟩, .register "",
        .type ⟨.float, 64⟩, .register "d"] := ⟨_, rfl, by decide, by decide⟩
  exact ⟨i, hi, hmarks, conversion_types .empty _ 0 i hi hname⟩

end Codeword.Fermi
