import Codeword.Proofs.Fermi.DualLoad
import Codeword.Proofs.Table.Outline

namespace Codeword

namespace Fermi

inductive Number
  | unsigned
  | signed
  | float
  /-- Only the size matters. -/
  | bits
  deriving DecidableEq, Repr

structure DataType where
  number : Number
  width : Nat
  deriving DecidableEq, Repr

namespace DataType

def names : List (String × DataType) :=
  [("u8", ⟨.unsigned, 8⟩), ("u16", ⟨.unsigned, 16⟩), ("u32", ⟨.unsigned, 32⟩),
   ("u64", ⟨.unsigned, 64⟩), ("s8", ⟨.signed, 8⟩), ("s16", ⟨.signed, 16⟩),
   ("s32", ⟨.signed, 32⟩), ("s64", ⟨.signed, 64⟩), ("f16", ⟨.float, 16⟩),
   ("f32", ⟨.float, 32⟩), ("f64", ⟨.float, 64⟩), ("b32", ⟨.bits, 32⟩), ("b64", ⟨.bits, 64⟩),
   ("b96", ⟨.bits, 96⟩), ("b128", ⟨.bits, 128⟩)]

def ofName? (name : String) : Option DataType := names.lookup name

def suffix (t : DataType) : String :=
  if t.width = 64 then "d" else if t.width = 128 then "q" else ""

end DataType

/-- What an instruction says about its data: what it does, the types, and how wide the general
registers are. -/
inductive Mark
  | opcode (name : String)
  | type (t : DataType)
  | register (suffix : String)
  deriving DecidableEq, Repr

namespace Mark

def opcode? : Mark → Option String
  | .opcode name => some name
  | _ => none

def type? : Mark → Option DataType
  | .type t => some t
  | _ => none

def suffix? : Mark → Option String
  | .register suffix => some suffix
  | _ => none

end Mark

end Fermi

def RegisterValue.isGeneral : RegisterValue → Bool
  | .numbered file _ _ => file = "r"
  | .zero => true
  | _ => false

open Fermi

def Token.mark : Token → Option Mark
  | .opcode name => some (.opcode name)
  | .modifier text => (DataType.ofName? text).map .type
  | .operand (.register r) => if r.isGeneral then some (.register r.suffix) else none
  | _ => none

def Instruction.marks (i : Instruction) : List Mark := i.tokens.filterMap Token.mark

def Atom.mark : Atom → Option Mark
  | .opcode name => some (.opcode name)
  | .modifier text => (DataType.ofName? text).map .type
  | .register r => if r.file = "r" then some (.register r.suffix) else none
  | _ => none

namespace Register

/-- Whether the name of a register may be at odds with its file: it is not numbered, has a special
name, or reads as zero without being a general register of 32 bits. -/
def isOdd (r : Register) : Bool :=
  if r.file = "r" then
    r.field.isNone || r.onlySpecial || r.specials.any fun x => x.2 ≠ .zero || r.suffix ≠ ""
  else r.specials.any fun x => x.2 = .zero

variable {r : Register} {word address : Word}

theorem general_decode (hfile : r.file = "r") (h : r.isOdd = false) (word address : Word) :
    (r.decode word address).isGeneral = true ∧ (r.decode word address).suffix = r.suffix := by
  rw [isOdd, if_pos hfile] at h
  simp only [Bool.or_eq_false_iff] at h
  obtain ⟨⟨hfield, honly⟩, hspecials⟩ := h
  rcases r.decode_cases word address with
    ⟨hnone, -⟩ | ⟨_, x, hx, hr⟩ | ⟨_, hspecial, -⟩ | ⟨_, -, -, hr⟩
  · simp [hnone] at hfield
  · -- The only special register is zero, which has 32 bits as all of this description have.
    have hodd := List.any_eq_false.1 hspecials _ hx
    simp only [Bool.or_eq_true, decide_eq_true_eq, not_or, not_not] at hodd
    rw [hr, hodd.1, hodd.2]
    exact ⟨rfl, rfl⟩
  · simp [hspecial] at honly
  · rw [hr]
    exact ⟨decide_eq_true hfile, rfl⟩

theorem not_general_decode (hfile : r.file ≠ "r") (h : r.isOdd = false) :
    (r.decode word address).isGeneral = false := by
  rw [isOdd, if_neg hfile] at h
  rcases r.decode_cases word address with ⟨-, hr⟩ | ⟨_, x, hx, hr⟩ | ⟨_, -, hr⟩ | ⟨_, -, -, hr⟩ <;>
    rw [hr]
  · rfl
  · have hodd := List.any_eq_false.1 h _ hx
    cases x with
    | zero => simp at hodd
    | named | one => rfl
  · rfl
  · exact decide_eq_false hfile

theorem mark_decode (h : r.isOdd = false) :
    Token.mark (.operand (.register (r.decode word address))) = Atom.mark (.register r) := by
  rw [Token.mark, Atom.mark]
  by_cases hfile : r.file = "r"
  · obtain ⟨hgeneral, hsuffix⟩ := general_decode hfile h word address
    rw [if_pos hfile, if_pos hgeneral, hsuffix]
  · rw [if_neg hfile, not_general_decode hfile h]
    rfl

end Register

def Atom.isOdd : Atom → Bool
  | .register r => r.isOdd
  | _ => false

theorem Atom.shows_mark {a : Atom} (h : a.isOdd = false) (htable : a.table? = none) (s : Site) :
    a.Shows Atom.mark Token.mark s := by
  intro x hx
  cases a with
  | register r =>
      cases hx
      exact Register.mark_decode h
  | table t => cases htable
  | opcode | modifier | immediate | memory | vector | target | unrecognized =>
      cases hx
      rfl

theorem Instruction.mnemonic_eq_marks (i : Instruction) :
    i.mnemonic = i.marks.findSome? Mark.opcode? := by
  rw [mnemonic, marks, ← List.head?_filterMap, ← List.head?_filterMap, List.filterMap_filterMap]
  congr 2
  funext x
  cases x with
  | opcode | unrecognized => rfl
  | modifier text =>
      rw [Token.mark]
      cases DataType.ofName? text <;> rfl
  | operand o =>
      cases o with
      | register r =>
          change none = (if _ then some (Mark.register r.suffix) else none).bind Mark.opcode?
          split <;> rfl
      | _ => rfl

namespace Fermi

variable {s : Site} {t : Table} {ts : List Token}

theorem marks_guarded (join : Bool) (g : BitVec 4) (ts : List Token) :
    (joinTokens join ++ guardTokens g ++ ts).filterMap Token.mark = ts.filterMap Token.mark := by
  rw [joinTokens, guardTokens]
  split <;> split <;> split <;> rfl

/-- What is decoded through a table bears the marks of one of the ways through it. -/
theorem exists_markOutline (join : Bool) (g : BitVec 4)
    (hregular : t.every (Table.excludes Atom.isOdd) = true) (hts : t.tokens s = .ok ts)
    (hknown : .unrecognized ∉ joinTokens join ++ guardTokens g ++ ts) :
    ∃ o ∈ t.outlines Atom.mark .nothing, o.known.Holds s.word ∧
      (joinTokens join ++ guardTokens g ++ ts).filterMap Token.mark = o.marks := by
  have hshows : t.Shows Atom.mark Token.mark s :=
    Table.shows_of_every_excludes hregular fun a hodd htable => Atom.shows_mark hodd htable s
  rw [List.mem_append, not_or] at hknown
  obtain ⟨o, ho, hdescribes⟩ :=
    Table.exists_outline hshows (Known.holds_nothing s.word) hts hknown.2
  exact ⟨o, ho, hdescribes.known, (marks_guarded join g ts).trans hdescribes.marks⟩

end Fermi

end Codeword
