import Codeword.Proofs.Field.Storage
import Codeword.Proofs.Operand.Fields
import Codeword.Proofs.Table.Coverage
import Codeword.Proofs.Table.Translation

namespace Codeword

open Word

variable {a b word address : Word} {symbols : Symbols} {s : Site}

theorem sameIn_elim {α : Type} {reads : α → Word} {fields : α → List Field} {o : Option α}
    (hx : ∀ x, AgreeOn (reads x) word s.word → SameIn (fields x) { s with word } s)
    (h : AgreeOn (o.elim 0 reads) word s.word) :
    SameIn (o.elim [] fields) { s with word } s := by
  cases o with
  | none => exact List.forall_mem_nil _
  | some x => exact hx x h

theorem Field.sameIn_of_agreeOn (f : Field) (h : AgreeOn f.mask word s.word) :
    SameIn [f] { s with word } s :=
  sameIn_cons.2 ⟨extract_congr h s.address, List.forall_mem_nil _⟩

def Register.reads (r : Register) : Word := r.field.elim 0 Field.mask

theorem Register.sameIn_of_agreeOn (r : Register) (h : AgreeOn r.reads word s.word) :
    SameIn r.fields { s with word } s :=
  sameIn_elim Field.sameIn_of_agreeOn h

def Memory.reads (m : Memory) : Word :=
  m.displacement.mask ||| m.bank.elim 0 Field.mask ||| m.base.elim 0 Register.reads |||
    m.index.elim 0 Register.reads

theorem Memory.sameIn_of_agreeOn (m : Memory) (h : AgreeOn m.reads word s.word) :
    SameIn m.fields { s with word } s := by
  simp only [reads, agreeOn_or] at h
  obtain ⟨⟨⟨hdisplacement, hbank⟩, hbase⟩, hindex⟩ := h
  have hnumber := sameIn_elim Field.sameIn_of_agreeOn hbank
  have hregister {r : Option Register} (h : AgreeOn (r.elim 0 Register.reads) word s.word) :=
    sameIn_elim Register.sameIn_of_agreeOn h
  simp only [fields, sameIn_cons, sameIn_append]
  exact ⟨Field.extract_congr hdisplacement _, ⟨hnumber, hregister hbase⟩, hregister hindex⟩

def VectorGroup.reads (g : VectorGroup) : Word :=
  g.base.mask ||| g.count.mask ||| g.mask.elim 0 Field.mask

theorem VectorGroup.sameIn_of_agreeOn (g : VectorGroup) (h : AgreeOn g.reads word s.word) :
    SameIn g.fields { s with word } s := by
  simp only [reads, agreeOn_or] at h
  obtain ⟨⟨hbase, hcount⟩, hmask⟩ := h
  simp only [fields, sameIn_cons]
  exact ⟨Field.extract_congr hbase _, Field.extract_congr hcount _,
    sameIn_elim Field.sameIn_of_agreeOn hmask⟩

def Atom.reads : Atom → Word
  | .register r => r.reads
  | .immediate f | .target _ f => f.mask
  | .memory m => m.reads
  | .vector g => g.reads
  | .opcode _ | .modifier _ | .table _ | .unrecognized => 0

theorem Atom.sameIn_of_agreeOn (a : Atom) (h : AgreeOn a.reads word s.word) :
    SameIn a.fields { s with word } s := by
  cases a with
  | register r => exact r.sameIn_of_agreeOn h
  | immediate f | target kind f => exact f.sameIn_of_agreeOn h
  | memory m => exact m.sameIn_of_agreeOn h
  | vector g => exact g.sameIn_of_agreeOn h
  | opcode | modifier | table | unrecognized => exact List.forall_mem_nil _

def Row.reads (r : Row) : Word := r.mask ||| union (r.atoms.map Atom.reads)

theorem Row.matches_congr {r : Row} (h : AgreeOn r.mask a b) : r.Matches a ↔ r.Matches b := by
  rw [Matches, Matches, h]

def DecodeError.about (word : Word) : DecodeError → DecodeError
  | .noMatchingRow table _ => .noMatchingRow table word
  | .unrecognized _ address text => .unrecognized word address text
  | .truncated address length => .truncated address length

namespace Table

variable {t : Table} {bits : Word} {ts : List Token}

def reads (t : Table) : Word := union (t.rows.map Row.reads)

/-- Bits that no table reads make no difference to what is written. -/
theorem tokens_congr (h : ∀ u, Relation.ReflTransGen Refers t u → AgreeOn u.reads word s.word) :
    t.tokens { s with word } = (t.tokens s).mapError (.about word) := by
  let x : Translation s { s with word } := { error := .about word }
  have htokens : t.tokens { s with word } = x.outcome (t.tokens s) := by
    refine Translation.tokens_eq fun u hu => ?_
    have hrows := agreeOn_union.1 (h u hu)
    constructor
    · intro r hr
      exact Row.matches_congr (agreeOn_or.1 (hrows _ (List.mem_map_of_mem hr))).1
    · intro r hr a ha htable
      have hatoms := agreeOn_union.1 (agreeOn_or.1 (hrows _ (List.mem_map_of_mem hr))).2
      have hsame := a.sameIn_of_agreeOn (hatoms _ (List.mem_map_of_mem ha))
      rw [Atom.tokens_eq_of_same hsame rfl htable]
      obtain ⟨y, hy⟩ := Atom.exists_token (s := s) htable
      rw [hy]
      rfl
  rw [htokens]
  cases t.tokens s with
  | error e => rfl
  | ok ts => exact congrArg Except.ok (List.map_id ts)

def ignores (bits : Word) (t : Table) : Bool := bits &&& t.reads = 0

theorem tokens_of_ignores (h : t.every (ignores bits) = true) (hword : AgreeOn (~~~bits) a b)
    (hts : t.tokens { word := b, address, symbols } = .ok ts) :
    t.tokens { word := a, address, symbols } = .ok ts := by
  have hreads {u : Table} (hu : Relation.ReflTransGen Refers t u) : AgreeOn u.reads a b :=
    hword.of_disjoint (of_decide_eq_true (test_of_every h hu))
  have htokens := tokens_congr (s := { word := b, address, symbols }) fun u hu => hreads hu
  rw [hts] at htokens
  exact htokens

end Table

end Codeword
