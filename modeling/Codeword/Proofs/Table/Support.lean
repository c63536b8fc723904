import Codeword.Proofs.Table.Locality

namespace Codeword

open Word

mutual

/-- The bits that a table and all tables inside it ask for or take operands from. -/
def Table.support : Table → Word
  | ⟨_, rows⟩ => rowsSupport rows

def rowsSupport : List Row → Word
  | [] => 0
  | ⟨_, mask, atoms⟩ :: rows => mask ||| atomsSupport atoms ||| rowsSupport rows

def atomsSupport : List Atom → Word
  | [] => 0
  | a :: as => a.support ||| atomsSupport as

def Atom.support : Atom → Word
  | .table t => t.support
  | a => a.reads

end

section bits

variable {i : Nat}

theorem getLsbD_elim {α : Type} {reads : α → Word} {fields : α → List Field} {o : Option α}
    (h : ∀ x, (reads x).getLsbD i = true ↔ ∃ f ∈ fields x, f.mask.getLsbD i = true) :
    (o.elim 0 reads).getLsbD i = true ↔ ∃ f ∈ o.elim [] fields, f.mask.getLsbD i = true := by
  cases o with
  | none => simp
  | some x => exact h x

theorem Field.getLsbD_mask (f : Field) :
    f.mask.getLsbD i = true ↔ ∃ g ∈ [f], g.mask.getLsbD i = true := by
  simp

theorem Register.getLsbD_reads (r : Register) :
    r.reads.getLsbD i = true ↔ ∃ f ∈ r.fields, f.mask.getLsbD i = true :=
  getLsbD_elim Field.getLsbD_mask

theorem Memory.getLsbD_reads (m : Memory) :
    m.reads.getLsbD i = true ↔ ∃ f ∈ m.fields, f.mask.getLsbD i = true := by
  simp only [reads, fields, BitVec.getLsbD_or, Bool.or_eq_true, List.exists_mem_cons_iff,
    List.mem_append, or_and_right, exists_or, getLsbD_elim Field.getLsbD_mask,
    getLsbD_elim Register.getLsbD_reads, or_assoc]

theorem VectorGroup.getLsbD_reads (g : VectorGroup) :
    g.reads.getLsbD i = true ↔ ∃ f ∈ g.fields, f.mask.getLsbD i = true := by
  simp only [reads, fields, BitVec.getLsbD_or, Bool.or_eq_true, List.exists_mem_cons_iff,
    getLsbD_elim Field.getLsbD_mask, or_assoc]

theorem Atom.getLsbD_reads (a : Atom) :
    a.reads.getLsbD i = true ↔ ∃ f ∈ a.fields, f.mask.getLsbD i = true := by
  cases a with
  | register r => exact r.getLsbD_reads
  | immediate f | target kind f => exact f.getLsbD_mask
  | memory m => exact m.getLsbD_reads
  | vector g => exact g.getLsbD_reads
  | opcode | modifier | table | unrecognized => simp [reads, fields]

theorem getLsbD_atomsSupport (as : List Atom) :
    (atomsSupport as).getLsbD i = true ↔ ∃ a ∈ as, a.support.getLsbD i = true := by
  induction as with
  | nil => simp [atomsSupport]
  | cons a as ih =>
      rw [atomsSupport, BitVec.getLsbD_or, Bool.or_eq_true, ih, List.exists_mem_cons_iff]

theorem getLsbD_rowsSupport (rows : List Row) : (rowsSupport rows).getLsbD i = true ↔
    ∃ r ∈ rows, r.mask.getLsbD i = true ∨ ∃ a ∈ r.atoms, a.support.getLsbD i = true := by
  induction rows with
  | nil => simp [rowsSupport]
  | cons r rows ih =>
      obtain ⟨value, mask, atoms⟩ := r
      rw [rowsSupport, BitVec.getLsbD_or, BitVec.getLsbD_or, Bool.or_eq_true, Bool.or_eq_true,
        getLsbD_atomsSupport, ih, List.exists_mem_cons_iff]

theorem Atom.getLsbD_support (a : Atom) : a.support.getLsbD i = true ↔
    a.reads.getLsbD i = true ∨ ∃ u, a = .table u ∧ u.support.getLsbD i = true := by
  cases a with
  | table u => simp [support, reads]
  | _ => simp [support]

namespace Table

variable {t : Table}

theorem getLsbD_reads : t.reads.getLsbD i = true ↔
    ∃ r ∈ t.rows, r.mask.getLsbD i = true ∨ ∃ a ∈ r.atoms, a.reads.getLsbD i = true := by
  simp only [reads, Row.reads, getLsbD_union, List.mem_map, exists_exists_and_eq_and,
    BitVec.getLsbD_or, Bool.or_eq_true]

theorem getLsbD_support_step : t.support.getLsbD i = true ↔
    t.reads.getLsbD i = true ∨ ∃ u, Refers t u ∧ u.support.getLsbD i = true := by
  have hrows : t.support = rowsSupport t.rows := by cases t; rfl
  simp only [hrows, getLsbD_rowsSupport, getLsbD_reads, Atom.getLsbD_support, Refers,
    mem_references]
  constructor
  · rintro ⟨r, hr, hmask | ⟨a, ha, hreads | ⟨u, rfl, hu⟩⟩⟩
    · exact .inl ⟨r, hr, .inl hmask⟩
    · exact .inl ⟨r, hr, .inr ⟨a, ha, hreads⟩⟩
    · exact .inr ⟨u, ⟨r, hr, ha⟩, hu⟩
  · rintro (⟨r, hr, hmask | ⟨a, ha, hreads⟩⟩ | ⟨u, ⟨r, hr, ha⟩, hu⟩)
    · exact ⟨r, hr, .inl hmask⟩
    · exact ⟨r, hr, .inr ⟨a, ha, .inl hreads⟩⟩
    · exact ⟨r, hr, .inr ⟨_, ha, .inr ⟨u, rfl, hu⟩⟩⟩

theorem getLsbD_support : t.support.getLsbD i = true ↔
    ∃ u, Relation.ReflTransGen Refers t u ∧ u.reads.getLsbD i = true := by
  induction t using induction with
  | step t ih =>
      rw [getLsbD_support_step]
      constructor
      · rintro (hbit | ⟨u, hu, hbit⟩)
        · exact ⟨t, .refl, hbit⟩
        · obtain ⟨v, hv, hbit⟩ := (ih u hu).1 hbit
          exact ⟨v, .head hu hv, hbit⟩
      · rintro ⟨v, hv, hbit⟩
        rcases hv.cases_head with rfl | ⟨u, hu, hv⟩
        · exact .inl hbit
        · exact .inr ⟨u, hu, (ih u hu).2 ⟨v, hv, hbit⟩⟩

theorem getLsbD_support_iff : t.support.getLsbD i = true ↔
    ∃ u, Relation.ReflTransGen Refers t u ∧ ∃ r ∈ u.rows, r.mask.getLsbD i = true ∨
      ∃ a ∈ r.atoms, ∃ f ∈ a.fields, f.mask.getLsbD i = true := by
  simp only [getLsbD_support, getLsbD_reads, Atom.getLsbD_reads]

end Table

end bits

namespace Table

variable {t : Table} {a b : Word}

theorem agreeOn_reads_of_support (h : AgreeOn t.support a b) {u : Table}
    (hu : Relation.ReflTransGen Refers t u) : AgreeOn u.reads a b := by
  rw [agreeOn_iff] at h ⊢
  intro i hi
  exact h i (getLsbD_support.2 ⟨u, hu, hi⟩)

/-- Words that agree on the support of a table are written in the same way, or both fail at the
same table. -/
theorem tokens_local (h : AgreeOn t.support a b) (address : Word) (symbols : Symbols) :
    (∃ ts, t.tokens { word := a, address, symbols } = .ok ts ∧
      t.tokens { word := b, address, symbols } = .ok ts) ∨
    ∃ u, Relation.ReflTransGen Refers t u ∧
      t.tokens { word := a, address, symbols } = .error (.noMatchingRow u.name a) ∧
      t.tokens { word := b, address, symbols } = .error (.noMatchingRow u.name b) := by
  have hsame := tokens_congr (s := { word := b, address, symbols }) fun u hu =>
    agreeOn_reads_of_support h hu
  rw [hsame]
  cases htokens : t.tokens { word := b, address, symbols } with
  | ok ts => exact .inl ⟨ts, rfl, rfl⟩
  | error e =>
      obtain ⟨u, hu, -, rfl⟩ := error_of_tokens htokens
      exact .inr ⟨u, hu.lift id fun _ _ => Enters.refers, rfl, rfl⟩

def nested : Table where
  name := "group"
  rows :=
    let address : Memory :=
      { space := some "c", displacement := .sbits 32 16, bank := some (.bits 48 4)
        base := some { field := some (.bits 26 6), file := "r", specials := [(63, .zero)] } }
    let group : VectorGroup :=
      { file := "r", base := .bits 14 6, count := .bits 20 2, mask := some (.bits 22 4) }
    [⟨1, 0xf, [.vector group, .table ⟨"address", [⟨0, 0x30, [.memory address]⟩]⟩]⟩]

theorem tokens_local_nested : AgreeOn nested.support 0x2c211 0xfff000000002c211 ∧
    ((∃ ts, nested.tokens { word := 0x2c211 } = .ok ts ∧
      nested.tokens { word := 0xfff000000002c211 } = .ok ts) ∨
    ∃ u, Relation.ReflTransGen Refers nested u ∧
      nested.tokens { word := 0x2c211 } = .error (.noMatchingRow u.name 0x2c211) ∧
      nested.tokens { word := 0xfff000000002c211 } =
        .error (.noMatchingRow u.name 0xfff000000002c211)) :=
  ⟨by decide, tokens_local (by decide) 0 .empty⟩

example : nested.tokens { word := 0xfff000000002c211 } =
    .error (.noMatchingRow "address" 0xfff000000002c211) := by
  rfl

end Table

end Codeword
