import Codeword.Proofs.Table.Descent

namespace Codeword

variable {s s' : Site}

def SameIn (fields : List Field) (s s' : Site) : Prop :=
  ∀ f ∈ fields, f.extract s.word s.address = f.extract s'.word s'.address

theorem sameIn_cons {f : Field} {fs : List Field} : SameIn (f :: fs) s s' ↔
    f.extract s.word s.address = f.extract s'.word s'.address ∧ SameIn fs s s' :=
  List.forall_mem_cons

theorem sameIn_append {fs gs : List Field} :
    SameIn (fs ++ gs) s s' ↔ SameIn fs s s' ∧ SameIn gs s s' :=
  List.forall_mem_append

theorem map_eq_of_same {α β : Type} {fields : α → List Field} {f : α → Site → β} {o : Option α}
    (hf : ∀ x, SameIn (fields x) s s' → f x s = f x s') (h : SameIn (o.elim [] fields) s s') :
    o.map (f · s) = o.map (f · s') := by
  cases o with
  | none => rfl
  | some x => exact congrArg some (hf x h)

def Register.fields (r : Register) : List Field := r.field.elim [] ([·])

theorem Register.decode_eq_of_same {r : Register} (h : SameIn r.fields s s') :
    r.decode s.word s.address = r.decode s'.word s'.address := by
  rw [decode, decode]
  cases hfield : r.field with
  | none => rfl
  | some f =>
      rw [fields, hfield] at h
      dsimp only
      rw [(sameIn_cons.1 h).1]

theorem Register.decode_cases (r : Register) (word address : Word) :
    (r.field = none ∧ r.decode word address = .fixed r.file) ∨
    (∃ index x, (index, x) ∈ r.specials ∧ r.decode word address = x.value) ∨
    (∃ index, r.onlySpecial = true ∧ r.decode word address = .unknownSpecial r.file index) ∨
    ∃ index, r.onlySpecial = false ∧ r.specials.lookup index = none ∧
      r.decode word address = .numbered r.file index r.suffix := by
  rw [decode]
  cases hfield : r.field with
  | none => exact .inl ⟨rfl, rfl⟩
  | some f =>
      right
      dsimp only
      rw [select]
      split
      next x hx =>
        obtain ⟨before, after, hspecials, -⟩ := List.lookup_eq_some_iff.1 hx
        exact .inl ⟨_, x, hspecials ▸ List.mem_append_right before List.mem_cons_self, rfl⟩
      next hnone =>
        right
        split
        next honly => exact .inl ⟨_, honly, rfl⟩
        next honly => exact .inr ⟨_, eq_false_of_ne_true honly, hnone, rfl⟩

def Memory.fields (m : Memory) : List Field :=
  m.displacement :: (m.bank.elim [] ([·]) ++ m.base.elim [] Register.fields ++
    m.index.elim [] Register.fields)

theorem Memory.decode_eq_of_same {m : Memory} (h : SameIn m.fields s s') (symbols : Symbols) :
    m.decode s.word s.address symbols = m.decode s'.word s'.address symbols := by
  simp only [fields, sameIn_cons, sameIn_append] at h
  obtain ⟨hdisplacement, ⟨hbank, hbase⟩, hindex⟩ := h
  have hnumber := map_eq_of_same (f := fun f s => (f.extract s.word s.address).toNat)
    (fun f hf => by rw [(sameIn_cons.1 hf).1]) hbank
  have hregister {r : Option Register} (h : SameIn (r.elim [] Register.fields) s s') :
      r.map (·.decode s.word s.address) = r.map (·.decode s'.word s'.address) :=
    map_eq_of_same (f := fun r s => r.decode s.word s.address)
      (fun _ => Register.decode_eq_of_same) h
  rw [decode, decode, hnumber, hdisplacement, hregister hbase, hregister hindex]

def VectorGroup.fields (g : VectorGroup) : List Field := g.base :: g.count :: g.mask.elim [] ([·])

theorem VectorGroup.decode_eq_of_same {g : VectorGroup} (h : SameIn g.fields s s') :
    g.decode s.word s.address = g.decode s'.word s'.address := by
  simp only [fields, sameIn_cons] at h
  obtain ⟨hbase, hcount, hmask⟩ := h
  have hpresent : g.isPresent s.word s.address = g.isPresent s'.word s'.address := by
    funext slot
    rw [isPresent, isPresent]
    cases hm : g.mask with
    | none => rfl
    | some f =>
        rw [hm] at hmask
        dsimp only
        rw [(sameIn_cons.1 hmask).1]
  rw [decode, decode, slotCount, slotCount, hpresent, hbase, hcount]

namespace Atom

/-- The fields that an atom takes its operand from. Those of another table are not counted. -/
def fields : Atom → List Field
  | .register r => r.fields
  | .immediate f | .target _ f => [f]
  | .memory m => m.fields
  | .vector g => g.fields
  | .opcode _ | .modifier _ | .table _ | .unrecognized => []

theorem tokens_eq_of_same {a : Atom} (h : SameIn a.fields s s') (hsymbols : s.symbols = s'.symbols)
    (htable : a.table? = none) : a.tokens s = a.tokens s' := by
  cases a with
  | register r => rw [tokens, tokens, Register.decode_eq_of_same h]
  | immediate f => rw [tokens, tokens, (sameIn_cons.1 h).1]
  | memory m => rw [tokens, tokens, Memory.decode_eq_of_same h, hsymbols]
  | vector g => rw [tokens, tokens, VectorGroup.decode_eq_of_same h]
  | target kind f => simp only [tokens, (sameIn_cons.1 h).1, hsymbols]
  | table t => simp [table?] at htable
  | opcode name | modifier text | unrecognized => rfl

end Atom

end Codeword
