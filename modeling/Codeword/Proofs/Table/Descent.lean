import Codeword.Table.Reach
import Mathlib.Logic.Relation

namespace Codeword

namespace Table

variable {s : Site} {t u : Table} {word : Word}

def Refers (t u : Table) : Prop := u ∈ t.references

def Enters (word : Word) (t u : Table) : Prop :=
  ∃ r, t.rows.find? (·.Matches word) = some r ∧ Atom.table u ∈ r.atoms

theorem mem_references : u ∈ t.references ↔ ∃ r ∈ t.rows, Atom.table u ∈ r.atoms := by
  have table?_eq_some (a : Atom) : a.table? = some u ↔ a = .table u := by
    cases a <;> simp [Atom.table?]
  simp [references, table?_eq_some]

theorem Enters.refers (h : Enters word t u) : Refers t u := by
  obtain ⟨r, hr, hu⟩ := h
  exact mem_references.2 ⟨r, List.mem_of_find?_eq_some hr, hu⟩

theorem sizeOf_lt_of_refers (h : Refers t u) : sizeOf u < sizeOf t := by
  obtain ⟨r, hr, hu⟩ := mem_references.1 h
  have hrow := List.sizeOf_lt_of_mem hr
  have hatom := List.sizeOf_lt_of_mem hu
  obtain ⟨name, rows⟩ := t
  obtain ⟨value, mask, atoms⟩ := r
  simp only [Table.mk.sizeOf_spec, Row.mk.sizeOf_spec, Atom.table.sizeOf_spec] at *
  omega

/-- What holds of a table as soon as it holds of those that it uses holds of all. -/
theorem induction {P : Table → Prop} (step : ∀ t, (∀ u, Refers t u → P u) → P t) (t : Table) :
    P t := by
  induction h : sizeOf t using Nat.strongRecOn generalizing t with
  | _ n ih =>
      subst h
      exact step t fun u hu => ih (sizeOf u) (sizeOf_lt_of_refers hu) u rfl

theorem tokens_eq (s : Site) (t : Table) :
    t.tokens s = match t.rows.find? (·.Matches s.word) with
      | none => .error (.noMatchingRow t.name s.word)
      | some r => atomTokens s r.atoms := by
  cases t
  exact firstRow_eq s _ _

theorem tokens_of_find {n : Nat} {r : Row} (hfind : t.find s.word = some n)
    (hr : t.rows[n]? = some r) : t.tokens s = atomTokens s r.atoms := by
  rw [find] at hfind
  rw [tokens_eq, List.find?_eq_bind_findIdx?_getElem?, hfind, Option.bind_some, hr]

theorem isSome_find_eq (t : Table) (word : Word) :
    (t.find word).isSome = (t.rows.find? (·.Matches word)).isSome := by
  rw [find, List.findIdx?_isSome, ← List.isSome_find?]

theorem find_eq_none : t.find word = none ↔ t.rows.find? (·.Matches word) = none := by
  rw [← Option.not_isSome_iff_eq_none, isSome_find_eq, Option.not_isSome_iff_eq_none]

end Table

section atoms

variable {s : Site} {as : List Atom} {ts : List Token} {x : Token}

theorem atomTokens_cons_eq_ok {a : Atom} :
    atomTokens s (a :: as) = .ok ts ↔
      ∃ us vs, a.tokens s = .ok us ∧ atomTokens s as = .ok vs ∧ ts = us ++ vs := by
  rw [atomTokens]
  cases a.tokens s with
  | error e => simp [bind, Except.bind]
  | ok us => cases atomTokens s as <;> simp [bind, Except.bind, pure, Except.pure, eq_comm]

theorem atomTokens_singleton (s : Site) (a : Atom) : atomTokens s [a] = a.tokens s := by
  rw [atomTokens]
  cases a.tokens s with
  | error e => rfl
  | ok us => exact congrArg Except.ok (List.append_nil us)

theorem atomTokens_append {bs : List Atom} {us vs : List Token} (has : atomTokens s as = .ok us)
    (hbs : atomTokens s bs = .ok vs) : atomTokens s (as ++ bs) = .ok (us ++ vs) := by
  induction as generalizing us with
  | nil =>
      cases has
      exact hbs
  | cons a as ih =>
      obtain ⟨ws, xs, hws, hxs, rfl⟩ := atomTokens_cons_eq_ok.1 has
      rw [List.append_assoc]
      exact atomTokens_cons_eq_ok.2 ⟨ws, xs ++ vs, hws, ih hxs, rfl⟩

theorem mem_atomTokens (h : atomTokens s as = .ok ts) (hx : x ∈ ts) :
    ∃ a ∈ as, ∃ us, a.tokens s = .ok us ∧ x ∈ us := by
  induction as generalizing ts with
  | nil =>
      cases h
      simp at hx
  | cons a as ih =>
      obtain ⟨us, vs, hus, hvs, rfl⟩ := atomTokens_cons_eq_ok.1 h
      rcases List.mem_append.1 hx with hx | hx
      · exact ⟨a, by simp, us, hus, hx⟩
      · obtain ⟨b, hb, h⟩ := ih hvs hx
        exact ⟨b, by simp [hb], h⟩

theorem Atom.exists_token {a : Atom} (h : a.table? = none) : ∃ x, a.tokens s = .ok [x] := by
  cases a with
  | table t => simp [Atom.table?] at h
  | _ => exact ⟨_, rfl⟩

theorem Atom.eq_table_of_table? {a : Atom} {t : Table} (h : a.table? = some t) : a = .table t := by
  cases a with
  | table u => rw [Atom.table?, Option.some.injEq] at h; rw [h]
  | _ => simp [Atom.table?] at h

end atoms

end Codeword
