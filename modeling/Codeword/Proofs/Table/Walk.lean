import Codeword.Proofs.Table.Descent

namespace Codeword

mutual

/-- What a word meets in a table, in the order of a depth-first walk: the table itself, and then,
from left to right, what it meets in the atoms of the row that takes it. -/
def Table.walk (word : Word) : Table → List Atom
  | ⟨name, rows⟩ => .table ⟨name, rows⟩ :: walkRow word rows

def walkRow (word : Word) : List Row → List Atom
  | [] => []
  | ⟨value, mask, atoms⟩ :: rows =>
    if word &&& mask = value then walkAtoms word atoms else walkRow word rows

def walkAtoms (word : Word) : List Atom → List Atom
  | [] => []
  | a :: as => a.walk word ++ walkAtoms word as

def Atom.walk (word : Word) : Atom → List Atom
  | .table t => t.walk word
  | a => [a]

end

def plainAtoms (w : List Atom) : List Atom := w.filter fun a => a.table?.isNone

def AllFound (word : Word) (w : List Atom) : Prop := ∀ v, .table v ∈ w → (v.find word).isSome

variable {word : Word} {t : Table} {a : Atom} {v w : List Atom}

theorem walkRow_eq (word : Word) (rows : List Row) :
    walkRow word rows =
      match rows.find? fun r => r.Matches word with
      | none => []
      | some r => walkAtoms word r.atoms :=
  search_eq rfl (fun _ _ _ _ => rfl) rows

theorem Table.walk_eq (word : Word) (t : Table) :
    t.walk word = .table t :: match t.rows.find? (·.Matches word) with
      | none => []
      | some r => walkAtoms word r.atoms := by
  cases t
  exact congrArg _ (walkRow_eq word _)

theorem Atom.walk_of_table? (h : a.table? = none) (word : Word) : a.walk word = [a] := by
  cases a with
  | table t => simp [Atom.table?] at h
  | _ => rfl

theorem walkAtoms_eq_flatMap (word : Word) (as : List Atom) :
    walkAtoms word as = as.flatMap (Atom.walk word) := by
  induction as with
  | nil => rfl
  | cons a as ih => rw [walkAtoms, ih, List.flatMap_cons]

theorem Table.cases_of_mem_walk (h : a ∈ t.walk word) :
    ∃ u, Relation.ReflTransGen (Enters word) t u ∧
      (a = .table u ∨ a.table? = none ∧
        ∃ r, u.rows.find? (·.Matches word) = some r ∧ a ∈ r.atoms) := by
  induction t using Table.induction with
  | step t ih =>
      rw [walk_eq] at h
      rcases List.mem_cons.1 h with rfl | h
      · exact ⟨t, .refl, .inl rfl⟩
      · cases hr : t.rows.find? (·.Matches word) with
        | none => simp [hr] at h
        | some r =>
            simp only [hr, walkAtoms_eq_flatMap] at h
            obtain ⟨b, hb, hab⟩ := List.mem_flatMap.1 h
            cases htable : b.table? with
            | none =>
                rw [Atom.walk_of_table? htable, List.mem_singleton] at hab
                exact ⟨t, .refl, .inr ⟨hab ▸ htable, r, hr, hab ▸ hb⟩⟩
            | some u =>
                rw [Atom.eq_table_of_table? htable] at hb hab
                have hu : Enters word t u := ⟨r, hr, hb⟩
                obtain ⟨v, hv, hcase⟩ := ih u hu.refers hab
                exact ⟨v, .head hu hv, hcase⟩

theorem Table.walk_subset_of_enters {u : Table} (h : Enters word t u) :
    u.walk word ⊆ t.walk word := by
  obtain ⟨r, hr, hu⟩ := h
  intro b hb
  have hrow : b ∈ walkAtoms word r.atoms := by
    rw [walkAtoms_eq_flatMap]
    exact List.mem_flatMap.2 ⟨.table u, hu, hb⟩
  rw [walk_eq, hr]
  exact List.mem_cons_of_mem _ hrow

theorem Table.table_mem_walk {u : Table} :
    .table u ∈ t.walk word ↔ Relation.ReflTransGen (Enters word) t u := by
  constructor
  · intro h
    obtain ⟨v, hv, heq | ⟨htable, -⟩⟩ := cases_of_mem_walk h
    · cases heq
      exact hv
    · simp [Atom.table?] at htable
  · intro h
    induction h using Relation.ReflTransGen.head_induction_on with
    | refl =>
        rw [walk_eq]
        exact List.mem_cons_self
    | head hstep _ ih => exact walk_subset_of_enters hstep ih

theorem mem_plainAtoms : a ∈ plainAtoms w ↔ a ∈ w ∧ a.table? = none := by
  simp [plainAtoms]

theorem plainAtoms_append (v w : List Atom) :
    plainAtoms (v ++ w) = plainAtoms v ++ plainAtoms w :=
  List.filter_append v w

theorem plainAtoms_singleton (h : a.table? = none) : plainAtoms [a] = [a] := by
  simp [plainAtoms, h]

theorem allFound_nil (word : Word) : AllFound word [] :=
  fun _ hu => absurd hu List.not_mem_nil

theorem allFound_cons : AllFound word (a :: w) ↔
    (∀ u, a = .table u → (u.find word).isSome) ∧ AllFound word w := by
  simp only [AllFound, List.mem_cons, or_imp, forall_and, eq_comm]

theorem AllFound.append (hv : AllFound word v) (hw : AllFound word w) : AllFound word (v ++ w) :=
  fun _ hu => (List.mem_append.1 hu).elim (hv _) (hw _)

end Codeword
