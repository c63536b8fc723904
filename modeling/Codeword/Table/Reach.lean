import Codeword.Search
import Codeword.Table.Basic

namespace Codeword

mutual

def Table.names : Table → List String
  | ⟨name, rows⟩ => name :: rowsNames rows

def rowsNames : List Row → List String
  | [] => []
  | ⟨_, _, atoms⟩ :: rows => atomsNames atoms ++ rowsNames rows

def atomsNames : List Atom → List String
  | [] => []
  | a :: as => a.names ++ atomsNames as

def Atom.names : Atom → List String
  | .table t => t.names
  | _ => []

end

def Atom.table? : Atom → Option Table
  | .table t => some t
  | _ => none

namespace Table

def references (t : Table) : List Table :=
  t.rows.flatMap fun r => r.atoms.filterMap Atom.table?

def subtables (t : Table) : List Table := Network.distinct name [] t.references

theorem name_mem_names (t : Table) : t.name ∈ t.names := by
  cases t
  exact List.mem_cons_self

theorem names_subset_atomsNames {u : Table} {as : List Atom} (h : u ∈ as.filterMap Atom.table?) :
    u.names ⊆ atomsNames as := by
  induction as with
  | nil => simp at h
  | cons a as ih =>
      rw [atomsNames]
      cases a with
      | table t =>
          rcases List.mem_cons.1 h with rfl | h
          · exact List.subset_append_left _ _
          · exact List.subset_append_of_subset_right _ (ih h)
      | _ => exact List.subset_append_of_subset_right _ (ih h)

theorem names_subset_of_mem_references {t u : Table} (h : u ∈ t.references) : u.names ⊆ t.names := by
  obtain ⟨name, rows⟩ := t
  refine List.subset_cons_of_subset name ?_
  induction rows with
  | nil => simp [references] at h
  | cons r rows ih =>
      obtain ⟨value, mask, atoms⟩ := r
      rw [rowsNames]
      rcases List.mem_append.1 h with h | h
      · exact List.subset_append_of_subset_left _ (names_subset_atomsNames h)
      · exact List.subset_append_of_subset_right _ (ih h)

def network (t : Table) : Network Table where
  name := name
  next := references
  Contains u := u.names ⊆ t.names
  contains_next _ hu _ hv := List.Subset.trans (names_subset_of_mem_references hv) hu
  finite := ⟨t.names, fun u hu => hu u.name_mem_names⟩

def reachable (t : Table) : List Table := t.network.reachable t (List.Subset.refl _)

end Table

end Codeword
