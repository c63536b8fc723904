namespace Codeword

/-- Things that lead to others. They may lead back to where they came from. They are told apart by
name, and there are only finitely many names. -/
structure Network (α : Type) where
  name : α → String
  next : α → List α
  Contains : α → Prop
  contains_next : ∀ a, Contains a → ∀ b ∈ next a, Contains b
  finite : ∃ names : List String, ∀ a, Contains a → name a ∈ names

namespace Network

variable {α : Type}

/-- The entries of a list, without those whose name came before. -/
def distinct (name : α → String) (known : List String) : List α → List α
  | [] => []
  | a :: as =>
    if name a ∈ known then distinct name known as
    else a :: distinct name (name a :: known) as

theorem distinct_subset (name : α → String) (known : List String) (as : List α) :
    distinct name known as ⊆ as := by
  induction as generalizing known with
  | nil => exact List.Subset.refl _
  | cons a as ih =>
      rw [distinct]
      split
      · exact List.subset_cons_of_subset a (ih known)
      · exact List.cons_subset_cons a (ih _)

theorem name_notMem_of_mem_distinct {name : α → String} {known : List String} {as : List α} {a : α}
    (h : a ∈ distinct name known as) : name a ∉ known := by
  induction as generalizing known with
  | nil => simp [distinct] at h
  | cons b as ih =>
      rw [distinct] at h
      split at h
      · exact ih h
      next hb =>
        rcases List.mem_cons.1 h with rfl | h
        · exact hb
        · exact fun hknown => ih h (List.mem_cons_of_mem _ hknown)

variable (n : Network α)

def news (found : List α) (a : α) : List α := distinct n.name (found.map n.name) (n.next a)

theorem contains_news {found : List α} {a b : α} (ha : n.Contains a) (hb : b ∈ n.news found a) :
    n.Contains b :=
  n.contains_next a ha b (distinct_subset _ _ _ hb)

noncomputable def unfound (found : List α) : Nat :=
  (n.finite.choose.filter fun name => name ∉ found.map n.name).length

theorem unfound_append_lt {found as : List α} {a : α} (ha : n.Contains a)
    (hnew : n.name a ∉ found.map n.name) (hmem : a ∈ as) :
    n.unfound (found ++ as) < n.unfound found := by
  have hfilter : n.finite.choose.filter (fun name => name ∉ (found ++ as).map n.name) =
      (n.finite.choose.filter fun name => name ∉ found.map n.name).filter
        fun name => name ∉ as.map n.name := by
    rw [List.filter_filter]
    refine List.filter_congr fun name _ => ?_
    simp [Bool.and_comm]
  rw [unfound, unfound, hfilter, List.length_filter_lt_length_iff_exists]
  refine ⟨n.name a, List.mem_filter.2 ⟨n.finite.choose_spec a ha, decide_eq_true hnew⟩, ?_⟩
  simpa using ⟨a, hmem, rfl⟩

/-- Breadth-first: the things still to be looked into are the last ones found. -/
def explore (found pending : List α) (h : ∀ a ∈ pending, n.Contains a) : List α :=
  match pending with
  | [] => found
  | a :: rest =>
    explore (found ++ n.news found a) (rest ++ n.news found a) fun b hb =>
      (List.mem_append.1 hb).elim (fun hb => h b (List.mem_cons_of_mem a hb))
        (n.contains_news (h a List.mem_cons_self))
termination_by (n.unfound found, pending.length)
decreasing_by
  cases hnews : n.news found a with
  | nil =>
      rw [List.append_nil, List.append_nil]
      exact Prod.Lex.right _ (Nat.lt_succ_self rest.length)
  | cons b bs =>
      have hb : b ∈ n.news found a := hnews ▸ List.mem_cons_self
      exact Prod.Lex.left _ _ (n.unfound_append_lt (n.contains_news (h a List.mem_cons_self) hb)
        (name_notMem_of_mem_distinct hb) List.mem_cons_self)

def reachable (a : α) (h : n.Contains a) : List α :=
  n.explore [a] [a] fun _ hb => List.mem_singleton.1 hb ▸ h

end Network

end Codeword
