import Codeword.Search
import Mathlib.Data.List.Nodup
import Mathlib.Data.Set.Operations
import Mathlib.Logic.Relation

namespace Codeword

variable {α : Type}

/-- The second list holds what the first one holds, each thing once, in the order of the first
places. -/
structure FirstsOf (xs ys : List α) : Prop where
  nodup : ys.Nodup
  mem_iff : ∀ a, a ∈ ys ↔ a ∈ xs
  ordered : ys.Pairwise fun a b => ∃ before after, xs = before ++ a :: after ∧ b ∉ before

namespace FirstsOf

variable {xs ys : List α} {a b : α}

theorem nil : FirstsOf ([] : List α) [] := ⟨List.nodup_nil, fun _ => Iff.rfl, .nil⟩

theorem again (h : FirstsOf xs ys) (ha : a ∈ ys) : FirstsOf (xs ++ [a]) ys where
  nodup := h.nodup
  mem_iff b := by
    rw [List.mem_append, ← h.mem_iff, List.mem_singleton]
    exact ⟨.inl, fun hb => hb.elim id fun hb => hb ▸ ha⟩
  ordered := h.ordered.imp fun ⟨before, after, hxs, hb⟩ => ⟨before, after ++ [a], by simp [hxs], hb⟩

theorem first (h : FirstsOf xs ys) (ha : a ∉ ys) : FirstsOf (xs ++ [a]) (ys ++ [a]) where
  nodup := by
    rw [← List.concat_eq_append]
    exact h.nodup.concat ha
  mem_iff b := by simp [h.mem_iff]
  ordered := by
    rw [List.pairwise_append]
    refine ⟨h.ordered.imp ?_, List.pairwise_singleton _ _, ?_⟩
    · rintro b c ⟨before, after, hxs, hc⟩
      exact ⟨before, after ++ [a], by simp [hxs], hc⟩
    · intro b hb c hc
      obtain ⟨before, after, hxs⟩ := List.append_of_mem ((h.mem_iff b).1 hb)
      refine ⟨before, after ++ [a], by simp [hxs], fun hbefore => ha ?_⟩
      rw [← List.mem_singleton.1 hc, h.mem_iff, hxs]
      exact List.mem_append_left _ hbefore

theorem append_distinct {name : α → String} {known : List String} {as : List α} {s : Set α}
    (h : FirstsOf xs ys) (hname : Set.InjOn name s) (hys : ∀ b ∈ ys, b ∈ s)
    (has : ∀ b ∈ as, b ∈ s) (hknown : ∀ text, text ∈ known ↔ text ∈ ys.map name) :
    FirstsOf (xs ++ as) (ys ++ Network.distinct name known as) := by
  induction as generalizing xs ys known with
  | nil =>
      rw [Network.distinct, List.append_nil, List.append_nil]
      exact h
  | cons a as ih =>
      have ha := has a List.mem_cons_self
      have has' : ∀ b ∈ as, b ∈ s := fun b hb => has b (List.mem_cons_of_mem a hb)
      rw [Network.distinct, List.append_cons]
      split
      next hmem =>
        obtain ⟨b, hb, heq⟩ := List.mem_map.1 ((hknown _).1 hmem)
        have hba : b = a := hname (hys b hb) ha heq
        exact ih (h.again (hba ▸ hb)) hys has' hknown
      next hmem =>
        have hnew : a ∉ ys := fun hys => hmem ((hknown _).2 (List.mem_map_of_mem hys))
        rw [List.append_cons ys]
        refine ih (h.first hnew) (fun b hb => ?_) has' fun text => ?_
        · rcases List.mem_append.1 hb with hb | hb
          · exact hys b hb
          · exact List.mem_singleton.1 hb ▸ ha
        · simp [hknown, or_comm, eq_comm]

theorem distinct {name : α → String} (hname : Set.InjOn name {a | a ∈ xs}) :
    FirstsOf xs (Network.distinct name [] xs) :=
  nil.append_distinct hname (List.forall_mem_nil _) (fun _ => id) fun _ => Iff.rfl

end FirstsOf

abbrev Leads (next : α → List α) : α → α → Prop := Relation.ReflTransGen fun a b => b ∈ next a

def Steps (next : α → List α) : Nat → α → α → Prop
  | 0, a, b => b = a
  | k + 1, a, c => ∃ b, Steps next k a b ∧ c ∈ next b

theorem leads_of_steps {next : α → List α} {k : Nat} {a b : α} (h : Steps next k a b) :
    Leads next a b := by
  induction k generalizing b with
  | zero => exact h ▸ .refl
  | succ k ih =>
      obtain ⟨c, hc, hb⟩ := h
      exact (ih hc).tail hb

/-- All that the start leads to and nothing else: the start, then whatever those found lead to, in
the order in which it comes up first. What is nearer to the start comes earlier. -/
structure BreadthFirst (next : α → List α) (start : α) (found : List α) : Prop where
  head : found.head? = some start
  mem_iff : ∀ a, a ∈ found ↔ Leads next start a
  discovered : FirstsOf (start :: found.flatMap next) found
  nearer : found.Pairwise fun a b => ∀ k, Steps next k start b → ∃ j ≤ k, Steps next j start a

namespace FirstsOf

variable {next : α → List α} {start a b : α} {found : List α}

theorem head?_eq (h : FirstsOf (start :: found.flatMap next) found) :
    found.head? = some start := by
  have hmem : start ∈ found := (h.mem_iff start).2 List.mem_cons_self
  have hordered := h.ordered
  cases found with
  | nil => simp at hmem
  | cons a rest =>
      rcases List.mem_cons.1 hmem with rfl | hmem
      · rfl
      · obtain ⟨before, after, heq, hstart⟩ := List.rel_of_pairwise_cons hordered hmem
        cases before with
        | nil => rw [(List.cons.inj heq).1]; rfl
        | cons b before => exact absurd ((List.cons.inj heq).1 ▸ List.mem_cons_self) hstart

theorem mem_of_leads (h : FirstsOf (start :: found.flatMap next) found)
    (ha : Leads next start a) : a ∈ found := by
  induction ha with
  | refl => exact (h.mem_iff start).2 List.mem_cons_self
  | tail _ hstep ih =>
      refine (h.mem_iff _).2 (List.mem_cons_of_mem _ ?_)
      exact List.mem_flatMap.2 ⟨_, ih, hstep⟩

theorem exists_finder (h : FirstsOf (start :: found.flatMap next) found) {c : α}
    (hbefore : [a, b].Sublist found) (hc : c ∈ found) (hb : b ∈ next c) :
    a = start ∨ a ∈ next c ∨ ∃ d, [d, c].Sublist found ∧ a ∈ next d := by
  obtain ⟨before, after, heq, hnot⟩ := List.pairwise_iff_forall_sublist.1 h.ordered hbefore
  obtain ⟨earlier, later, hfound⟩ := List.append_of_mem hc
  have hsplit : start :: found.flatMap next =
      (start :: earlier.flatMap next ++ next c) ++ later.flatMap next := by
    simp [hfound]
  have ha : a ∈ start :: earlier.flatMap next ++ next c := by
    -- Otherwise all of it is in front of `a`, and `b` with it.
    rcases List.append_eq_append_iff.1 (heq.symm.trans hsplit) with
      ⟨rest, hrest, hafter⟩ | ⟨rest, hrest, -⟩
    · cases rest with
      | nil =>
          rw [List.append_nil] at hrest
          exact absurd (hrest ▸ List.mem_append_right _ hb) hnot
      | cons d rest =>
          rw [hrest, (List.cons.inj hafter).1]
          exact List.mem_append_right _ List.mem_cons_self
    · exact absurd (hrest ▸ List.mem_append_left _ (List.mem_append_right _ hb)) hnot
  rcases List.mem_append.1 ha with ha | ha
  · rcases List.mem_cons.1 ha with rfl | ha
    · exact .inl rfl
    · obtain ⟨d, hd, ha⟩ := List.mem_flatMap.1 ha
      refine .inr (.inr ⟨d, ?_, ha⟩)
      rw [hfound]
      exact (List.singleton_sublist.2 hd).append (List.singleton_sublist.2 List.mem_cons_self)
  · exact .inr (.inl ha)

theorem nearer (h : FirstsOf (start :: found.flatMap next) found) {k : Nat}
    (hbefore : [a, b].Sublist found) (hk : Steps next k start b) :
    ∃ j ≤ k, Steps next j start a := by
  induction k generalizing a b with
  | zero =>
      -- Nothing comes before the start.
      have hhead := h.head?_eq
      subst hk
      cases found with
      | nil => simp at hhead
      | cons c rest =>
          rw [List.head?_cons, Option.some.injEq] at hhead
          subst hhead
          have hnodup := List.nodup_cons.1 h.nodup
          cases hbefore with
          | cons _ hbefore => exact absurd (hbefore.subset (by simp)) hnodup.1
          | cons_cons _ hbefore => exact absurd (hbefore.subset (by simp)) hnodup.1
  | succ k ih =>
      obtain ⟨c, hc, hb⟩ := hk
      have hcfound : c ∈ found := h.mem_of_leads (leads_of_steps hc)
      rcases h.exists_finder hbefore hcfound hb with rfl | ha | ⟨d, hd, ha⟩
      · exact ⟨0, Nat.zero_le _, rfl⟩
      · exact ⟨k + 1, Nat.le_refl _, c, hc, ha⟩
      · obtain ⟨j, hj, hsteps⟩ := ih hd hc
        exact ⟨j + 1, Nat.succ_le_succ hj, d, hsteps, ha⟩

end FirstsOf

namespace Network

variable {n : Network α} {start : α} {done found pending : List α}

/-- What was found consists of what has been looked into and of what still has to be. When nothing
is left of the second, all that was found has been looked into. -/
theorem explore_spec (hname : Set.InjOn n.name {a | Leads n.next start a})
    (h : ∀ a ∈ pending, n.Contains a) (hfound : found = done ++ pending)
    (hleads : ∀ a ∈ found, Leads n.next start a)
    (hfirsts : FirstsOf (start :: done.flatMap n.next) found) :
    let all := n.explore found pending h
    (∀ a ∈ all, Leads n.next start a) ∧ FirstsOf (start :: all.flatMap n.next) all := by
  induction found, pending, h using Network.explore.induct n generalizing done with
  | case1 found h _ =>
      rw [List.append_nil] at hfound
      subst hfound
      rw [explore]
      exact ⟨hleads, hfirsts⟩
  | case2 found a rest h _ ih =>
      have ha : a ∈ found := hfound ▸ List.mem_append_right _ List.mem_cons_self
      have hnext : ∀ b ∈ n.next a, Leads n.next start b := fun b hb => (hleads a ha).tail hb
      have hmoved : found ++ n.news found a = (done ++ [a]) ++ (rest ++ n.news found a) := by
        simp [hfound]
      have hdone : FirstsOf (start :: (done ++ [a]).flatMap n.next) (found ++ n.news found a) := by
        rw [List.flatMap_append, List.flatMap_singleton]
        exact hfirsts.append_distinct hname hleads hnext fun _ => Iff.rfl
      rw [explore]
      refine ih hmoved (fun b hb => ?_) hdone
      rcases List.mem_append.1 hb with hb | hb
      · exact hleads b hb
      · exact hnext b (distinct_subset _ _ _ hb)

/-- A search meets everything and in order, as long as no two things that it meets have the same
name. -/
theorem breadthFirst_reachable (h : n.Contains start)
    (hname : Set.InjOn n.name {a | Leads n.next start a}) :
    BreadthFirst n.next start (n.reachable start h) := by
  have hstart : FirstsOf [start] [start] := FirstsOf.nil.first List.not_mem_nil
  have hleads : ∀ a ∈ [start], Leads n.next start a := fun a ha => List.mem_singleton.1 ha ▸ .refl
  have hcontains : ∀ a ∈ [start], n.Contains a := fun a ha => List.mem_singleton.1 ha ▸ h
  have hfound : [start] = [] ++ [start] := rfl
  obtain ⟨hall, hfirsts⟩ := explore_spec hname hcontains hfound hleads hstart
  refine ⟨hfirsts.head?_eq, fun a => ⟨hall a, hfirsts.mem_of_leads⟩, hfirsts, ?_⟩
  exact List.pairwise_iff_forall_sublist.2 fun hbefore _ hk => hfirsts.nearer hbefore hk

end Network

end Codeword
