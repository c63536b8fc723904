import Codeword.Proofs.Search
import Codeword.Table.Build
import Codeword.Table.Reach

namespace Codeword

variable {α : Type}

theorem mem_of_leads {next : α → List α} {xs : List α} {start a : α} (hstart : start ∈ xs)
    (hclosed : ∀ b ∈ xs, next b ⊆ xs) (h : Leads next start a) : a ∈ xs := by
  induction h with
  | refl => exact hstart
  | tail _ hstep ih => exact hclosed _ ih hstep

theorem injOn_name_of_closed {name : α → String} {next : α → List α} {xs : List α} {start : α}
    (hstart : start ∈ xs) (hclosed : ∀ b ∈ xs, next b ⊆ xs) (hname : (xs.map name).Nodup) :
    Set.InjOn name {a | Leads next start a} :=
  fun _ ha _ hb => List.inj_on_of_nodup_map hname (mem_of_leads hstart hclosed ha)
    (mem_of_leads hstart hclosed hb)

namespace Table

/-- From any start the search ends with all that the start leads to, in the order of discovery,
whatever is shared and wherever there is a cycle. So it does from a table, and its direct uses come
in the order of their first places. Names only have to tell apart what the start leads to. -/
theorem reachable_breadthFirst :
    (∀ (α : Type) (n : Network α) (start : α) (h : n.Contains start),
      Set.InjOn n.name {a | Leads n.next start a} →
        BreadthFirst n.next start (n.reachable start h)) ∧
    ∀ t : Table, Set.InjOn name {u | Leads references t u} →
      BreadthFirst references t t.reachable ∧ FirstsOf t.references t.subtables := by
  refine ⟨fun α n start h hname => n.breadthFirst_reachable h hname, fun t hname => ⟨?_, ?_⟩⟩
  · exact t.network.breadthFirst_reachable (List.Subset.refl _) hname
  · exact FirstsOf.distinct fun u hu v hv => hname (.single hu) (.single hv)

theorem reachable_breadthFirst_diamond :
    let leaf : Table := ⟨"leaf", []⟩
    let left : Table := ⟨"left", [.otherwise [.table leaf]]⟩
    let right : Table := ⟨"right", [.otherwise [.table leaf, .table left]]⟩
    let top : Table := ⟨"top", [⟨0, 1, [.table right, .table left]⟩, .otherwise [.table right]]⟩
    let cycle : Network Nat :=
      { name := toString, next := fun i => [i % 3, (i + 1) % 3], Contains := (· < 3)
        contains_next := by simp; omega, finite := ⟨["0", "1", "2"], by decide⟩ }
    BreadthFirst references top [top, right, left, leaf] ∧ FirstsOf top.references [right, left] ∧
      BreadthFirst cycle.next 1 [1, 2, 0] := by
  intro leaf left right top cycle
  obtain ⟨networks, tables⟩ := reachable_breadthFirst
  have htop : Set.InjOn name {u | Leads references top u} := by
    have hclosed : ∀ u ∈ [top, right, left, leaf], u.references ⊆ [top, right, left, leaf] := by
      simp [references, top, right, left, leaf, Row.otherwise, Atom.table?]
    exact injOn_name_of_closed List.mem_cons_self hclosed (by decide)
  have hcycle : Set.InjOn cycle.name {i | Leads cycle.next 1 i} := by
    have hclosed : ∀ i ∈ [1, 2, 0], cycle.next i ⊆ [1, 2, 0] := by decide
    exact injOn_name_of_closed List.mem_cons_self hclosed (by decide)
  have hreachable : top.reachable = [top, right, left, leaf] := by cbv
  have hall : cycle.reachable 1 (by decide) = [1, 2, 0] := by cbv
  obtain ⟨hbreadth, hfirsts⟩ := tables top htop
  exact ⟨hreachable ▸ hbreadth, hfirsts, hall ▸ networks Nat cycle 1 _ hcycle⟩

end Table

end Codeword
