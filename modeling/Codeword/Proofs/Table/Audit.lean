import Codeword.Proofs.Word
import Codeword.Table.Audit

namespace Codeword

namespace Row

variable {r earlier later : Row} {word : Word}

/-- The bits that the row asks for, and those of the word where it asks for none. -/
def fill (r : Row) (word : Word) : Word := r.value ||| word &&& ~~~r.mask

theorem getLsbD_value_of_matches (h : r.Matches word) (i : Nat) :
    r.value.getLsbD i = (word.getLsbD i && r.mask.getLsbD i) := by
  rw [← h, BitVec.getLsbD_and]

theorem Matches.value_inside (h : r.Matches word) : r.value &&& ~~~r.mask = 0 := by
  rw [← h, BitVec.and_assoc, BitVec.and_not_self]
  exact BitVec.and_zero

theorem fill_matches (h : r.value &&& ~~~r.mask = 0) (word : Word) : r.Matches (r.fill word) := by
  apply BitVec.eq_of_getLsbD_eq
  intro i hi
  have hvalue := congrArg (BitVec.getLsbD · i) h
  simp only [BitVec.getLsbD_and, BitVec.getLsbD_not, hi, decide_true, Bool.true_and] at hvalue
  simp only [fill, BitVec.getLsbD_and, BitVec.getLsbD_or, BitVec.getLsbD_not, hi, decide_true,
    Bool.true_and]
  cases hmask : r.mask.getLsbD i with
  | true => simp
  | false => simpa [hmask] using hvalue.symm

theorem exists_matches_iff : (∃ word, r.Matches word) ↔ r.value &&& ~~~r.mask = 0 := by
  constructor
  · rintro ⟨word, h⟩
    exact h.value_inside
  · intro h
    exact ⟨r.fill 0, fill_matches h 0⟩

theorem matches_of_covers (h : Table.covers earlier later = true) (hlater : later.Matches word) :
    earlier.Matches word := by
  rw [Table.covers, Bool.and_eq_true, beq_iff_eq, beq_iff_eq] at h
  obtain ⟨hmask, hvalue⟩ := h
  have hinside : ~~~(~~~later.mask) &&& earlier.mask = earlier.mask := by
    apply Word.not_and_of_disjoint
    rw [BitVec.and_comm, hmask]
  rw [BitVec.not_not] at hinside
  rw [Matches, ← hinside, ← BitVec.and_assoc, hlater, hvalue]

/-- Two words show what an earlier row asks for more than a later one: those with zeros and with ones
wherever the later one does not ask. -/
theorem covers_of_forall (h : later.value &&& ~~~later.mask = 0)
    (hforall : ∀ word, later.Matches word → earlier.Matches word) :
    Table.covers earlier later = true := by
  have hzeros : later.value &&& earlier.mask = earlier.value := by
    have hmatch := hforall _ (fill_matches h 0)
    rwa [Matches, fill, show (0 : Word) &&& ~~~later.mask = 0 from BitVec.zero_and,
      show later.value ||| (0 : Word) = later.value from BitVec.or_zero] at hmatch
  have hones := hforall _ (fill_matches h (BitVec.allOnes 64))
  rw [Table.covers, Bool.and_eq_true, beq_iff_eq, beq_iff_eq]
  refine ⟨?_, hzeros⟩
  apply BitVec.eq_of_getLsbD_eq
  intro i hi
  have hout := congrArg (BitVec.getLsbD · i) h
  have hzero := congrArg (BitVec.getLsbD · i) hzeros
  have hone := getLsbD_value_of_matches hones i
  simp only [fill, BitVec.getLsbD_and, BitVec.getLsbD_or, BitVec.getLsbD_not, BitVec.getLsbD_allOnes,
    hi, decide_true, Bool.true_and] at hout hzero hone ⊢
  rw [← hzero] at hone
  cases hlater : later.mask.getLsbD i with
  | true => simp
  | false =>
      rw [hlater] at hout hone
      cases hearlier : earlier.mask.getLsbD i <;> simp_all

theorem covers_iff (h : ∃ word, later.Matches word) :
    Table.covers earlier later = true ↔ ∀ word, later.Matches word → earlier.Matches word := by
  constructor
  · intro hcovers word hlater
    exact matches_of_covers hcovers hlater
  · exact covers_of_forall (exists_matches_iff.1 h)

end Row

namespace Table

variable {t : Table} {i j n : Nat} {later : Row} {word : Word}

theorem find_eq_some : t.find word = some n ↔ ∃ r, t.rows[n]? = some r ∧ r.Matches word ∧
    ∀ k < n, ∀ r', t.rows[k]? = some r' → ¬r'.Matches word := by
  rw [find, List.findIdx?_eq_some_iff_getElem]
  constructor
  · rintro ⟨hn, hmatch, hbefore⟩
    refine ⟨t.rows[n], List.getElem?_eq_getElem hn, of_decide_eq_true hmatch, ?_⟩
    intro k hk r' hr'
    obtain ⟨hlt, rfl⟩ := List.getElem?_eq_some_iff.1 hr'
    simpa using hbefore k hk
  · rintro ⟨r, hr, hmatch, hbefore⟩
    obtain ⟨hn, rfl⟩ := List.getElem?_eq_some_iff.1 hr
    refine ⟨hn, decide_eq_true hmatch, ?_⟩
    intro k hk
    simpa using hbefore k hk _ (List.getElem?_eq_getElem (Nat.lt_trans hk hn))

theorem mem_malformed :
    i ∈ t.malformed ↔ ∃ r, t.rows[i]? = some r ∧ ∀ word, ¬r.Matches word := by
  have hnever (r : Row) : (r.value &&& ~~~r.mask != 0) = true ↔ ∀ word, ¬r.Matches word := by
    rw [bne_iff_ne, ne_eq, ← Row.exists_matches_iff, not_exists]
  simp only [malformed, List.mem_map, List.mem_filter, hnever, Prod.exists, exists_eq_right,
    List.mk_mem_zipIdx_iff_getElem?]

theorem mem_shadowed : (j, i) ∈ t.shadowed ↔ ∃ later, t.rows[j]? = some later ∧
    (t.rows.take j).findIdx? (covers · later) = some i := by
  simp only [shadowed, List.mem_filterMap, Prod.exists, List.mk_mem_zipIdx_iff_getElem?,
    Option.map_eq_some_iff, Prod.mk.injEq]
  constructor
  · rintro ⟨later, _, hlater, _, hi, rfl, rfl⟩
    exact ⟨later, hlater, hi⟩
  · rintro ⟨later, hlater, hi⟩
    exact ⟨later, j, hlater, i, hi, rfl, rfl⟩

def Hides (t : Table) (i j : Nat) : Prop :=
  i < j ∧ ∃ earlier later, t.rows[i]? = some earlier ∧ t.rows[j]? = some later ∧
    ∀ word, later.Matches word → earlier.Matches word

theorem hides_iff (hlater : t.rows[j]? = some later) :
    t.Hides i j ↔ i < j ∧ ∃ earlier, t.rows[i]? = some earlier ∧
      ∀ word, later.Matches word → earlier.Matches word := by
  simp only [Hides, hlater, Option.some.injEq, exists_and_left, exists_eq_left']

theorem mem_shadowed_of_matches (hlater : t.rows[j]? = some later)
    (hmatch : ∃ word, later.Matches word) :
    (j, i) ∈ t.shadowed ↔ IsLeast {i | t.Hides i j} i := by
  have hj : j < t.rows.length := (List.getElem?_eq_some_iff.1 hlater).1
  -- Among the rows before the later one, those that cover it are those that hide it.
  have hcovers (k : Nat) (hk : k < (t.rows.take j).length) :
      covers (t.rows.take j)[k] later = true ↔ t.Hides k j := by
    have hlt : k < j := by
      rw [List.length_take] at hk
      omega
    rw [List.getElem_take, Row.covers_iff hmatch, hides_iff hlater,
      List.getElem?_eq_getElem (Nat.lt_trans hlt hj)]
    simp [hlt]
  simp only [mem_shadowed, hlater, Option.some.injEq, exists_eq_left',
    List.findIdx?_eq_some_iff_getElem]
  constructor
  · rintro ⟨hi, hcover, hbefore⟩
    refine ⟨(hcovers i hi).1 hcover, ?_⟩
    intro k hk
    by_contra hki
    exact hbefore k (by omega) ((hcovers k (by omega)).2 hk)
  · rintro ⟨hhides, hleast⟩
    have hi : i < (t.rows.take j).length := by
      have hlt := hhides.1
      rw [List.length_take]
      omega
    refine ⟨hi, (hcovers i hi).2 hhides, ?_⟩
    intro k hk hcover
    exact absurd (hleast ((hcovers k (by omega)).1 hcover)) (by omega)

theorem pairwise_zipIdx {α : Type} (xs : List α) :
    xs.zipIdx.Pairwise fun a b => a.2 < b.2 := by
  have h := List.pairwise_lt_range' (s := 0) (n := xs.length) 1
  rw [← List.zipIdx_map_snd 0 xs] at h
  exact List.pairwise_map.1 h

theorem pairwise_malformed (t : Table) : t.malformed.Pairwise (· < ·) :=
  List.pairwise_map.2 ((pairwise_zipIdx t.rows).filter _)

theorem pairwise_shadowed (t : Table) : t.shadowed.Pairwise fun a b => a.1 < b.1 := by
  refine (pairwise_zipIdx t.rows).filterMap _ ?_
  intro a b hab x hx y hy
  obtain ⟨_, -, rfl⟩ := Option.map_eq_some_iff.1 hx
  obtain ⟨_, -, rfl⟩ := Option.map_eq_some_iff.1 hy
  exact hab

theorem not_mem_of_find (h : t.find word = some n) :
    n ∉ t.malformed ∧ ∀ i, (n, i) ∉ t.shadowed := by
  obtain ⟨r, hr, hmatch, hbefore⟩ := find_eq_some.1 h
  constructor
  · intro hmem
    obtain ⟨r', hr', hnever⟩ := mem_malformed.1 hmem
    rw [hr, Option.some.injEq] at hr'
    subst hr'
    exact hnever word hmatch
  · intro i hmem
    have hhides := ((mem_shadowed_of_matches hr ⟨word, hmatch⟩).1 hmem).1
    obtain ⟨hi, earlier, hearlier, htakes⟩ := (hides_iff hr).1 hhides
    exact hbefore i hi earlier hearlier (htakes word hmatch)

theorem malformed_eq_nil (h : ∀ r ∈ t.rows, ∃ word, r.Matches word) : t.malformed = [] := by
  rw [List.eq_nil_iff_forall_not_mem]
  intro i hi
  obtain ⟨r, hr, hnever⟩ := mem_malformed.1 hi
  obtain ⟨word, hword⟩ := h r (List.mem_of_getElem? hr)
  exact hnever word hword

theorem shadowed_eq_nil
    (h : t.rows.Pairwise fun earlier later => ∃ word, later.Matches word ∧ ¬earlier.Matches word) :
    t.shadowed = [] := by
  rw [List.eq_nil_iff_forall_not_mem]
  rintro ⟨j, i⟩ hmem
  obtain ⟨later, hlater, hi⟩ := mem_shadowed.1 hmem
  obtain ⟨hlt, hcovers, -⟩ := List.findIdx?_eq_some_iff_getElem.1 hi
  obtain ⟨hj, rfl⟩ := List.getElem?_eq_some_iff.1 hlater
  rw [List.length_take] at hlt
  rw [List.getElem_take] at hcovers
  obtain ⟨word, hword, hnot⟩ := List.pairwise_iff_getElem.1 h i j (by omega) hj (by omega)
  exact hnot (Row.matches_of_covers hcovers hword)

/-- The audits are exact. A row is malformed if it takes no word. Of a row that takes some word, the
shadow is the first earlier row that takes all of them. What a word finds is in neither list. -/
theorem audits_exact (t : Table) :
    (t.malformed.Pairwise (· < ·) ∧
      ∀ i, i ∈ t.malformed ↔ ∃ r, t.rows[i]? = some r ∧ ∀ word, ¬r.Matches word) ∧
    (t.shadowed.Pairwise (fun a b => a.1 < b.1) ∧
      ∀ j later, t.rows[j]? = some later → (∃ word, later.Matches word) →
        ∀ i, (j, i) ∈ t.shadowed ↔ IsLeast {i | t.Hides i j} i) ∧
    ∀ word n, t.find word = some n → n ∉ t.malformed ∧ ∀ i, (n, i) ∉ t.shadowed := by
  refine ⟨⟨pairwise_malformed t, fun _ => mem_malformed⟩, ⟨pairwise_shadowed t, ?_⟩, ?_⟩
  · intro j later hlater hmatch i
    exact mem_shadowed_of_matches hlater hmatch
  · intro word n h
    exact not_mem_of_find h

theorem audits_exact_hidden :
    let t : Table := ⟨"hidden", [⟨1, 1, []⟩, ⟨3, 1, []⟩, ⟨3, 3, []⟩, ⟨2, 3, []⟩]⟩
    (∀ word, ¬Row.Matches ⟨3, 1, []⟩ word) ∧ IsLeast {i | t.Hides i 2} 0 ∧
      (¬∃ i, IsLeast {i | t.Hides i 3} i) ∧ t.find 2 = some 3 ∧ 3 ∉ t.malformed := by
  intro t
  obtain ⟨⟨-, hmalformed⟩, ⟨-, hshadowed⟩, hfind⟩ := audits_exact t
  have hnever : ∀ word, ¬Row.Matches ⟨3, 1, []⟩ word := by
    obtain ⟨r, hr, h⟩ := (hmalformed 1).1 (by decide)
    cases hr
    exact h
  have hleast := (hshadowed 2 ⟨3, 3, []⟩ rfl ⟨3, by decide⟩ 0).1 (by decide)
  have hfirst : t.find 2 = some 3 := by decide
  refine ⟨hnever, hleast, ?_, hfirst, (hfind 2 3 hfirst).1⟩
  rintro ⟨i, hi⟩
  have hmem := (hshadowed 3 ⟨2, 3, []⟩ rfl ⟨2, by decide⟩ i).2 hi
  exact (hfind 2 3 hfirst).2 i hmem

end Table

end Codeword
