import Codeword.Proofs.Table.Coverage

namespace Codeword

/-! A test of atoms tells apart what a table is sure to write and what it may write. -/

mutual

/-- Whether every row has an atom that passes the test, itself or through another table. -/
def Table.always (test : Atom → Bool) : Table → Bool
  | ⟨_, rows⟩ => rowsAlways test rows

def rowsAlways (test : Atom → Bool) : List Row → Bool
  | [] => true
  | ⟨_, _, atoms⟩ :: rows => atomsAlways test atoms && rowsAlways test rows

def atomsAlways (test : Atom → Bool) : List Atom → Bool
  | [] => false
  | a :: as => a.always test || atomsAlways test as

def Atom.always (test : Atom → Bool) : Atom → Bool
  | .table t => t.always test
  | a => test a

end

def Table.excludes (test : Atom → Bool) (t : Table) : Bool :=
  t.rows.all fun r => r.atoms.all fun a => !test a

/-- Whether an atom may write what passes the test, itself or through tables. -/
def Atom.may (test : Atom → Bool) : Atom → Bool
  | .table t => !t.every (Table.excludes test)
  | a => test a

def Row.may (test : Atom → Bool) (r : Row) : Bool := r.atoms.any (Atom.may test)

variable {test : Atom → Bool} {s : Site} {as : List Atom} {ts : List Token} {x : Token}

/-- Some atom that passes the test writes the token. -/
def Writes (test : Atom → Bool) (s : Site) (x : Token) : Prop :=
  ∃ a : Atom, test a = true ∧ a.table? = none ∧ a.tokens s = .ok [x]

/-- No other atom writes it. -/
def Detects (test : Atom → Bool) (s : Site) (x : Token) : Prop :=
  ∀ a : Atom, a.table? = none → a.tokens s = .ok [x] → test a = true

theorem atomsAlways_eq_any (as : List Atom) : atomsAlways test as = as.any (Atom.always test) := by
  induction as with
  | nil => rfl
  | cons a as ih => rw [atomsAlways, List.any_cons, ih]

theorem rowsAlways_eq_all (rows : List Row) :
    rowsAlways test rows = rows.all fun r => r.atoms.any (Atom.always test) := by
  induction rows with
  | nil => rfl
  | cons r rows ih =>
      obtain ⟨value, mask, atoms⟩ := r
      rw [rowsAlways, List.all_cons, ih, atomsAlways_eq_any]

theorem Atom.always_of_table? {a : Atom} (h : a.table? = none) : a.always test = test a := by
  cases a with
  | table t => simp [table?] at h
  | _ => rfl

theorem Atom.may_of_table? {a : Atom} (h : a.table? = none) : a.may test = test a := by
  cases a with
  | table t => simp [table?] at h
  | _ => rfl

theorem subset_of_atomTokens (h : atomTokens s as = .ok ts) {a : Atom} (ha : a ∈ as) :
    ∃ us, a.tokens s = .ok us ∧ us ⊆ ts := by
  induction as generalizing ts with
  | nil => simp at ha
  | cons b as ih =>
      obtain ⟨us, vs, hus, hvs, rfl⟩ := atomTokens_cons_eq_ok.1 h
      rcases List.mem_cons.1 ha with rfl | ha
      · exact ⟨us, hus, List.subset_append_left us vs⟩
      · obtain ⟨ws, hws, hsub⟩ := ih hvs ha
        exact ⟨ws, hws, List.subset_append_of_subset_right us hsub⟩

namespace Table

variable {t : Table}

theorem exists_row_of_tokens (h : t.tokens s = .ok ts) :
    ∃ r ∈ t.rows, r.Matches s.word ∧ atomTokens s r.atoms = .ok ts := by
  rw [tokens_eq] at h
  cases hr : t.rows.find? (·.Matches s.word) with
  | none =>
      rw [hr] at h
      cases h
  | some r =>
      rw [hr] at h
      exact ⟨r, List.mem_of_find?_eq_some hr, by simpa using List.find?_some hr, h⟩

/-- What a table always writes is among its tokens, wherever it comes from. -/
theorem exists_token_of_always (h : t.always test = true) (hts : t.tokens s = .ok ts) :
    ∃ x ∈ ts, Writes test s x := by
  induction t using induction generalizing ts with
  | step t ih =>
      obtain ⟨r, hr, -, hatoms⟩ := exists_row_of_tokens hts
      have hrow : r.atoms.any (Atom.always test) = true := by
        obtain ⟨name, rows⟩ := t
        rw [always, rowsAlways_eq_all] at h
        exact List.all_eq_true.1 h r hr
      obtain ⟨a, ha, htest⟩ := List.any_eq_true.1 hrow
      obtain ⟨us, hus, hsub⟩ := subset_of_atomTokens hatoms ha
      cases htable : a.table? with
      | none =>
          obtain ⟨x, hx⟩ := Atom.exists_token (s := s) htable
          rw [hx, Except.ok.injEq] at hus
          rw [Atom.always_of_table? htable] at htest
          exact ⟨x, hsub (hus ▸ List.mem_singleton_self x), a, htest, htable, hx⟩
      | some u =>
          rw [Atom.eq_table_of_table? htable] at ha htest hus
          obtain ⟨x, hx, hwrites⟩ := ih u (mem_references.2 ⟨r, hr, ha⟩) htest hus
          exact ⟨x, hsub hx, hwrites⟩

theorem not_mem_of_every_excludes (h : t.every (excludes test) = true)
    (htest : Detects test s x) (hts : t.tokens s = .ok ts) : x ∉ ts := by
  intro hx
  obtain ⟨u, hu, r, hr, a, ha, htable, hax⟩ := mem_tokens hts hx
  have hexcludes : u.excludes test = true :=
    test_of_every h (Relation.ReflTransGen.mono (fun _ _ => Enters.refers) _ _ hu)
  rw [excludes, List.all_eq_true] at hexcludes
  have hnot := List.all_eq_true.1 (hexcludes r (List.mem_of_find?_eq_some hr)) a ha
  rw [htest a htable hax] at hnot
  cases hnot

end Table

theorem Atom.may_of_mem {a : Atom} (htest : Detects test s x) (hts : a.tokens s = .ok ts)
    (hx : x ∈ ts) : a.may test = true := by
  cases htable : a.table? with
  | none =>
      obtain ⟨y, hy⟩ := Atom.exists_token (s := s) htable
      rw [hy, Except.ok.injEq] at hts
      subst ts
      rw [List.mem_singleton.1 hx] at htest
      rw [Atom.may_of_table? htable]
      exact htest a htable hy
  | some t =>
      rw [Atom.eq_table_of_table? htable] at hts ⊢
      cases hevery : t.every (Table.excludes test) with
      | true => exact absurd hx (Table.not_mem_of_every_excludes hevery htest hts)
      | false => simp [Atom.may, hevery]

theorem Row.may_of_mem {r : Row} (htest : Detects test s x)
    (hts : atomTokens s r.atoms = .ok ts) (hx : x ∈ ts) : r.may test = true := by
  obtain ⟨a, ha, us, hus, hx⟩ := mem_atomTokens hts hx
  rw [may, List.any_eq_true]
  exact ⟨a, ha, Atom.may_of_mem htest hus hx⟩

namespace Table

variable {t : Table}

def writers (test : Atom → Bool) (t : Table) : List Nat :=
  (t.rows.zipIdx.filter fun x => x.1.may test).map Prod.snd

theorem exists_writer (htest : Detects test s x) (hts : t.tokens s = .ok ts) (hx : x ∈ ts) :
    ∃ n ∈ t.writers test, ∃ r, t.rows[n]? = some r ∧ r.Matches s.word ∧
      atomTokens s r.atoms = .ok ts := by
  obtain ⟨r, hr, hmatch, hatoms⟩ := exists_row_of_tokens hts
  obtain ⟨n, hn⟩ := List.mem_iff_getElem?.1 hr
  refine ⟨n, List.mem_map.2 ⟨(r, n), List.mem_filter.2 ⟨?_, ?_⟩, rfl⟩, r, hn, hmatch, hatoms⟩
  · exact List.mk_mem_zipIdx_iff_getElem?.2 hn
  · exact Row.may_of_mem htest hatoms hx

/-- What only one row writes, which leaves all to another table, comes from there. -/
theorem tokens_of_writer {n : Nat} {u : Table} (hwriters : t.writers test = [n])
    (hrow : t.rows[n]?.map Row.atoms = some [.table u]) (htest : Detects test s x)
    (hts : t.tokens s = .ok ts) (hx : x ∈ ts) : u.tokens s = .ok ts := by
  obtain ⟨m, hm, r, hr, -, hatoms⟩ := exists_writer htest hts hx
  rw [hwriters, List.mem_singleton] at hm
  rw [← hm, hr, Option.map_some, Option.some.injEq] at hrow
  rw [hrow] at hatoms
  exact (atomTokens_singleton s (.table u)).symm.trans hatoms

end Table

end Codeword
