import Codeword.Proofs.Video.ScalingList

namespace Codeword.ScalingList

open Code

variable {n m : Nat} {last : UInt32} {d : Int32} {ds : List Int32} {ys : List UInt32}
  {bs : List Bool} {old l : ScalingList n} {r r' : BitReader}

theorem next_eq_zero_iff : next last d = 0 ↔ (last.toNat + d.toInt) % 256 = 0 := by
  rw [← toNat_next, ← UInt32.toNat_inj]
  exact Int.natCast_eq_zero.symm

def reached (last : UInt32) (ds : List Int32) (i : Nat) : Int :=
  (last.toNat + ((ds.take i).map Int32.toInt).sum) % 256

theorem reached_zero (h : last.toNat < 256) (ds : List Int32) : reached last ds 0 = last.toNat := by
  rw [reached, List.take_zero, List.map_nil, List.sum_nil, Int.add_zero]
  exact Int.emod_eq_of_lt (Int.natCast_nonneg _) (by omega)

theorem reached_cons (last : UInt32) (d : Int32) (ds : List Int32) (i : Nat) :
    reached last (d :: ds) (i + 1) = reached (next last d) ds i := by
  rw [reached, reached, toNat_next, List.take_succ_cons, List.map_cons, List.sum_cons,
    Int.emod_add_emod, Int.add_assoc]

/-- The entries after `last`. The first `m` have a difference each, and none of these leads to zero.
If there are more entries, one more difference does, and they are all like the last one. -/
structure Spells (last : UInt32) (ds : List Int32) (m : Nat) (ys : List UInt32) : Prop where
  nonzero : ∀ i ≤ m, reached last ds i ≠ 0
  ends : ds.length = m ∧ m = ys.length ∨
    ds.length = m + 1 ∧ m < ys.length ∧ reached last ds (m + 1) = 0
  entry : ∀ (i : Nat) (h : i < ys.length), (ys[i].toNat : Int) = reached last ds (min (i + 1) m)

theorem nonzero_zero (hlast : 0 < last.toNat ∧ last.toNat < 256) (ds : List Int32) :
    reached last ds 0 ≠ 0 := by
  rw [reached_zero hlast.2]
  omega

namespace Spells

theorem nil (hlast : 0 < last.toNat ∧ last.toNat < 256) : Spells last [] 0 [] where
  nonzero i hi := by
    rw [Nat.le_zero.1 hi]
    exact nonzero_zero hlast []
  ends := .inl ⟨rfl, rfl⟩
  entry i h := absurd h (Nat.not_lt_zero i)

theorem stop (hlast : 0 < last.toNat ∧ last.toNat < 256) (hd : next last d = 0) (n : Nat) :
    Spells last [d] 0 (List.replicate (n + 1) last) where
  nonzero i hi := by
    rw [Nat.le_zero.1 hi]
    exact nonzero_zero hlast [d]
  ends := by
    refine .inr ⟨rfl, by simp, ?_⟩
    rw [reached_cons, hd]
    rfl
  entry i h := by
    rw [List.getElem_replicate, Nat.min_zero, reached_zero hlast.2]

theorem cons (hlast : 0 < last.toNat ∧ last.toNat < 256) (h : Spells (next last d) ds m ys) :
    Spells last (d :: ds) (m + 1) (next last d :: ys) where
  nonzero i hi := by
    cases i with
    | zero => exact nonzero_zero hlast _
    | succ i =>
        rw [reached_cons]
        exact h.nonzero i (Nat.le_of_succ_le_succ hi)
  ends := by
    rw [List.length_cons, List.length_cons, reached_cons]
    rcases h.ends with ⟨hlength, hm⟩ | ⟨hlength, hm, hzero⟩
    · exact .inl ⟨by omega, by omega⟩
    · exact .inr ⟨by omega, by omega, hzero⟩
  entry i hi := by
    cases i with
    | zero =>
        rw [List.getElem_cons_zero, Nat.succ_min_succ, Nat.zero_min, reached_cons,
          reached_zero (next_lt last d)]
    | succ i =>
        rw [List.getElem_cons_succ, Nat.succ_min_succ, reached_cons]
        exact h.entry i (Nat.lt_of_succ_lt_succ hi)

end Spells

theorem Unfolds.exists_spells (h : Unfolds last n bs ys)
    (hlast : 0 < last.toNat ∧ last.toNat < 256) :
    ∃ ds m, (each se).Writes ds bs ∧ Spells last ds m ys := by
  induction h with
  | nil => exact ⟨[], 0, writes_each_nil.2 rfl, .nil hlast⟩
  | @stop last n d bs hd hzero =>
      have hwrites := hd.each_cons (writes_each_nil.2 rfl)
      rw [List.append_nil] at hwrites
      exact ⟨[d], 0, hwrites, .stop hlast hzero n⟩
  | @cons last n d b₁ b₂ ys hd hne _ ih =>
      obtain ⟨ds, m, hwrites, hspells⟩ := ih (next_pos hne)
      exact ⟨d :: ds, m + 1, hd.each_cons hwrites, hspells.cons hlast⟩

theorem exists_spells (hn : 0 < n) (h : read old r = (.ok (), l, r')) :
    ∃ d ds m bs, r.rest = bs ++ r'.rest ∧ (each se).Writes (d :: ds) bs ∧
      Spells 8 (d :: ds) m l.entries ∧ (l.useDefault = true ↔ next 8 d = 0) := by
  have hstart : 0 < (8 : UInt32).toNat ∧ (8 : UInt32).toNat < 256 := by decide
  obtain ⟨d, r₁, hse, hcases⟩ := read_cases hn h
  obtain ⟨b₁, hr, hd⟩ := exists_writes_se hse
  rcases hcases with ⟨hzero, rfl, rfl⟩ | ⟨hne, xs, ys, hlength, rfl, htail⟩
  · have hwrites := hd.each_cons (writes_each_nil.2 rfl)
    rw [List.append_nil] at hwrites
    obtain ⟨k, rfl⟩ := Nat.exists_eq_add_one.2 hn
    exact ⟨d, [], 0, b₁, hr, hwrites, .stop hstart hzero k, iff_of_true rfl hzero⟩
  · obtain ⟨b₂, hr₁, hunfolds⟩ := exists_unfolds htail
    obtain ⟨ds, m, hwrites, hspells⟩ := hunfolds.exists_spells (next_pos hne)
    refine ⟨d, ds, m + 1, b₁ ++ b₂, ?_, hd.each_cons hwrites, hspells.cons hstart, ?_⟩
    · rw [hr, hr₁, List.append_assoc]
    · exact iff_of_false Bool.false_ne_true hne

/-- A list that was read is written and read back, whatever was there before. -/
theorem exists_reads_again (hn : 0 < n) (hrange : InRange l.entries) (hfilled : l.filled = l) :
    ∃ bs, code.Writes l bs ∧ ∀ other : ScalingList n,
      code.Reads other bs ⟨other.present, l.useDefault, l.entries, l.length_entries⟩ := by
  obtain ⟨bs, hwrites⟩ := exists_writes l
  refine ⟨bs, hwrites, fun other => ?_⟩
  let renamed : ScalingList n := ⟨other.present, l.useDefault, l.entries, l.length_entries⟩
  have hrenamed : renamed.filled = renamed := by
    rw [filled] at hfilled ⊢
    by_cases hdefault : l.useDefault = true
    · rw [if_pos hdefault] at hfilled
      rw [if_pos hdefault]
      have hentries : List.replicate n 8 = l.entries := congrArg entries hfilled
      simp only [renamed, defaultList, hentries, hdefault]
    · exact if_neg hdefault
  have hdeltas : (each se).Writes l.written bs := writes_code.1 hwrites
  have hreads : code.Reads other bs renamed.filled :=
    reads_filled hn rfl (fun _ => hrange) (writes_code.2 hdeltas)
  rwa [hrenamed] at hreads

/-- A list is read from differences of any size. The reader stops after the last of them, which is
the only one that may lead to zero, and what it has read is written and read back. -/
theorem read_spells (hn : 0 < n) (h : read old r = (.ok (), l, r')) :
    InRange l.entries ∧
    (∃ d ds m, (each se).read (List.replicate (ds.length + 1) 0) r = (.ok (), d :: ds, r') ∧
      Spells 8 (d :: ds) m l.entries ∧ (l.useDefault = true ↔ (8 + d.toInt) % 256 = 0)) ∧
    (l.useDefault = true → l.entries = List.replicate n 8) ∧
    ∃ bs, code.Writes l bs ∧ ∀ other : ScalingList n,
      code.Reads other bs ⟨other.present, l.useDefault, l.entries, l.length_entries⟩ := by
  obtain ⟨taken, hr, hreads, -, hrange, hfilled⟩ := read_eq_ok h
  obtain ⟨d, ds, m, bs, hr', hwrites, hspells, hdefault⟩ := exists_spells hn h
  refine ⟨hrange, ⟨d, ds, m, ?_, hspells, hdefault.trans next_eq_zero_iff⟩, ?_,
    exists_reads_again hn hrange hfilled⟩
  · have hbits : bs = taken := List.append_cancel_right (hr'.symm.trans hr)
    have hself := hreads r.position r'.rest
    have hall : (each se).Reads (List.replicate (ds.length + 1) 0) bs (d :: ds) :=
      reads_each.2 ⟨by simp, hwrites⟩
    have heach := hall r.position r'.rest
    rw [← hr] at hself
    rw [← hr', hbits] at heach
    have hreader : r' = ⟨r.position + taken.length, r'.rest⟩ :=
      congrArg (·.2.2) (h.symm.trans hself)
    rw [hreader]
    exact heach
  · intro hdefault
    rw [filled, if_pos hdefault] at hfilled
    exact (congrArg entries hfilled).symm

theorem read_spells_wide :
    let old : ScalingList 16 := ⟨true, true, List.replicate 16 77, rfl⟩
    let r := BitReader.ofBytes [0, 62, 128, 7, 132]
    ∃ (l : ScalingList 16) (r' : BitReader), read old r = (.ok (), l, r') ∧ r'.position = 38 ∧
      l.useDefault = false ∧ l.entries = List.replicate 16 240 ∧
      (∃ d ds m, (each se).read (List.replicate (ds.length + 1) 0) r = (.ok (), d :: ds, r') ∧
        Spells 8 (d :: ds) m l.entries) ∧
      ∃ bs, code.Writes l bs ∧ code.Reads old bs l := by
  intro old r
  let l : ScalingList 16 := ⟨true, false, List.replicate 16 240, rfl⟩
  have h : read old r = (.ok (), l, r.skip 38) := by cbv
  obtain ⟨-, ⟨d, ds, m, hread, hspells, -⟩, -, bs, hwrites, hreads⟩ := read_spells (by decide) h
  exact ⟨l, r.skip 38, h, rfl, rfl, rfl, ⟨d, ds, m, hread, hspells⟩, bs, hwrites, hreads old⟩

end Codeword.ScalingList
