import Codeword.Proofs.Bitstream.Calls

namespace Codeword

namespace BitReader

variable {r r' r'' : BitReader} {n : Nat}

/-- The second reader has taken some bits more, and these were there. -/
def Reaches (r r' : BitReader) : Prop := ∃ n ≤ r.rest.length, r' = r.skip n

theorem skip_skip (r : BitReader) (m n : Nat) : (r.skip m).skip n = r.skip (m + n) := by
  rw [skip, skip, skip, List.drop_drop, Nat.add_assoc]

theorem length_skip (r : BitReader) (n : Nat) : (r.skip n).rest.length = r.rest.length - n :=
  List.length_drop

theorem reaches_skip (h : n ≤ r.rest.length) : r.Reaches (r.skip n) := ⟨n, h, rfl⟩

namespace Reaches

theorem refl (r : BitReader) : r.Reaches r := ⟨0, Nat.zero_le _, rfl⟩

theorem trans (h : r.Reaches r') (h' : r'.Reaches r'') : r.Reaches r'' := by
  obtain ⟨m, hm, rfl⟩ := h
  obtain ⟨n, hn, rfl⟩ := h'
  rw [length_skip] at hn
  exact ⟨m + n, by omega, skip_skip r m n⟩

theorem getElem?_rest (h : r.Reaches r') :
    ∃ n, r'.position = r.position + n ∧ ∀ i, r'.rest[i]? = r.rest[n + i]? := by
  obtain ⟨n, -, rfl⟩ := h
  exact ⟨n, rfl, fun i => List.getElem?_drop⟩

end Reaches

theorem exhausted_reaches {α : Type} (r : BitReader) : r.Reaches (r.exhausted (α := α)).2 :=
  reaches_skip (Nat.le_refl _)

theorem u_reaches (r : BitReader) (bits : Nat) : r.Reaches (r.u bits).2 := by
  rw [u]
  split
  · exact .refl r
  split
  · exact r.exhausted_reaches
  next hlong => exact reaches_skip (Nat.le_of_not_lt hlong)

theorem flag_reaches (r : BitReader) : r.Reaches r.flag.2 := by
  rw [flag]
  split
  · exact r.exhausted_reaches
  next b bs hrest => exact reaches_skip (by rw [hrest]; exact Nat.succ_pos _)

theorem ue_reaches (r : BitReader) : r.Reaches r.ue.2 := by
  have hzeros : (r.rest.takeWhile (!·)).length ≤ r.rest.length :=
    (List.takeWhile_sublist _).length_le
  simp only [ue]
  split
  next hmany => exact reaches_skip (Nat.le_trans hmany hzeros)
  split
  · exact r.exhausted_reaches
  next hlong => exact reaches_skip (Nat.le_of_not_lt hlong)

theorem se_reaches (r : BitReader) : r.Reaches r.se.2 := r.ue_reaches

theorem padding_reaches (fill : Bool) (n : Nat) (r : BitReader) :
    r.Reaches (padding fill n r).2 := by
  induction n generalizing r with
  | zero => exact .refl r
  | succ n ih =>
      rw [padding]
      split
      · exact r.exhausted_reaches
      next b bs hrest =>
        have hone : r.Reaches (r.skip 1) := reaches_skip (by rw [hrest]; exact Nat.succ_pos _)
        split
        · exact hone.trans (ih _)
        · exact hone

end BitReader

theorem Call.reaches (c : Call) (r : BitReader) : r.Reaches (c.read r).2 := by
  cases c with
  | u bits => exact r.u_reaches bits
  | ue => exact r.ue_reaches
  | se => exact r.se_reaches
  | flag => exact r.flag_reaches
  | align fill => exact BitReader.padding_reaches fill _ r

namespace BitReader

def after (r : BitReader) (cs : List Call) : BitReader := cs.foldl (fun r c => (c.read r).2) r

theorem after_reaches (r : BitReader) (cs : List Call) : r.Reaches (r.after cs) := by
  induction cs generalizing r with
  | nil => exact .refl r
  | cons c cs ih => exact (c.reaches r).trans (ih _)

end BitReader

end Codeword
