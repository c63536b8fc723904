import Codeword.Field.Basic
import Codeword.Proofs.Word

namespace Codeword.Field

variable {f : Field} {n : Word} {i : Int}

/-- A word as the integer that the field takes it for. -/
def integer (f : Field) (word : Word) : Int := if f.signed then word.toInt else word.toNat

def Holds (f : Field) (i : Int) : Prop :=
  if f.width = 0 then i = 0
  else if f.signed then -2 ^ (f.width - 1) ≤ i ∧ i < 2 ^ (f.width - 1)
  else 0 ≤ i ∧ i < 2 ^ f.width

instance (f : Field) (i : Int) : Decidable (f.Holds i) :=
  inferInstanceAs (Decidable (if f.width = 0 then i = 0
    else if f.signed then -2 ^ (f.width - 1) ≤ i ∧ i < 2 ^ (f.width - 1)
    else 0 ≤ i ∧ i < 2 ^ f.width))

theorem integer_signed (hsigned : f.signed = true) (word : Word) : f.integer word = word.toInt :=
  if_pos hsigned

theorem integer_unsigned (hsigned : f.signed = false) (word : Word) :
    f.integer word = word.toNat := by
  rw [integer, hsigned]
  rfl

theorem integer_inj {a b : Word} (h : f.integer a = f.integer b) : a = b := by
  rw [integer, integer] at h
  split at h
  · exact BitVec.eq_of_toInt_eq h
  · exact BitVec.eq_of_toNat_eq (Int.ofNat_inj.1 h)

theorem holds_zero (hwidth : f.width = 0) : f.Holds i ↔ i = 0 := by
  rw [Holds, if_pos hwidth]

theorem holds_signed (hwidth : 0 < f.width) (hsigned : f.signed = true) :
    f.Holds i ↔ -2 ^ (f.width - 1) ≤ i ∧ i < 2 ^ (f.width - 1) := by
  rw [Holds, if_neg (Nat.ne_of_gt hwidth), if_pos hsigned]

theorem holds_unsigned (hsigned : f.signed = false) : f.Holds i ↔ 0 ≤ i ∧ i < 2 ^ f.width := by
  rw [Holds, hsigned]
  split
  next hwidth =>
    rw [hwidth]
    omega
  next => rfl

/-- The test on the clipped range says whether the field holds the number. -/
theorem inRange_iff : f.InRange n ↔ f.Holds (f.integer n) := by
  have hnarrow : f.width ≤ 64 := f.layout.narrow
  have hcond := BitVec.toInt_eq_toNat_cond n
  have hlt := n.isLt
  rcases Nat.eq_zero_or_pos f.width with hzero | hwidth
  · rw [holds_zero hzero, InRange, range, if_pos hzero, integer]
    split at hcond <;> split <;> simp <;> omega
  cases hsigned : f.signed with
  | true =>
      rw [holds_signed hwidth hsigned, integer_signed hsigned, InRange, range,
        if_neg (Nat.ne_of_gt hwidth), if_pos hsigned, hsigned]
      simp [Nat.one_shiftLeft]
  | false =>
      rw [holds_unsigned hsigned, integer_unsigned hsigned, InRange, range,
        if_neg (Nat.ne_of_gt hwidth), hsigned]
      simp only [Nat.one_shiftLeft, Bool.false_eq_true, if_false, true_and]
      push_cast
      rcases Nat.lt_or_ge f.width 64 with hshort | hlong
      · have hmin : min f.width 63 = f.width := by omega
        have hpow : (2 : Int) ^ f.width ≤ 2 ^ 63 := pow_le_pow_right₀ (by decide) (by omega)
        rw [hmin]
        split at hcond <;> omega
      · have hfull : f.width = 64 := by omega
        rw [hfull]
        omega

theorem toNat_lt_of_holds (h : f.Holds (f.integer n)) (hsigned : f.signed = false) :
    n.toNat < 2 ^ f.width := by
  rw [holds_unsigned hsigned, integer_unsigned hsigned] at h
  exact_mod_cast h.2

theorem eq_zero_of_holds (h : f.Holds (f.integer n)) (hwidth : f.width = 0) : n = 0#64 := by
  apply integer_inj (f := f)
  rw [holds_zero hwidth] at h
  rw [h, integer]
  simp

theorem integer_shiftLeft (h : f.Holds (f.integer n)) (hfit : f.width + f.shift ≤ 64) :
    f.integer (n <<< f.shift) = f.integer n * 2 ^ f.shift := by
  cases hsigned : f.signed with
  | true =>
      rcases Nat.eq_zero_or_pos f.width with hzero | hwidth
      · rw [eq_zero_of_holds h hzero, BitVec.zero_shiftLeft, integer]
        simp
      rw [holds_signed hwidth hsigned, integer_signed hsigned] at h
      rw [integer_signed hsigned, integer_signed hsigned, BitVec.toInt_shiftLeft, Nat.shiftLeft_eq]
      push_cast
      rw [← Int.bmod_mul_bmod, ← BitVec.toInt_eq_toNat_bmod]
      have hpow : (2 : Int) ^ (f.width - 1) * 2 ^ f.shift ≤ 2 ^ 63 := by
        rw [← pow_add]
        exact pow_le_pow_right₀ (by decide) (by omega)
      have hpos : (0 : Int) < 2 ^ f.shift := by positivity
      apply Int.bmod_eq_of_le_mul_two
      · push_cast
        nlinarith
      · push_cast
        nlinarith
  | false =>
      have hlt := toNat_lt_of_holds h hsigned
      have hpow : 2 ^ f.width * 2 ^ f.shift ≤ 2 ^ 64 := by
        rw [← pow_add]
        exact Nat.pow_le_pow_right (by decide) hfit
      have hprod : n.toNat * 2 ^ f.shift < 2 ^ 64 :=
        Nat.lt_of_lt_of_le (Nat.mul_lt_mul_of_pos_right hlt (Nat.two_pow_pos _)) hpow
      rw [integer_unsigned hsigned, integer_unsigned hsigned, BitVec.toNat_shiftLeft,
        Nat.shiftLeft_eq, Nat.mod_eq_of_lt hprod]
      push_cast
      rfl

end Codeword.Field
