import Codeword.Word
import Mathlib

namespace Codeword.Word

variable {word : Word} {k n : Nat}

theorem getLsbD_lowBits (n i : Nat) :
    (lowBits n).getLsbD i = (decide (i < n) && decide (i < 64)) := by
  rw [lowBits, Nat.one_shiftLeft, BitVec.getLsbD_ofNat, Nat.testBit_two_pow_sub_one, Bool.and_comm]

theorem lowBits_zero : lowBits 0 = 0 := rfl

theorem lowBits_add (m n : Nat) : lowBits (m + n) = lowBits m <<< n ||| lowBits n := by
  apply BitVec.eq_of_getLsbD_eq
  intro i hi
  simp only [BitVec.getLsbD_or, BitVec.getLsbD_shiftLeft, getLsbD_lowBits]
  by_cases hlow : i < n
  · have hsum : i < m + n := by omega
    simp [hi, hlow, hsum]
  · have hm : i - n < m ↔ i < m + n := by omega
    have hword : i - n < 64 := by omega
    simp [hi, hlow, hm, hword]

theorem toNat_and_lowBits (word : Word) (n : Nat) :
    (word &&& lowBits n).toNat = word.toNat % 2 ^ n := by
  apply Nat.eq_of_testBit_eq
  intro i
  rw [Nat.testBit_mod_two_pow]
  change (word &&& lowBits n).getLsbD i = (decide (i < n) && word.getLsbD i)
  rw [BitVec.getLsbD_and, getLsbD_lowBits]
  by_cases hi : i < 64
  · simp [hi, Bool.and_comm]
  · simp [BitVec.getLsbD_of_ge word i (by omega)]

theorem shiftLeft_or_lowBits (word : Word) (m n : Nat) :
    (word >>> n &&& lowBits m) <<< n ||| (word &&& lowBits n) = word &&& lowBits (m + n) := by
  apply BitVec.eq_of_getLsbD_eq
  intro i hi
  simp only [BitVec.getLsbD_or, BitVec.getLsbD_and, BitVec.getLsbD_shiftLeft,
    BitVec.getLsbD_ushiftRight, getLsbD_lowBits]
  by_cases hlow : i < n
  · have hsum : i < m + n := by omega
    simp [hi, hlow, hsum]
  · have hback : n + (i - n) = i := by omega
    have hm : i - n < m ↔ i < m + n := by omega
    have hword : i - n < 64 := by omega
    simp [hi, hlow, hback, hm, hword]

theorem shiftLeft_or_and_lowBits (a : Word) {b : Word} (hb : b &&& lowBits n = b) :
    (a <<< n ||| b) &&& lowBits n = b := by
  conv => rhs; rw [← hb]
  apply BitVec.eq_of_getLsbD_eq
  intro i hi
  simp only [BitVec.getLsbD_or, BitVec.getLsbD_and, BitVec.getLsbD_shiftLeft, getLsbD_lowBits]
  by_cases hlow : i < n
  · simp [hi, hlow]
  · simp [hlow]

theorem shiftLeft_and_lowBits (word : Word) (n : Nat) : word <<< n &&& lowBits n = 0 := by
  have h := shiftLeft_or_and_lowBits word (BitVec.zero_and : 0#64 &&& lowBits n = 0#64)
  rwa [BitVec.or_zero] at h

theorem shiftLeft_or_shiftRight (a : Word) {b : Word} {m : Nat} (hb : b &&& lowBits n = b)
    (hfit : m + n ≤ 64) : (a <<< n ||| b) >>> n &&& lowBits m = a &&& lowBits m := by
  rw [← hb]
  apply BitVec.eq_of_getLsbD_eq
  intro i hi
  simp only [BitVec.getLsbD_or, BitVec.getLsbD_and, BitVec.getLsbD_shiftLeft,
    BitVec.getLsbD_ushiftRight, getLsbD_lowBits]
  have hle : ¬n + i < n := by omega
  have hback : n + i - n = i := by omega
  by_cases hm : i < m
  · have hword : n + i < 64 := by omega
    simp [hm, hle, hback, hword]
  · simp [hm]

theorem and_lowBits_shiftRight (word : Word) (n k : Nat) :
    word >>> k &&& lowBits n = (word &&& lowBits n <<< k) >>> k := by
  apply BitVec.eq_of_getLsbD_eq
  intro i hi
  simp only [BitVec.getLsbD_and, BitVec.getLsbD_shiftLeft, BitVec.getLsbD_ushiftRight,
    getLsbD_lowBits]
  by_cases hk : k + i < 64
  · have hle : ¬k + i < k := by omega
    simp [hi, hk, hle]
  · rw [BitVec.getLsbD_of_ge word (k + i) (by omega)]
    simp

theorem getLsbD_and_of_disjoint {a b : Word} (h : a &&& b = 0) (i : Nat) :
    (a.getLsbD i && b.getLsbD i) = false := by
  rw [← BitVec.getLsbD_and, h]
  exact BitVec.getLsbD_zero

theorem not_and_of_disjoint {a b : Word} (h : a &&& b = 0) : ~~~a &&& b = b := by
  apply BitVec.eq_of_getLsbD_eq
  intro i hi
  have hbit := getLsbD_and_of_disjoint h i
  rw [BitVec.getLsbD_and, BitVec.getLsbD_not]
  cases ha : a.getLsbD i with
  | true => simpa [ha] using hbit.symm
  | false => simp [hi]

theorem ushiftRight_shiftLeft (h : word &&& lowBits k = 0) : word >>> k <<< k = word := by
  apply BitVec.eq_of_getLsbD_eq
  intro i hi
  rw [BitVec.getLsbD_shiftLeft, BitVec.getLsbD_ushiftRight]
  by_cases hik : i < k
  · have hbit := getLsbD_and_of_disjoint h i
    rw [getLsbD_lowBits] at hbit
    simpa [hik, hi] using hbit
  · have hback : k + (i - k) = i := by omega
    simp [hi, hik, hback]

theorem and_lowBits_shiftLeft (word : Word) (n k : Nat) :
    word &&& lowBits n <<< k = (word >>> k &&& lowBits n) <<< k := by
  have hlow : word &&& lowBits n <<< k &&& lowBits k = 0 := by
    rw [BitVec.and_assoc, shiftLeft_and_lowBits]
    exact BitVec.and_zero
  rw [and_lowBits_shiftRight, ushiftRight_shiftLeft hlow]

theorem sshiftRight_shiftLeft (word : Word) (k : Nat) :
    word.sshiftRight k <<< k = word >>> k <<< k := by
  apply BitVec.eq_of_getLsbD_eq
  intro i hi
  rw [BitVec.getLsbD_shiftLeft, BitVec.getLsbD_shiftLeft, BitVec.getLsbD_sshiftRight,
    BitVec.getLsbD_ushiftRight]
  by_cases hik : i < k
  · simp [hik]
  · have hback : k + (i - k) = i := by omega
    have hle : ¬64 ≤ i - k := by omega
    simp [hi, hik, hback, hle]

theorem and_lowBits_of_toNat_lt (h : word.toNat < 2 ^ n) : word &&& lowBits n = word := by
  apply BitVec.eq_of_toNat_eq
  rw [toNat_and_lowBits, Nat.mod_eq_of_lt h]

theorem setWidth_and_lowBits (word : Word) (n : Nat) :
    (word &&& lowBits n).setWidth n = word.setWidth n := by
  apply BitVec.eq_of_getLsbD_eq
  intro i hi
  rw [BitVec.getLsbD_setWidth, BitVec.getLsbD_setWidth, BitVec.getLsbD_and, getLsbD_lowBits]
  by_cases hword : i < 64
  · simp [hi, hword]
  · simp [BitVec.getLsbD_of_ge word i (by omega)]

theorem signExtend_setWidth (hn : 0 < n) (hnarrow : n ≤ 64) (hlow : -2 ^ (n - 1) ≤ word.toInt)
    (hhigh : word.toInt < 2 ^ (n - 1)) : (word.setWidth n).signExtend 64 = word := by
  apply BitVec.eq_of_toInt_eq
  have hdvd : 2 ^ n ∣ 2 ^ 64 := Nat.pow_dvd_pow 2 hnarrow
  have hpow : 2 ^ n = 2 * 2 ^ (n - 1) := by
    rw [← Nat.pow_succ', Nat.succ_eq_add_one, Nat.sub_add_cancel hn]
  -- Both widths are balanced remainders, and the narrow one of a wide one is the narrow one.
  rw [BitVec.toInt_signExtend_of_le hnarrow, BitVec.toInt_setWidth, ← Int.bmod_bmod_of_dvd hdvd,
    ← BitVec.toInt_eq_toNat_bmod]
  apply Int.bmod_eq_of_le_mul_two
  · push_cast [hpow]
    omega
  · push_cast [hpow]
    omega

def AgreeOn (mask a b : Word) : Prop := a &&& mask = b &&& mask

instance (mask a b : Word) : Decidable (AgreeOn mask a b) := inferInstanceAs (Decidable (_ = _))

def union (masks : List Word) : Word := masks.foldr (· ||| ·) 0

section AgreeOn

variable {m n a b bits : Word} {masks : List Word}

theorem agreeOn_iff : AgreeOn m a b ↔ ∀ i, m.getLsbD i = true → a.getLsbD i = b.getLsbD i := by
  constructor
  · intro h i hi
    have hbit := congrArg (BitVec.getLsbD · i) h
    simpa [hi] using hbit
  · intro h
    apply BitVec.eq_of_getLsbD_eq
    intro i _
    rw [BitVec.getLsbD_and, BitVec.getLsbD_and]
    cases hi : m.getLsbD i with
    | true => rw [h i hi]
    | false => rw [Bool.and_false, Bool.and_false]

theorem agreeOn_or : AgreeOn (m ||| n) a b ↔ AgreeOn m a b ∧ AgreeOn n a b := by
  simp only [agreeOn_iff, BitVec.getLsbD_or, Bool.or_eq_true, or_imp, forall_and]

theorem getLsbD_union {i : Nat} :
    (union masks).getLsbD i = true ↔ ∃ m ∈ masks, m.getLsbD i = true := by
  induction masks with
  | nil => simp [union]
  | cons m masks ih =>
      rw [union, List.foldr_cons, ← union, BitVec.getLsbD_or, Bool.or_eq_true, ih,
        List.exists_mem_cons_iff]

theorem agreeOn_union : AgreeOn (union masks) a b ↔ ∀ m ∈ masks, AgreeOn m a b := by
  simp only [agreeOn_iff, getLsbD_union]
  constructor
  · intro h m hm i hi
    exact h i ⟨m, hm, hi⟩
  · rintro h i ⟨m, hm, hi⟩
    exact h m hm i hi

theorem AgreeOn.of_disjoint (h : AgreeOn (~~~bits) a b) (hm : bits &&& m = 0) : AgreeOn m a b := by
  rw [AgreeOn, ← not_and_of_disjoint hm, ← BitVec.and_assoc, ← BitVec.and_assoc, h]

theorem AgreeOn.getLsbD {start width i : Nat} (h : AgreeOn (lowBits width <<< start) a b)
    (hi : i < width) : a.getLsbD (start + i) = b.getLsbD (start + i) := by
  rcases Nat.lt_or_ge (start + i) 64 with hword | hbeyond
  · refine agreeOn_iff.1 h (start + i) ?_
    have hlow : i < 64 := by omega
    simp [getLsbD_lowBits, hword, hi, hlow]
  · rw [BitVec.getLsbD_of_ge a _ hbeyond, BitVec.getLsbD_of_ge b _ hbeyond]

theorem AgreeOn.extractLsb' {start width : Nat} (h : AgreeOn (lowBits width <<< start) a b) :
    a.extractLsb' start width = b.extractLsb' start width := by
  apply BitVec.eq_of_getLsbD_eq
  intro i hi
  rw [BitVec.getLsbD_extractLsb', BitVec.getLsbD_extractLsb', h.getLsbD hi]

end AgreeOn

end Codeword.Word
