import Codeword.Bitstream.Bits
import Mathlib

namespace Codeword.Bits

@[simp] theorem length_ofNat (n v : Nat) : (ofNat n v).length = n := by
  induction n with
  | zero => rfl
  | succ n ih => simp [ofNat, ih]

theorem foldl_eq (a : Nat) (bs : List Bool) :
    bs.foldl (fun n b => 2 * n + b.toNat) a = 2 ^ bs.length * a + toNat bs := by
  induction bs generalizing a with
  | nil => simp [toNat]
  | cons b bs ih =>
      simp only [toNat, List.foldl_cons, List.length_cons]
      rw [ih, ih (2 * 0 + b.toNat), Nat.pow_succ, Nat.mul_add, Nat.mul_add, Nat.mul_assoc]
      omega

theorem toNat_cons (b : Bool) (bs : List Bool) :
    toNat (b :: bs) = 2 ^ bs.length * b.toNat + toNat bs := by
  rw [toNat, List.foldl_cons, foldl_eq]
  simp

theorem toNat_append (bs cs : List Bool) :
    toNat (bs ++ cs) = 2 ^ cs.length * toNat bs + toNat cs := by
  rw [toNat, List.foldl_append, foldl_eq]
  rfl

theorem toNat_replicate_false (n : Nat) : toNat (List.replicate n false) = 0 := by
  induction n with
  | zero => rfl
  | succ n ih => simp [List.replicate_succ, toNat_cons, ih]

theorem toNat_lt (bs : List Bool) : toNat bs < 2 ^ bs.length := by
  induction bs with
  | nil => simp [toNat]
  | cons b bs ih =>
      rw [toNat_cons, List.length_cons, Nat.pow_succ]
      cases b
      · simp
        omega
      · simp
        omega

theorem ofNat_mod (n v k : Nat) (h : n ≤ k) : ofNat n (v % 2 ^ k) = ofNat n v := by
  induction n with
  | zero => rfl
  | succ n ih =>
      have hn : n < k := h
      rw [ofNat, ofNat, ih (Nat.le_of_lt hn), Nat.testBit_mod_two_pow]
      simp [hn]

theorem ofNat_toNat (bs : List Bool) : ofNat bs.length (toNat bs) = bs := by
  induction bs with
  | nil => rfl
  | cons b bs ih =>
      have hlt := toNat_lt bs
      rw [List.length_cons, ofNat, toNat_cons]
      congr 1
      · rw [Nat.testBit_two_pow_mul_add _ hlt]
        cases b <;> simp
      · have hmod : (2 ^ bs.length * b.toNat + toNat bs) % 2 ^ bs.length = toNat bs := by
          rw [Nat.mul_add_mod, Nat.mod_eq_of_lt hlt]
        rw [← ofNat_mod _ _ bs.length (Nat.le_refl _), hmod, ih]

theorem toNat_ofNat (n v : Nat) : toNat (ofNat n v) = v % 2 ^ n := by
  induction n with
  | zero => simp [ofNat, toNat, Nat.mod_one]
  | succ n ih =>
      rw [ofNat, toNat_cons, length_ofNat, ih, Nat.add_comm, Nat.mod_pow_succ,
        Nat.testBit_eq_decide_div_mod_eq]
      rcases Nat.mod_two_eq_zero_or_one (v / 2 ^ n) with h | h <;> simp [h]

theorem ofNat_shiftLeft (n k v : Nat) :
    ofNat (n + k) (v <<< k) = ofNat n v ++ List.replicate k false := by
  have hlen : (ofNat n v ++ List.replicate k false).length = n + k := by simp
  have hval : toNat (ofNat n v ++ List.replicate k false) = v <<< k % 2 ^ (n + k) := by
    rw [toNat_append, toNat_ofNat, toNat_replicate_false, List.length_replicate, Nat.shiftLeft_eq,
      Nat.pow_add, Nat.mul_mod_mul_right, Nat.mul_comm]
    rfl
  rw [← ofNat_toNat (ofNat n v ++ List.replicate k false), hlen, hval,
    ofNat_mod _ _ _ (Nat.le_refl _)]

theorem ofByte_ofNat (bs : List Bool) (h : bs.length ≤ 8) :
    ofByte (UInt8.ofNat (toNat bs <<< (8 - bs.length))) =
      bs ++ List.replicate (8 - bs.length) false := by
  have hlen : 8 = bs.length + (8 - bs.length) := by omega
  rw [ofByte, UInt8.toNat_ofNat', ofNat_mod 8 _ 8 (Nat.le_refl _)]
  conv => lhs; rw [hlen]
  rw [Nat.add_sub_cancel_left, ofNat_shiftLeft, ofNat_toNat]

theorem ofBytes_toBytes (bs : List Bool) :
    ofBytes (toBytes bs) = bs ++ List.replicate ((8 - bs.length % 8) % 8) false := by
  induction h : bs.length using Nat.strongRecOn generalizing bs with
  | _ n ih =>
      subst h
      rw [toBytes]
      by_cases hnil : bs = []
      · subst hnil
        rfl
      have hpos := List.length_pos_iff.2 hnil
      rw [if_neg hnil, ofBytes, List.flatMap_cons, ← ofBytes,
        ih (bs.drop 8).length (by rw [List.length_drop]; omega) _ rfl,
        ofByte_ofNat _ (List.length_take_le _ _)]
      by_cases hlong : 8 ≤ bs.length
      · have htake : (bs.take 8).length = 8 := by
          rw [List.length_take]
          omega
        have hmod : (bs.drop 8).length % 8 = bs.length % 8 := by
          rw [List.length_drop]
          omega
        rw [htake, hmod, Nat.sub_self, List.replicate_zero, List.append_nil, ← List.append_assoc,
          List.take_append_drop]
      · have htake : bs.take 8 = bs := List.take_of_length_le (by omega)
        have hdrop : bs.drop 8 = [] := List.drop_of_length_le (by omega)
        rw [htake, hdrop]
        simp [Nat.mod_eq_of_lt (show bs.length < 8 by omega),
          Nat.mod_eq_of_lt (show 8 - bs.length < 8 by omega)]

theorem length_ofBytes (bytes : List UInt8) : (ofBytes bytes).length = 8 * bytes.length := by
  induction bytes with
  | nil => rfl
  | cons b bytes ih =>
      rw [ofBytes, List.flatMap_cons, List.length_append, ← ofBytes, ih, ofByte, length_ofNat,
        List.length_cons]
      omega

theorem ofBytes_append (bytes more : List UInt8) :
    ofBytes (bytes ++ more) = ofBytes bytes ++ ofBytes more :=
  List.flatMap_append

theorem ofBytes_take (bytes : List UInt8) (n : Nat) :
    ofBytes (bytes.take n) = (ofBytes bytes).take (8 * n) := by
  induction bytes generalizing n with
  | nil => simp [ofBytes]
  | cons b bytes ih =>
      cases n with
      | zero => rfl
      | succ n =>
          have hbyte : (ofByte b).length = 8 := length_ofNat 8 b.toNat
          have htake : (ofByte b).take (8 * (n + 1)) = ofByte b :=
            List.take_of_length_le (by omega)
          have hrest : 8 * (n + 1) - 8 = 8 * n := by omega
          rw [List.take_succ_cons, ofBytes, ofBytes, List.flatMap_cons, List.flatMap_cons,
            ← ofBytes, ← ofBytes, ih, List.take_append, htake, hbyte, hrest]

theorem getElem?_ofNat (n v i : Nat) :
    (ofNat n v)[i]? = if i < n then some (v.testBit (n - 1 - i)) else none := by
  induction n generalizing i with
  | zero => rfl
  | succ n ih =>
      cases i with
      | zero => rfl
      | succ i =>
          have hback : n + 1 - 1 - (i + 1) = n - 1 - i := by omega
          rw [ofNat, List.getElem?_cons_succ, ih, hback]
          simp only [Nat.succ_lt_succ_iff]

theorem getElem?_ofBytes (bytes : List UInt8) (i : Nat) :
    (ofBytes bytes)[i]? = bytes[i / 8]?.map fun b => b.toNat.testBit (7 - i % 8) := by
  induction bytes generalizing i with
  | nil => simp [ofBytes]
  | cons b bytes ih =>
      have hlength : (ofByte b).length = 8 := length_ofNat 8 b.toNat
      rw [ofBytes, List.flatMap_cons, ← ofBytes, List.getElem?_append, hlength]
      by_cases hi : i < 8
      · have hbyte : i / 8 = 0 := by omega
        have hbit : i % 8 = i := by omega
        rw [if_pos hi, ofByte, getElem?_ofNat, if_pos hi, hbyte, hbit]
        rfl
      · have hbyte : i / 8 = (i - 8) / 8 + 1 := by omega
        have hbit : (i - 8) % 8 = i % 8 := by omega
        rw [if_neg hi, ih, hbyte, hbit, List.getElem?_cons_succ]

end Codeword.Bits
