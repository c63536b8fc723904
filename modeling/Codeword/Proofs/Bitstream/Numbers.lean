import Codeword.Bitstream.Reader
import Codeword.Bitstream.Writer
import Codeword.Proofs.Bitstream.Bits

namespace Codeword

namespace ExpGolomb

theorem intOfCode_codeOfInt (v : Int) : intOfCode (codeOfInt v) = v := by
  rw [intOfCode, codeOfInt]
  by_cases hv : 0 < v
  · rw [if_pos hv, if_pos (by omega)]
    omega
  · rw [if_neg hv, if_neg (by omega)]
    omega

theorem codeOfInt_intOfCode (code : Nat) : codeOfInt (intOfCode code) = code := by
  rw [intOfCode, codeOfInt]
  by_cases hodd : code % 2 = 1
  · rw [if_pos hodd, if_pos (by omega)]
    omega
  · rw [if_neg hodd, if_neg (by omega)]
    omega

theorem natAbs_intOfCode (code : Nat) : (intOfCode code).natAbs = (code + 1) / 2 := by
  rw [intOfCode]
  split <;> omega

end ExpGolomb

open Bits

structure BitReader.Inverts {α : Type} (read : BitReader → Result α)
    (bits : α → Except StreamError (List Bool)) : Prop where
  read_append : ∀ {v bs}, bits v = .ok bs → ∀ position rest,
    read ⟨position, bs ++ rest⟩ = (.ok v, ⟨position + bs.length, rest⟩)
  eq_append : ∀ {v} {r r' : BitReader}, read r = (.ok v, r') →
    ∃ bs, bits v = .ok bs ∧ r.rest = bs ++ r'.rest

namespace BitWriter

theorem uBits_eq_ok {n : Nat} {v : UInt32} {bs : List Bool} :
    uBits n v = .ok bs ↔ n ≤ 32 ∧ v.toNat < 2 ^ n ∧ bs = ofNat n v.toNat := by
  rw [uBits, Nat.one_shiftLeft]
  by_cases hn : 32 < n
  · simp [hn, Nat.not_le.2 hn]
  by_cases hv : 2 ^ n ≤ v.toNat
  · simp [hn, hv, Nat.not_lt.2 hv]
  · simp [hn, hv, Nat.le_of_not_lt hn, Nat.lt_of_not_le hv, eq_comm]

theorem codeBits_eq_ok {code : Nat} {bs : List Bool} :
    codeBits code = .ok bs ↔
      ∃ tail, tail.length < 32 ∧ bs = List.replicate tail.length false ++ true :: tail ∧
        code + 1 = toNat (true :: tail) := by
  have hne : code + 1 ≠ 0 := Nat.succ_ne_zero code
  have hlt := @Nat.lt_log2_self (code + 1)
  rw [codeBits]
  constructor
  · intro h
    by_cases hz : 32 ≤ (code + 1).log2
    · simp [hz] at h
    have hhead : (code + 1).testBit (code + 1).log2 = true := Nat.testBit_log2 hne
    simp only [hz, if_false, Except.ok.injEq, ofNat, hhead] at h
    refine ⟨ofNat (code + 1).log2 (code + 1), ?_, ?_, ?_⟩
    · rw [length_ofNat]
      omega
    · rw [length_ofNat, h]
    · have hval := toNat_ofNat ((code + 1).log2 + 1) (code + 1)
      rw [ofNat, hhead, Nat.mod_eq_of_lt hlt] at hval
      exact hval.symm
  · rintro ⟨tail, htail, rfl, hcode⟩
    have hlog : (code + 1).log2 = tail.length := by
      have hbound := toNat_lt tail
      rw [Nat.log2_eq_iff hne, hcode, toNat_cons, Nat.pow_succ]
      simp
      omega
    have hdigits := ofNat_toNat (true :: tail)
    rw [List.length_cons] at hdigits
    rw [hlog]
    simp only [Nat.not_le.2 htail, if_false]
    rw [hcode, hdigits]

theorem lt_of_codeBits {code : Nat} {bs : List Bool} (h : codeBits code = .ok bs) :
    code + 1 < 2 ^ 32 := by
  obtain ⟨tail, htail, -, hcode⟩ := codeBits_eq_ok.1 h
  have hbound := toNat_lt (true :: tail)
  have hpow : 2 ^ (true :: tail).length ≤ 2 ^ 32 := Nat.pow_le_pow_right (by decide) htail
  omega

theorem exists_codeBits {code : Nat} (h : code + 1 < 2 ^ 32) : ∃ bs, codeBits code = .ok bs := by
  have hlog : (code + 1).log2 < 32 := (Nat.log2_lt (Nat.succ_ne_zero code)).2 h
  simp [codeBits, Nat.not_le.2 hlog]

end BitWriter

namespace BitReader

open BitWriter

theorem u_inverts (n : Nat) : Inverts (·.u n) (uBits n) where
  read_append := by
    intro v bs h position rest
    obtain ⟨hn, hv, rfl⟩ := uBits_eq_ok.1 h
    have hlen := length_ofNat n v.toNat
    have htake : (ofNat n v.toNat ++ rest).take n = ofNat n v.toNat := List.take_left' hlen
    have hdrop : (ofNat n v.toNat ++ rest).drop n = rest := List.drop_left' hlen
    have hlong : ¬(ofNat n v.toNat ++ rest).length < n := by
      rw [List.length_append]
      omega
    simp only [u, Nat.not_lt.2 hn, if_false, hlong, htake, skip, hdrop, hlen]
    rw [toNat_ofNat, Nat.mod_eq_of_lt hv, UInt32.ofNat_toNat]
  eq_append := by
    intro v r r' h
    simp only [u] at h
    by_cases hn : 32 < n
    · simp [hn] at h
    by_cases hlong : r.rest.length < n
    · simp [hn, hlong, exhausted] at h
    simp only [hn, hlong, if_false, Prod.mk.injEq, Except.ok.injEq] at h
    obtain ⟨rfl, rfl⟩ := h
    have hlen : (r.rest.take n).length = n := by
      rw [List.length_take]
      omega
    have hlt := toNat_lt (r.rest.take n)
    have hbits := ofNat_toNat (r.rest.take n)
    rw [hlen] at hlt hbits
    have hpow : 2 ^ n ≤ 2 ^ 32 := Nat.pow_le_pow_right (by decide) (by omega)
    have hval : (UInt32.ofNat (toNat (r.rest.take n))).toNat = toNat (r.rest.take n) := by
      rw [UInt32.toNat_ofNat', Nat.mod_eq_of_lt (Nat.lt_of_lt_of_le hlt hpow)]
    refine ⟨r.rest.take n, uBits_eq_ok.2 ⟨by omega, ?_, ?_⟩, (List.take_append_drop n r.rest).symm⟩
    · rw [hval]
      exact hlt
    · rw [hval, hbits]

theorem flag_inverts : Inverts flag fun v => .ok [v] where
  read_append := by
    intro v bs h position rest
    cases h
    rfl
  eq_append := by
    intro v r r' h
    rw [flag] at h
    split at h
    next => simp [exhausted] at h
    next b bs hrest =>
      simp only [Prod.mk.injEq, Except.ok.injEq] at h
      obtain ⟨rfl, rfl⟩ := h
      exact ⟨[b], rfl, by simp [skip, hrest]⟩

theorem takeWhile_codeWord (tail rest : List Bool) :
    ((List.replicate tail.length false ++ true :: tail ++ rest).takeWhile (!·)).length =
      tail.length := by
  rw [List.append_assoc, List.takeWhile_append_of_pos (by simp)]
  simp

theorem eq_codeWord {bs : List Bool}
    (h : 2 * (bs.takeWhile (!·)).length + 1 ≤ bs.length) :
    ∃ tail rest, bs = List.replicate tail.length false ++ true :: tail ++ rest := by
  have hzeros : bs.takeWhile (!·) = List.replicate (bs.takeWhile (!·)).length false := by
    rw [List.eq_replicate_iff]
    refine ⟨rfl, fun b hb => ?_⟩
    simpa using (List.all_eq_true.1 (List.all_takeWhile (p := (!·)) (l := bs))) b hb
  generalize (bs.takeWhile (!·)).length = zeros at h hzeros
  have hsplit := List.takeWhile_append_dropWhile (p := (!·)) (l := bs)
  rw [hzeros] at hsplit
  cases hrest : bs.dropWhile (!·) with
  | nil =>
      have hlen := congrArg List.length hsplit
      rw [hrest, List.append_nil, List.length_replicate] at hlen
      omega
  | cons b rest =>
      have hb : b = true := by
        have := List.head?_dropWhile_not (!·) bs
        simpa [hrest] using this
      subst hb
      rw [hrest] at hsplit
      have hlen := congrArg List.length hsplit
      rw [List.length_append, List.length_replicate, List.length_cons] at hlen
      have htail : (rest.take zeros).length = zeros := by
        rw [List.length_take]
        omega
      refine ⟨rest.take zeros, rest.drop zeros, ?_⟩
      rw [htail, List.append_assoc, List.cons_append, List.take_append_drop, hsplit]

theorem ue_codeWord (position : Nat) {tail : List Bool} (htail : tail.length < 32)
    (rest : List Bool) :
    ue ⟨position, List.replicate tail.length false ++ true :: tail ++ rest⟩ =
      (.ok (UInt32.ofNat (toNat (true :: tail) - 1)),
        ⟨position + (2 * tail.length + 1), rest⟩) := by
  have hlen : (List.replicate tail.length false ++ true :: tail).length = 2 * tail.length + 1 := by
    simp
    omega
  have htake : (List.replicate tail.length false ++ true :: tail ++ rest).take
      (2 * tail.length + 1) = List.replicate tail.length false ++ true :: tail :=
    List.take_left' hlen
  have hdrop : (List.replicate tail.length false ++ true :: tail ++ rest).drop
      (2 * tail.length + 1) = rest := List.drop_left' hlen
  have hlong : ¬(List.replicate tail.length false ++ true :: tail ++ rest).length <
      2 * tail.length + 1 := by
    rw [List.length_append, hlen]
    omega
  simp only [ue, takeWhile_codeWord, Nat.not_le.2 htail, if_false, hlong, htake, hdrop, skip,
    toNat_append _ (true :: tail), toNat_replicate_false, Nat.mul_zero, Nat.zero_add]

theorem ue_inverts : Inverts ue ueBits where
  read_append := by
    intro v bs h position rest
    have hlt := lt_of_codeBits h
    obtain ⟨tail, htail, rfl, hcode⟩ := codeBits_eq_ok.1 h
    rw [ue_codeWord position htail, ← hcode]
    simp
    omega
  eq_append := by
    intro v r r' h
    by_cases hz : 32 ≤ (r.rest.takeWhile (!·)).length
    · simp [ue, hz] at h
    by_cases hlong : r.rest.length < 2 * (r.rest.takeWhile (!·)).length + 1
    · simp [ue, hz, hlong, exhausted] at h
    obtain ⟨tail, rest, hrest⟩ := eq_codeWord (Nat.le_of_not_lt hlong)
    have htail : tail.length < 32 := by
      rw [hrest, takeWhile_codeWord] at hz
      omega
    obtain ⟨position, bs⟩ := r
    subst hrest
    rw [ue_codeWord position htail] at h
    simp only [Prod.mk.injEq, Except.ok.injEq] at h
    obtain ⟨rfl, rfl⟩ := h
    have hpos : 0 < toNat (true :: tail) := by
      rw [toNat_cons]
      exact Nat.add_pos_left (Nat.mul_pos (Nat.two_pow_pos _) (by decide)) _
    have hlt := toNat_lt (true :: tail)
    have hpow : 2 ^ (true :: tail).length ≤ 2 ^ 32 := Nat.pow_le_pow_right (by decide) htail
    refine ⟨_, codeBits_eq_ok.2 ⟨tail, htail, rfl, ?_⟩, rfl⟩
    rw [UInt32.toNat_ofNat', Nat.mod_eq_of_lt (by omega)]
    omega

theorem se_inverts : Inverts se seBits where
  read_append := by
    intro v bs h position rest
    have hlt := lt_of_codeBits h
    have hnat : (UInt32.ofNat (ExpGolomb.codeOfInt v.toInt)).toNat =
        ExpGolomb.codeOfInt v.toInt := by
      rw [UInt32.toNat_ofNat', Nat.mod_eq_of_lt (by omega)]
    have hue : ueBits (UInt32.ofNat (ExpGolomb.codeOfInt v.toInt)) = .ok bs := by
      rw [ueBits, hnat]
      exact h
    rw [se, ue_inverts.read_append hue position rest]
    simp [Except.map, hnat, ExpGolomb.intOfCode_codeOfInt]
  eq_append := by
    intro v r r' h
    cases hue : r.ue with
    | mk result r₁ =>
        cases result with
        | error e => simp [se, hue, Except.map] at h
        | ok c =>
            simp only [se, hue, Except.map, Prod.mk.injEq, Except.ok.injEq] at h
            obtain ⟨rfl, rfl⟩ := h
            obtain ⟨bs, hbits, hrest⟩ := ue_inverts.eq_append hue
            have hlt := lt_of_codeBits hbits
            have habs := ExpGolomb.natAbs_intOfCode c.toNat
            have hint : (Int32.ofInt (ExpGolomb.intOfCode c.toNat)).toInt =
                ExpGolomb.intOfCode c.toNat :=
              Int32.toInt_ofInt_of_le (by omega) (by omega)
            refine ⟨bs, ?_, hrest⟩
            rw [seBits, hint, ExpGolomb.codeOfInt_intOfCode]
            exact hbits

end BitReader

end Codeword
