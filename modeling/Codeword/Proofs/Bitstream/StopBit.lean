import Codeword.Proofs.Bitstream.Positions

namespace Codeword

namespace Bits

variable {bytes : List UInt8} {b : UInt8} {i n p : Nat}

def isSet (bytes : List UInt8) (i : Nat) : Bool :=
  bytes[i / 8]?.any fun b => b.toNat.testBit (7 - i % 8)

theorem isSet_iff : isSet bytes i = true ↔ (ofBytes bytes)[i]? = some true := by
  rw [getElem?_ofBytes, isSet]
  cases bytes[i / 8]? <;> simp

theorem isSet_append (bytes : List UInt8) (b : UInt8) (i : Nat) :
    isSet (bytes ++ [b]) i = true ↔ isSet bytes i = true ∨
      i / 8 = bytes.length ∧ b.toNat.testBit (7 - i % 8) = true := by
  rw [isSet, isSet, List.getElem?_append]
  by_cases hi : i / 8 < bytes.length
  · have hne : i / 8 ≠ bytes.length := Nat.ne_of_lt hi
    simp [hi, hne]
  · have hnone : bytes[i / 8]? = none := List.getElem?_eq_none (Nat.le_of_not_lt hi)
    rw [if_neg hi, hnone]
    by_cases hlast : i / 8 = bytes.length
    · simp [hlast]
    · have hpast : [b][i / 8 - bytes.length]? = none := List.getElem?_eq_none (by simp; omega)
      simp [hlast, hpast]

theorem stopBit_append (bytes : List UInt8) (b : UInt8) :
    stopBit (bytes ++ [b]) = if b = 0 then stopBit bytes
      else some (8 * bytes.length + 7 - b.toBitVec.ctz.toNat) := by
  rw [stopBit, List.zipIdx_append, List.reverse_append, List.zipIdx_singleton,
    List.reverse_singleton, List.singleton_append, List.find?_cons]
  by_cases hb : b = 0
  · subst hb
    rfl
  · have hne : (b != 0) = true := bne_iff_ne.2 hb
    simp only [hne, hb, if_false, Option.map_some, Nat.zero_add]

theorem testBit_ctz (hb : b ≠ 0) : b.toNat.testBit b.toBitVec.ctz.toNat = true := by
  apply BitVec.getLsbD_true_ctz_of_ne_zero
  intro hzero
  exact hb (UInt8.toBitVec_inj.1 hzero)

theorem ctz_lt (hb : b ≠ 0) : b.toBitVec.ctz.toNat < 8 := BitVec.lt_of_getLsbD (testBit_ctz hb)

theorem ctz_le_of_testBit (h : b.toNat.testBit n = true) : b.toBitVec.ctz.toNat ≤ n := by
  by_contra hlt
  have hfalse : b.toBitVec.getLsbD n = false :=
    BitVec.getLsbD_false_of_lt_ctz (Nat.lt_of_not_le hlt)
  exact Bool.false_ne_true (hfalse.symm.trans h)

theorem isSet_of_stopBit (h : stopBit bytes = some p) : isSet bytes p = true := by
  induction bytes using List.reverseRecOn with
  | nil => cases h
  | append_singleton bytes b ih =>
      rw [stopBit_append] at h
      rw [isSet_append]
      by_cases hb : b = 0
      · rw [if_pos hb] at h
        exact .inl (ih h)
      · rw [if_neg hb, Option.some.injEq] at h
        subst h
        have hlt := ctz_lt hb
        have hback : 7 - (8 * bytes.length + 7 - b.toBitVec.ctz.toNat) % 8 =
            b.toBitVec.ctz.toNat := by omega
        refine .inr ⟨by omega, ?_⟩
        rw [hback]
        exact testBit_ctz hb

theorem exists_stopBit_of_isSet (h : isSet bytes i = true) :
    ∃ p, stopBit bytes = some p ∧ i ≤ p := by
  induction bytes using List.reverseRecOn with
  | nil => cases h
  | append_singleton bytes b ih =>
      rw [stopBit_append]
      by_cases hb : b = 0
      · rw [if_pos hb]
        rw [isSet_append, hb] at h
        rcases h with h | ⟨-, hbit⟩
        · exact ih h
        · simp at hbit
      · have hlt := ctz_lt hb
        rw [if_neg hb]
        refine ⟨_, rfl, ?_⟩
        rcases (isSet_append bytes b i).1 h with h | ⟨hbyte, hbit⟩
        · have hinside : i / 8 < bytes.length := by
            by_contra hge
            rw [isSet, List.getElem?_eq_none (Nat.le_of_not_lt hge)] at h
            cases h
          omega
        · have hle := ctz_le_of_testBit hbit
          omega

theorem exists_stopBit_gt_iff :
    (∃ p, stopBit bytes = some p ∧ n < p) ↔ ∃ i, n < i ∧ isSet bytes i = true := by
  constructor
  · rintro ⟨p, hp, hlt⟩
    exact ⟨p, hlt, isSet_of_stopBit hp⟩
  · rintro ⟨i, hlt, hset⟩
    obtain ⟨p, hp, hle⟩ := exists_stopBit_of_isSet hset
    exact ⟨p, hp, Nat.lt_of_lt_of_le hlt hle⟩

end Bits

namespace BitReader

variable {r r' : BitReader}

theorem hasMore_eq_true : r.hasMore = true ↔ ∃ i, r.rest[i + 1]? = some true := by
  simp only [hasMore, List.any_eq_true, id_eq, exists_eq_right, List.mem_iff_getElem?,
    List.getElem?_drop, Nat.add_comm 1]

theorem Reaches.hasMore (h : r.Reaches r') (hmore : r'.hasMore = true) : r.hasMore = true := by
  obtain ⟨n, -, hrest⟩ := h.getElem?_rest
  obtain ⟨i, hi⟩ := hasMore_eq_true.1 hmore
  rw [hrest, ← Nat.add_assoc] at hi
  exact hasMore_eq_true.2 ⟨n + i, hi⟩

theorem Reaches.hasMore_ofBytes {bytes : List UInt8} (h : (ofBytes bytes).Reaches r) :
    r.hasMore = true ↔ ∃ i, r.position < i ∧ Bits.isSet bytes i = true := by
  obtain ⟨n, hposition, hrest⟩ := h.getElem?_rest
  have hn : r.position = n := hposition.trans (Nat.zero_add n)
  simp only [hasMore_eq_true, hrest, hn, Bits.isSet_iff]
  constructor
  · rintro ⟨i, hi⟩
    exact ⟨n + (i + 1), by omega, hi⟩
  · rintro ⟨i, hlt, hi⟩
    have hback : n + (i - n - 1 + 1) = i := by omega
    exact ⟨i - n - 1, by rw [hback]; exact hi⟩

/-- Wherever some calls have left the reader, there is more as long as a set bit comes after the next
one, that is, in front of the last set bit. Asking for it is no call, and once there is no more, no
call brings any. -/
theorem hasMore_after (bytes : List UInt8) (cs : List Call) :
    let r := (ofBytes bytes).after cs
    (r.hasMore = true ↔ ∃ i, r.position < i ∧ Bits.isSet bytes i = true) ∧
      (r.hasMore = true ↔ ∃ p, Bits.stopBit bytes = some p ∧ r.position < p) ∧
      ∀ more, r.hasMore = false → (r.after more).hasMore = false := by
  intro r
  have hmore := (after_reaches (ofBytes bytes) cs).hasMore_ofBytes
  refine ⟨hmore, hmore.trans Bits.exists_stopBit_gt_iff.symm, fun more hnone => ?_⟩
  rw [Bool.eq_false_iff] at hnone ⊢
  exact mt (r.after_reaches more).hasMore hnone

theorem hasMore_after_stop :
    let start := ofBytes [0x60, 0, 0]
    (start.after [.u 1]).hasMore = true ∧ (start.after [.u 2]).hasMore = false ∧
      ((start.after [.u 2]).after [.flag, .ue]).hasMore = false := by
  obtain ⟨-, hbefore, -⟩ := hasMore_after [0x60, 0, 0] [.u 1]
  obtain ⟨-, -, hlater⟩ := hasMore_after [0x60, 0, 0] [.u 2]
  exact ⟨hbefore.2 ⟨2, by decide, by decide⟩, by decide, hlater _ (by decide)⟩

end BitReader

end Codeword
