import Codeword.Proofs.Field.Storage

namespace Codeword.Field

variable {f : Field} {word value address bits n : Word}

theorem integer_emod (f : Field) (word : Word) {k : Nat} (hk : k ≤ 64) :
    f.integer word % 2 ^ k = (word &&& Word.lowBits k).toNat := by
  have hdvd : (2 ^ k : Int) ∣ 2 ^ 64 := pow_dvd_pow 2 hk
  rw [Word.toNat_and_lowBits, integer]
  push_cast
  split
  · rw [BitVec.toInt_eq_toNat_bmod, ← Int.emod_emod_of_dvd _ hdvd,
      ← Int.emod_emod_of_dvd word.toNat hdvd]
    exact congrArg (· % 2 ^ k) Int.bmod_emod
  · rfl

theorem integer_quotient (f : Field) (word : Word) :
    f.integer (f.quotient word) = f.integer word / 2 ^ f.shift := by
  cases hsigned : f.signed with
  | true =>
      rw [integer_signed hsigned, integer_signed hsigned, quotient, if_pos hsigned,
        BitVec.toInt_sshiftRight, Int.shiftRight_eq_div_pow]
      push_cast
      rfl
  | false =>
      rw [integer_unsigned hsigned, integer_unsigned hsigned, quotient, hsigned]
      simp [Nat.shiftRight_eq_div_pow]

theorem and_lowBits_eq_zero_iff (hshift : f.shift ≤ 64) :
    word &&& Word.lowBits f.shift = 0 ↔ 2 ^ f.shift ∣ f.integer word := by
  rw [Int.dvd_iff_emod_eq_zero, integer_emod f word hshift, Int.natCast_eq_zero,
    ← BitVec.toNat_inj]
  rfl

theorem holds_number (hbits : bits.toNat < 2 ^ f.width) : f.Holds (f.integer (f.number bits)) := by
  have hnarrow : f.width ≤ 64 := f.layout.narrow
  rcases Nat.eq_zero_or_pos f.width with hzero | hwidth
  · rw [hzero] at hbits
    have hnone : bits = 0#64 := BitVec.eq_of_toNat_eq (Nat.lt_one_iff.1 hbits)
    rw [hnone, number_zero, holds_zero hzero, integer]
    simp
  cases hsigned : f.signed with
  | true =>
      rw [holds_signed hwidth hsigned, integer_signed hsigned, number, if_pos hsigned,
        BitVec.toInt_signExtend_of_le hnarrow]
      exact ⟨BitVec.le_toInt _, BitVec.toInt_lt⟩
  | false =>
      rw [holds_unsigned hsigned, integer_unsigned hsigned, number, hsigned]
      exact ⟨Int.natCast_nonneg _, by exact_mod_cast hbits⟩

theorem toInt_extract (hsigned : f.signed = true) (haddend : f.addend = 0)
    (hrelative : f.relative = false) (hfit : f.width + f.shift ≤ 64) (word address : Word) :
    (f.extract word address).toInt = (f.layout.bits word).toInt * 2 ^ f.shift := by
  have hoffset : f.offset address = 0#64 := by
    rw [offset, haddend, hrelative]
    rfl
  have hholds := holds_number (f := f) (Layout.toNat_gather_lt f.layout word)
  have hextend : ((f.layout.bits word).signExtend 64).toInt = (f.layout.bits word).toInt :=
    BitVec.toInt_signExtend_of_le f.layout.narrow
  rw [extract_eq, hoffset, BitVec.add_zero, ← integer_signed hsigned, integer_shiftLeft hholds hfit,
    integer_signed hsigned, number, if_pos hsigned, width, Layout.setWidth_gather, hextend]

theorem toNat_extract_bits {start width : Nat} (h : Piece.fits start width)
    (word address : Word) : ((Field.bits start width h).extract word address).toNat =
      (word.extractLsb' start width).toNat := by
  have hnarrow := (Layout.single start width h).narrow
  have hextract : (Field.bits start width h).extract word address =
      (Layout.single start width h).gather word := by
    have hoffset : (Field.bits start width h).offset address = 0#64 := rfl
    rw [extract_eq, hoffset, BitVec.add_zero]
    exact BitVec.shiftLeft_zero _
  rw [hextract, Layout.gather_eq, gatherPieces_eq_setWidth hnarrow,
    BitVec.toNat_setWidth_of_le hnarrow]
  exact congrArg BitVec.toNat (pieceBits_single ⟨start, width⟩ word)

theorem holds_of_wide (hwide : 64 < f.width + f.shift) (hshift : f.shift ≤ 64) (word : Word) :
    f.Holds (f.integer word / 2 ^ f.shift) := by
  have hpos : (0 : Int) < 2 ^ f.shift := by positivity
  cases hsigned : f.signed with
  | true =>
      have hwidth : 0 < f.width := by omega
      have hpow : (2 : Int) ^ 64 ≤ 2 ^ (f.width - 1) * 2 ^ f.shift := by
        rw [← pow_add]
        exact pow_le_pow_right₀ (by decide) (by omega)
      have hlow := BitVec.le_toInt word
      have hhigh := BitVec.toInt_lt (x := word)
      rw [holds_signed hwidth hsigned, integer_signed hsigned]
      constructor
      · apply Int.le_ediv_of_mul_le hpos
        rw [Int.neg_mul]
        omega
      · apply Int.ediv_lt_of_lt_mul hpos
        omega
  | false =>
      have hpow : (2 : Int) ^ 64 ≤ 2 ^ f.width * 2 ^ f.shift := by
        rw [← pow_add]
        exact pow_le_pow_right₀ (by decide) (by omega)
      have hlt := word.isLt
      rw [holds_unsigned hsigned, integer_unsigned hsigned]
      constructor
      · positivity
      · apply Int.ediv_lt_of_lt_mul hpos
        omega

theorem quotient_shiftLeft_of_holds (h : f.Holds (f.integer n)) (hfit : f.width + f.shift ≤ 64) :
    f.quotient (n <<< f.shift) = n := by
  apply integer_inj
  rw [integer_quotient, integer_shiftLeft h hfit]
  exact Int.mul_ediv_cancel _ (by positivity)

/-- The integer that is to be stored of a value: what is left of it without the offset. -/
def residue (f : Field) (value address : Word) : Int := f.integer (value - f.offset address)

/-- Whether the bits of the field can stand for a value at an address. -/
def Accepts (f : Field) (value address : Word) : Prop :=
  2 ^ f.shift ∣ f.residue value address ∧ f.Holds (f.residue value address / 2 ^ f.shift)

instance (f : Field) (value address : Word) : Decidable (f.Accepts value address) :=
  inferInstanceAs (Decidable (_ ∧ _))

/-- All that storing can do. -/
theorem insert_cases (hshift : f.shift ≤ 64) (word value address : Word) :
    (f.wraps = false ∧ ¬2 ^ f.shift ∣ f.residue value address ∧
        f.insert word value address = .error (.misaligned value.toInt f.shift)) ∨
      (f.wraps = false ∧ 2 ^ f.shift ∣ f.residue value address ∧
        ¬f.Holds (f.residue value address / 2 ^ f.shift) ∧
        f.insert word value address = .error (.overflow value.toInt f.width f.signed)) ∨
      ((f.wraps = false → f.Accepts value address) ∧
        f.insert word value address =
          .ok (f.layout.scatter word (f.quotient (value - f.offset address)))) := by
  have haligned : (value - f.offset address) &&& Word.lowBits f.shift = 0 ↔
      2 ^ f.shift ∣ f.residue value address := and_lowBits_eq_zero_iff hshift
  have hrange : f.InRange (f.quotient (value - f.offset address)) ↔
      f.Holds (f.residue value address / 2 ^ f.shift) := by
    rw [inRange_iff, integer_quotient]
    rfl
  cases hwraps : f.wraps with
  | true =>
      refine .inr (.inr ⟨fun h => absurd h (by decide), insert_eq_ok.2 ⟨fun h => ?_, rfl⟩⟩)
      rw [hwraps] at h
      cases h
  | false =>
      by_cases hdvd : 2 ^ f.shift ∣ f.residue value address
      · by_cases hholds : f.Holds (f.residue value address / 2 ^ f.shift)
        · exact .inr (.inr ⟨fun _ => ⟨hdvd, hholds⟩,
            insert_eq_ok.2 ⟨fun _ => ⟨haligned.2 hdvd, hrange.2 hholds⟩, rfl⟩⟩)
        · refine .inr (.inl ⟨rfl, hdvd, hholds, ?_⟩)
          rw [insert, if_neg (fun h => h.1 (haligned.2 hdvd)), if_pos ⟨hwraps, mt hrange.1 hholds⟩]
      · refine .inl ⟨rfl, hdvd, ?_⟩
        rw [insert, if_pos ⟨mt haligned.1 hdvd, hwraps⟩]

theorem exists_extract_iff (hshift : f.shift ≤ 64) (hdisjoint : f.layout.Disjoint)
    (value address : Word) : (∃ w, f.extract w address = value) ↔ f.Accepts value address := by
  constructor
  · rintro ⟨w, rfl⟩
    rw [Accepts, residue, extract_eq, BitVec.add_sub_cancel]
    have hholds := holds_number (f.layout.toNat_gather_lt w)
    by_cases hfit : f.width + f.shift ≤ 64
    · rw [integer_shiftLeft hholds hfit, Int.mul_ediv_cancel _ (by positivity)]
      exact ⟨Dvd.intro_left _ rfl, hholds⟩
    · refine ⟨(and_lowBits_eq_zero_iff hshift).1 ?_, holds_of_wide (by omega) hshift _⟩
      exact Word.shiftLeft_and_lowBits _ _
  · rintro ⟨hdvd, hholds⟩
    rw [residue, ← integer_quotient, ← inRange_iff] at hholds
    refine ⟨f.layout.scatter 0 (f.quotient (value - f.offset address)), ?_⟩
    rw [extract_eq, Layout.gather_scatter hdisjoint]
    change f.number (_ &&& Word.lowBits f.width) <<< _ + _ = _
    rw [number_and_lowBits hholds, quotient_shiftLeft ((and_lowBits_eq_zero_iff hshift).2 hdvd),
      BitVec.sub_add_cancel]

theorem gather_insert (hdisjoint : f.layout.Disjoint) (word scaled : Word) :
    ((f.layout.gather (f.layout.scatter word (f.quotient scaled))).toNat : Int) =
      f.integer scaled / 2 ^ f.shift % 2 ^ f.width := by
  have hnarrow : f.width ≤ 64 := f.layout.narrow
  rw [Layout.gather_scatter hdisjoint, ← integer_quotient, integer_emod f _ hnarrow]
  rfl

/-- When a value can be stored and which error it gives if not. Fields that keep only the low bits
never fail. -/
theorem insert_outcome (hshift : f.shift < 64) (word value address : Word) :
    (f.wraps = false →
      (f.insert word value address = .error (.misaligned value.toInt f.shift) ↔
        ¬2 ^ f.shift ∣ f.residue value address) ∧
      (f.insert word value address = .error (.overflow value.toInt f.width f.signed) ↔
        2 ^ f.shift ∣ f.residue value address ∧
          ¬f.Holds (f.residue value address / 2 ^ f.shift)) ∧
      ((∃ w, f.insert word value address = .ok w) ↔ f.Accepts value address)) ∧
    (f.layout.Disjoint →
      ((∃ w, f.extract w address = value) ↔ f.Accepts value address)) ∧
    (f.wraps = true → ∃ w, f.insert word value address = .ok w ∧
      (f.layout.Disjoint → ((f.layout.gather w).toNat : Int) =
        f.residue value address / 2 ^ f.shift % 2 ^ f.width)) := by
  refine ⟨fun hwraps => ?_, fun hdisjoint => ?_, fun hwraps => ?_⟩
  · rcases insert_cases (Nat.le_of_lt hshift) word value address with
      ⟨-, hdvd, heq⟩ | ⟨-, hdvd, hholds, heq⟩ | ⟨haccepts, heq⟩
    · simp [heq, hdvd, Accepts]
    · simp [heq, hdvd, hholds, Accepts]
    · obtain ⟨hdvd, hholds⟩ := haccepts hwraps
      simp [heq, hdvd, hholds, Accepts]
  · exact exists_extract_iff (Nat.le_of_lt hshift) hdisjoint value address
  · rcases insert_cases (Nat.le_of_lt hshift) word value address with
      ⟨hkeeps, -⟩ | ⟨hkeeps, -⟩ | ⟨-, heq⟩
    · rw [hwraps] at hkeeps
      cases hkeeps
    · rw [hwraps] at hkeeps
      cases hkeeps
    · exact ⟨_, heq, fun hdisjoint => gather_insert hdisjoint _ _⟩

theorem insert_outcome_even :
    ∃ f g : Field, f.shift < 64 ∧ f.wraps = false ∧ g.wraps = true ∧ f.layout.Disjoint ∧
      f.insert 0 3 0 = .error (.misaligned 3 1) ∧
      f.insert 0 (-2) 0 = .error (.overflow (-2) 62 false) ∧
      (∃ w, f.insert 0 4 0 = .ok w) ∧ (∃ w, f.extract w 0 = 4) ∧
      ∃ w, g.insert 0 (-2) 0 = .ok w ∧ (g.layout.gather w).toNat = 2 ^ 62 - 1 := by
  let f : Field := { layout := { pieces := [⟨40, 24⟩, ⟨0, 38⟩] }, shift := 1 }
  let g : Field := { f with wraps := true }
  have hshift : f.shift < 64 := by decide
  have hdisjoint : f.layout.Disjoint := by decide
  obtain ⟨hmisaligned, -, -⟩ := (insert_outcome hshift 0 3 0).1 rfl
  obtain ⟨-, hoverflow, -⟩ := (insert_outcome hshift 0 (-2) 0).1 rfl
  obtain ⟨-, -, hok⟩ := (insert_outcome hshift 0 4 0).1 rfl
  have hextract := (insert_outcome hshift 0 4 0).2.1 hdisjoint
  obtain ⟨w, hw, hgather⟩ := (insert_outcome (f := g) hshift 0 (-2) 0).2.2 rfl
  refine ⟨f, g, hshift, rfl, rfl, hdisjoint, hmisaligned.2 ?_, hoverflow.2 ?_, hok.2 ?_,
    hextract.2 ?_, w, hw, Int.ofNat_inj.1 ((hgather hdisjoint).trans ?_)⟩
  all_goals decide

/-- Every word is what storing in it what was taken from it gives, and the bits of the field are
known from what was taken. -/
theorem insert_extract (hfit : f.width + f.shift ≤ 64) (address : Word) :
    (∀ word, f.insert word (f.extract word address) address = .ok word) ∧
      ∀ a b, f.extract a address = f.extract b address ↔ Word.AgreeOn f.mask a b := by
  have hscaled (word : Word) : f.extract word address - f.offset address =
      f.number (f.layout.gather word) <<< f.shift := by
    rw [extract_eq, BitVec.add_sub_cancel]
  have hholds (word : Word) : f.Holds (f.integer (f.number (f.layout.gather word))) :=
    holds_number (f.layout.toNat_gather_lt word)
  have hquotient (word : Word) : f.quotient (f.extract word address - f.offset address) =
      f.number (f.layout.gather word) := by
    rw [hscaled, quotient_shiftLeft_of_holds (hholds word) hfit]
  have hstored (word : Word) : f.layout.scatter word (f.number (f.layout.gather word)) = word := by
    rw [Layout.scatter_congr (f.number_agreeOn _), Layout.scatter_gather]
  refine ⟨fun word => ?_, fun a b => ⟨fun h => ?_, fun h => extract_congr h address⟩⟩
  · rw [insert_eq_ok, hquotient, inRange_iff, hscaled]
    exact ⟨fun _ => ⟨Word.shiftLeft_and_lowBits _ _, hholds word⟩, hstored word⟩
  · have hsame : f.number (f.layout.gather a) = f.number (f.layout.gather b) := by
      rw [← hquotient, ← hquotient, h]
    rw [← hstored a, ← hstored b, hsame]
    exact f.layout.scatter_agreeOn _ _ _

theorem insert_extract_overlap :
    ∃ f : Field, f.width + f.shift ≤ 64 ∧ ¬f.layout.Disjoint ∧
      f.extract 0x9c5 0x40 = -101540 ∧ f.insert 0x9c5 (-101540) 0x40 = .ok 0x9c5 ∧
      f.extract 0xf9c5 0x40 = -101540 ∧ f.extract 0x9c7 0x40 ≠ -101540 := by
  let f : Field :=
    { layout := { pieces := [⟨4, 8⟩, ⟨0, 8⟩] }
      signed := true
      shift := 2
      addend := 8
      relative := true }
  have hfit : f.width + f.shift ≤ 64 := by decide
  have hextract : f.extract 0x9c5 0x40 = -101540 := by decide
  obtain ⟨hinsert, hagree⟩ := insert_extract hfit 0x40
  refine ⟨f, hfit, by decide, hextract, hextract ▸ hinsert 0x9c5,
    ((hagree 0xf9c5 0x9c5).2 (by decide)).trans hextract, fun h => ?_⟩
  exact absurd ((hagree 0x9c7 0x9c5).1 (h.trans hextract.symm)) (by decide)

end Codeword.Field
