import Codeword.Proofs.Field.Layout
import Codeword.Proofs.Field.Range

namespace Codeword.Field

variable {f : Field} {word value address w : Word}

def number (f : Field) (bits : Word) : Word :=
  if f.signed then (bits.setWidth f.width).signExtend 64 else bits

/-- The number of which a value without its offset is a multiple. -/
def quotient (f : Field) (scaled : Word) : Word :=
  if f.signed then scaled.sshiftRight f.shift else scaled >>> f.shift

theorem extract_eq (f : Field) (word address : Word) :
    f.extract word address = f.number (f.layout.gather word) <<< f.shift + f.offset address := rfl

theorem extract_congr {a b : Word} (h : Word.AgreeOn f.mask a b) (address : Word) :
    f.extract a address = f.extract b address := by
  rw [extract, extract, Layout.gather_congr h]

theorem insert_eq_ok : f.insert word value address = .ok w ↔
    (f.wraps = false → (value - f.offset address) &&& Word.lowBits f.shift = 0 ∧
      f.InRange (f.quotient (value - f.offset address))) ∧
    f.layout.scatter word (f.quotient (value - f.offset address)) = w := by
  rw [insert]
  change (if _ then _ else if f.wraps = false ∧ ¬f.InRange (f.quotient _) then _ else
    Except.ok (f.layout.scatter word (f.quotient _))) = _ ↔ _
  split
  next hmisaligned =>
    constructor
    · intro h
      cases h
    · intro h
      exact absurd (h.1 hmisaligned.2).1 hmisaligned.1
  next haligned =>
    split
    next hoverflow =>
      constructor
      · intro h
        cases h
      · intro h
        exact absurd (h.1 hoverflow.1).2 hoverflow.2
    next hrange =>
      rw [Except.ok.injEq]
      have hstored (hwraps : f.wraps = false) :
          (value - f.offset address) &&& Word.lowBits f.shift = 0 ∧
            f.InRange (f.quotient (value - f.offset address)) :=
        ⟨not_not.1 fun hlow => haligned ⟨hlow, hwraps⟩, not_not.1 fun hout => hrange ⟨hwraps, hout⟩⟩
      exact ⟨fun h => ⟨hstored, h⟩, fun h => h.2⟩

theorem quotient_shiftLeft {scaled : Word} (h : scaled &&& Word.lowBits f.shift = 0) :
    f.quotient scaled <<< f.shift = scaled := by
  rw [quotient]
  split
  · rw [Word.sshiftRight_shiftLeft, Word.ushiftRight_shiftLeft h]
  · exact Word.ushiftRight_shiftLeft h

theorem number_zero (f : Field) : f.number 0#64 = 0#64 := by
  rw [number]
  split
  · rw [BitVec.setWidth_zero, BitVec.signExtend_eq_setWidth_of_msb_false BitVec.msb_zero,
      BitVec.setWidth_zero]
  · rfl

theorem number_agreeOn (f : Field) (bits : Word) :
    Word.AgreeOn (Word.lowBits f.width) (f.number bits) bits := by
  rw [number]
  split
  · rw [Word.agreeOn_iff]
    intro i hi
    rw [Word.getLsbD_lowBits, Bool.and_eq_true, decide_eq_true_eq, decide_eq_true_eq] at hi
    rw [BitVec.getLsbD_signExtend, BitVec.getLsbD_setWidth]
    simp [hi]
  · rfl

theorem number_and_lowBits {n : Word} (h : f.InRange n) :
    f.number (n &&& Word.lowBits f.width) = n := by
  have hholds := inRange_iff.1 h
  rcases Nat.eq_zero_or_pos f.width with hzero | hwidth
  · rw [eq_zero_of_holds hholds hzero, BitVec.zero_and, number_zero]
  rw [number]
  split
  next hsigned =>
    obtain ⟨hlow, hhigh⟩ := (holds_signed hwidth hsigned).1 hholds
    rw [integer_signed hsigned] at hlow hhigh
    rw [Word.setWidth_and_lowBits]
    exact Word.signExtend_setWidth hwidth f.layout.narrow hlow hhigh
  next hunsigned =>
    exact Word.and_lowBits_of_toNat_lt (toNat_lt_of_holds hholds (Bool.eq_false_iff.2 hunsigned))

/-- What was stored is read back, and no bit outside the field has changed. The second holds of
a field that keeps only the low bits too. -/
theorem extract_insert (h : f.insert word value address = .ok w) :
    (f.wraps = false → f.layout.Disjoint → f.extract w address = value) ∧
      w &&& ~~~f.mask = word &&& ~~~f.mask := by
  obtain ⟨hstored, rfl⟩ := insert_eq_ok.1 h
  constructor
  · intro hwraps hdisjoint
    obtain ⟨haligned, hrange⟩ := hstored hwraps
    calc f.extract _ address
        = f.number (f.quotient (value - f.offset address) &&& Word.lowBits f.width) <<< f.shift +
            f.offset address := by rw [extract_eq, Layout.gather_scatter hdisjoint]; rfl
      _ = f.quotient (value - f.offset address) <<< f.shift + f.offset address := by
          rw [number_and_lowBits hrange]
      _ = value - f.offset address + f.offset address := by rw [quotient_shiftLeft haligned]
      _ = value := BitVec.sub_add_cancel _ _
  · exact Layout.scatter_and_not_mask _ _ _

theorem extract_insert_relative :
    ∃ (f : Field) (w : Word), Layout.ofPieces [⟨55, 3⟩, ⟨26, 17⟩] = .ok f.layout ∧
      f.insert 0xffffffffffffffff (-40) 0x10 = .ok w ∧ w ≠ 0xffffffffffffffff ∧
      f.extract w 0x10 = -40 ∧ w &&& ~~~f.mask = 0xffffffffffffffff &&& ~~~f.mask := by
  let f : Field :=
    { layout := { pieces := [⟨55, 3⟩, ⟨26, 17⟩] }
      signed := true
      shift := 2
      addend := 8
      relative := true }
  have hdisjoint : f.layout.Disjoint := by decide
  have hinsert : f.insert 0xffffffffffffffff (-40) 0x10 = .ok 0xffffffffc3ffffff := by decide
  obtain ⟨hextract, hframe⟩ := extract_insert hinsert
  exact ⟨f, _, Layout.ofPieces_eq_ok.2 rfl, hinsert, by decide, hextract rfl hdisjoint, hframe⟩

end Codeword.Field
