import Codeword.Bitstream.Request
import Codeword.Proofs.Bitstream.Numbers

namespace Codeword

namespace Call

/-- The bits of a value. Those of a padding depend on where it stands. -/
def bits : (c : Call) → Nat → c.Value → Except StreamError (List Bool)
  | u bits, _, v => BitWriter.uBits bits v
  | ue, _, v => BitWriter.ueBits v
  | se, _, v => BitWriter.seBits v
  | flag, _, v => .ok [v]
  | align fill, position, _ => .ok (List.replicate ((8 - position % 8) % 8) fill)

end Call

theorem BitReader.padding_replicate (fill : Bool) (n position : Nat) (rest : List Bool) :
    padding fill n ⟨position, List.replicate n fill ++ rest⟩ =
      (.ok (), ⟨position + n, rest⟩) := by
  induction n generalizing position with
  | zero => rfl
  | succ n ih =>
      have hstep := ih (position + 1)
      rw [Nat.add_assoc, Nat.add_comm 1 n] at hstep
      simpa [padding, List.replicate_succ, skip] using hstep

theorem BitReader.eq_replicate_of_padding {fill : Bool} {n : Nat} {r r' : BitReader}
    (h : padding fill n r = (.ok (), r')) : r.rest = List.replicate n fill ++ r'.rest := by
  induction n generalizing r with
  | zero =>
      cases h
      rfl
  | succ n ih =>
      rw [padding] at h
      split at h
      next => simp [exhausted] at h
      next b bs hrest =>
        split at h
        next hfill =>
          subst hfill
          have htail := ih h
          rw [hrest, List.replicate_succ, List.cons_append, ← htail]
          simp [skip, hrest]
        next => simp at h

namespace Call

variable {c : Call} {v : c.Value} {bs : List Bool} {position : Nat} {r r' : BitReader}

theorem write_eq (c : Call) (v : c.Value) (w : BitWriter) :
    c.write v w = w.put (c.bits w.position v) := by
  cases c <;> rfl

theorem read_append (h : c.bits position v = .ok bs) (rest : List Bool) :
    c.read ⟨position, bs ++ rest⟩ = (.ok v, ⟨position + bs.length, rest⟩) := by
  cases c with
  | u n => exact (BitReader.u_inverts n).read_append h position rest
  | ue => exact BitReader.ue_inverts.read_append h position rest
  | se => exact BitReader.se_inverts.read_append h position rest
  | flag => exact BitReader.flag_inverts.read_append h position rest
  | align fill =>
      cases h
      rw [List.length_replicate]
      exact BitReader.padding_replicate fill _ position rest

theorem exists_bits_of_read (h : c.read r = (.ok v, r')) :
    ∃ bs, c.bits r.position v = .ok bs ∧ r.rest = bs ++ r'.rest := by
  cases c with
  | u n => exact (BitReader.u_inverts n).eq_append h
  | ue => exact BitReader.ue_inverts.eq_append h
  | se => exact BitReader.se_inverts.eq_append h
  | flag => exact BitReader.flag_inverts.eq_append h
  | align fill => exact ⟨_, rfl, BitReader.eq_replicate_of_padding h⟩

theorem read_eq_ok : c.read r = (.ok v, r') ↔
    ∃ bs, c.bits r.position v = .ok bs ∧ r.rest = bs ++ r'.rest ∧
      r'.position = r.position + bs.length := by
  constructor
  · intro h
    obtain ⟨bs, hbits, hrest⟩ := exists_bits_of_read h
    have hself := read_append hbits r'.rest
    rw [← hrest] at hself
    have hpair := h.symm.trans hself
    rw [Prod.mk.injEq] at hpair
    exact ⟨bs, hbits, hrest, congrArg BitReader.position hpair.2⟩
  · rintro ⟨bs, hbits, hrest, hposition⟩
    have hself := read_append hbits r'.rest
    rwa [← hrest, ← hposition] at hself

end Call

abbrev Item := (c : Call) × c.Value

namespace Item

def Fits : Item → Prop
  | ⟨.u n, v⟩ => n ≤ 32 ∧ v.toNat < 2 ^ n
  | ⟨.ue, v⟩ => v.toNat ≤ 2 ^ 32 - 2
  | ⟨.se, v⟩ => Int32.minValue < v
  | ⟨.flag, _⟩ | ⟨.align _, _⟩ => True

instance : DecidablePred Fits
  | ⟨.u _, _⟩ => inferInstanceAs (Decidable (_ ∧ _))
  | ⟨.ue, _⟩ => inferInstanceAs (Decidable (_ ≤ _))
  | ⟨.se, v⟩ => inferInstanceAs (Decidable (Int32.minValue < v))
  | ⟨.flag, _⟩ | ⟨.align _, _⟩ => instDecidableTrue

theorem Fits.exists_bits {i : Item} (h : i.Fits) (position : Nat) :
    ∃ bs, i.1.bits position i.2 = .ok bs := by
  obtain ⟨c, v⟩ := i
  cases c with
  | u n => exact ⟨_, BitWriter.uBits_eq_ok.2 ⟨h.1, h.2, rfl⟩⟩
  | ue =>
      have hle : UInt32.toNat v ≤ 2 ^ 32 - 2 := h
      exact BitWriter.exists_codeBits (Nat.lt_of_le_of_lt (Nat.succ_le_succ hle) (by decide))
  | se =>
      have hlow := Int32.lt_iff_toInt_lt.1 h
      have hhigh := Int32.toInt_lt v
      rw [Int32.toInt_minValue] at hlow
      have hcode : ExpGolomb.codeOfInt (Int32.toInt v) + 1 < 2 ^ 32 := by
        rw [ExpGolomb.codeOfInt]
        split <;> omega
      exact BitWriter.exists_codeBits hcode
  | flag => exact ⟨_, rfl⟩
  | align fill => exact ⟨_, rfl⟩

end Item

end Codeword
