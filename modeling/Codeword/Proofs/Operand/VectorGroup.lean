import Codeword.Operand.VectorGroup
import Codeword.Proofs.Field.Storage

namespace Codeword

namespace VectorGroup

variable {g : VectorGroup} {word address : Word} {next n k : Nat} {ps : List Bool}

theorem map_isSome_fill (next : Nat) (ps : List Bool) : (fill next ps).map Option.isSome = ps := by
  induction ps generalizing next with
  | nil => rfl
  | cons p ps ih =>
      cases p with
      | true => exact congrArg (true :: ·) (ih (next + 1))
      | false => exact congrArg (false :: ·) (ih next)

theorem filterMap_fill (next : Nat) (ps : List Bool) :
    (fill next ps).filterMap id = List.range' next (ps.count true) := by
  induction ps generalizing next with
  | nil => rfl
  | cons p ps ih =>
      cases p with
      | true =>
          rw [List.count_cons_self, List.range'_succ, ← ih (next + 1)]
          rfl
      | false =>
          rw [List.count_cons_of_ne (by decide), ← ih next]
          rfl

def presence (g : VectorGroup) (word address : Word) : List Bool :=
  (List.range (g.slotCount word address)).map (g.isPresent word address)

theorem decode_eq (g : VectorGroup) (word address : Word) :
    g.decode word address = fill (g.base.extract word address).toNat (g.presence word address) := rfl

theorem map_isSome_decode (g : VectorGroup) (word address : Word) :
    (g.decode word address).map Option.isSome = g.presence word address :=
  map_isSome_fill _ _

theorem slotCount_eq (g : VectorGroup) (word address : Word) :
    (g.slotCount word address : Int) = max 0 (min (g.count.extract word address).toInt 64) := by
  rw [slotCount]
  omega

theorem length_decode (g : VectorGroup) (word address : Word) :
    (g.decode word address).length = g.slotCount word address := by
  have hlength := congrArg List.length (map_isSome_decode g word address)
  rwa [List.length_map, presence, List.length_map, List.length_range] at hlength

theorem isPresent_iff : g.isPresent word address k = true ↔
    ∀ m ∈ g.mask, (m.extract word address).getLsbD k = true := by
  rw [isPresent]
  cases g.mask <;> simp

theorem exists_register_iff (hk : k < g.slotCount word address) :
    (∃ n, (g.decode word address)[k]? = some (some n)) ↔ g.isPresent word address k = true := by
  have hslots := congrArg (·[k]?) (map_isSome_decode g word address)
  simp only [presence, List.getElem?_map, List.getElem?_range hk, Option.map_some,
    Option.map_eq_some_iff] at hslots
  obtain ⟨slot, hslot, hpresent⟩ := hslots
  rw [hslot, ← hpresent, Option.isSome_iff_exists]
  simp

def registerCount (g : VectorGroup) (word address : Word) : Nat :=
  (g.decode word address).countP Option.isSome

theorem registerCount_eq (g : VectorGroup) (word address : Word) :
    g.registerCount word address = (g.presence word address).count true := by
  rw [registerCount, ← map_isSome_decode, List.count_eq_countP, List.countP_map]
  exact List.countP_congr fun slot _ => by simp

/-- The counter of registers stays a number of 64 bits, also after the last of them. -/
def Fits (g : VectorGroup) (word address : Word) : Prop :=
  (g.base.extract word address).toNat + g.registerCount word address ≤ 2 ^ 64 - 1

theorem registers_decode (g : VectorGroup) (word address : Word) :
    (g.decode word address).filterMap id =
      List.range' (g.base.extract word address).toNat (g.registerCount word address) := by
  rw [registerCount_eq, decode_eq, filterMap_fill]

theorem registerCount_le (g : VectorGroup) (word address : Word) :
    g.registerCount word address ≤ 64 := by
  have hlength := length_decode g word address
  have hcount : g.registerCount word address ≤ (g.decode word address).length := List.countP_le_length
  rw [hlength, slotCount] at hcount
  omega

end VectorGroup

namespace Field

variable {f : Field}

/-- A field without sign, addend and address, whose bits stay clear of the highest. -/
def isSmall (f : Field) : Bool :=
  !f.signed && f.addend == 0 && !f.relative && f.width + f.shift < 64

theorem toNat_extract_lt (h : f.isSmall = true) (word address : Word) :
    (f.extract word address).toNat < 2 ^ 63 := by
  simp only [isSmall, Bool.and_eq_true, Bool.not_eq_true', beq_iff_eq, decide_eq_true_eq] at h
  obtain ⟨⟨⟨hsigned, haddend⟩, hrelative⟩, hfit⟩ := h
  have hoffset : f.offset address = 0#64 := by
    rw [offset, haddend, hrelative]
    rfl
  have hnumber : f.number (f.layout.gather word) = f.layout.gather word := by
    rw [number, hsigned]
    rfl
  have hbits : (f.layout.gather word).toNat < 2 ^ f.width := f.layout.toNat_gather_lt word
  rw [extract_eq, hoffset, hnumber, BitVec.add_zero, BitVec.toNat_shiftLeft, Nat.shiftLeft_eq]
  calc (f.layout.gather word).toNat * 2 ^ f.shift % 2 ^ 64
      ≤ (f.layout.gather word).toNat * 2 ^ f.shift := Nat.mod_le _ _
    _ < 2 ^ f.width * 2 ^ f.shift := Nat.mul_lt_mul_of_pos_right hbits (Nat.two_pow_pos _)
    _ = 2 ^ (f.width + f.shift) := (Nat.pow_add _ _ _).symm
    _ ≤ 2 ^ 63 := Nat.pow_le_pow_right (by decide) (by omega)

end Field

theorem VectorGroup.fits_of_isSmall {g : VectorGroup} (h : g.base.isSmall = true)
    (word address : Word) : g.Fits word address := by
  have hbase := Field.toNat_extract_lt h word address
  have hcount := registerCount_le g word address
  rw [Fits]
  omega

end Codeword
