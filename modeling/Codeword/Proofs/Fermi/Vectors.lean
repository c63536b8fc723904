import Codeword.Proofs.Fermi.Guard
import Codeword.Proofs.Operand.VectorGroup

namespace Codeword

def Atom.countsFromSmall : Atom → Bool
  | .vector g => g.base.isSmall
  | _ => true

def Table.countsFromSmall (t : Table) : Bool := t.rows.all fun r => r.atoms.all (·.countsFromSmall)

namespace Fermi

variable {t : Table} {r : Row} {g : VectorGroup}

theorem root_every_countsFromSmall : root.every Table.countsFromSmall = true := by decide +kernel

theorem isSmall_base (ht : Relation.ReflTransGen Table.Refers root t) (hr : r ∈ t.rows)
    (hg : Atom.vector g ∈ r.atoms) : g.base.isSmall = true := by
  have htable : t.countsFromSmall = true := Table.test_of_every root_every_countsFromSmall ht
  rw [Table.countsFromSmall, List.all_eq_true] at htable
  exact List.all_eq_true.1 (htable r hr) _ hg

/-- A group has as many slots as its count says, from none to 64. The slots that its mask has hold
consecutive registers from its base on, and the others hold none. The numbers of all groups of
shader code are small enough for that. -/
theorem consecutive_registers :
    (∀ (g : VectorGroup) (word address : Word), g.Fits word address →
      let slots := g.decode word address
      (slots.length : Int) = max 0 (min (g.count.extract word address).toInt 64) ∧
      (∀ k < slots.length, (∃ n, slots[k]? = some (some n)) ↔
        ∀ m ∈ g.mask, (m.extract word address).getLsbD k = true) ∧
      slots.filterMap id =
        List.range' (g.base.extract word address).toNat (slots.countP Option.isSome) ∧
      ∀ n ∈ slots.filterMap id, n + 1 ≤ 2 ^ 64 - 1) ∧
    ∀ t, Relation.ReflTransGen Table.Refers root t → ∀ r ∈ t.rows, ∀ g, Atom.vector g ∈ r.atoms →
      ∀ word address, g.Fits word address := by
  refine ⟨fun g word address hfits => ?_, fun t ht r hr g hg word address => ?_⟩
  · have hlength := g.length_decode word address
    have hregisters := g.registers_decode word address
    refine ⟨?_, fun k hk => ?_, hregisters, fun n hn => ?_⟩
    · rw [hlength]
      exact g.slotCount_eq word address
    · rw [hlength] at hk
      exact (VectorGroup.exists_register_iff hk).trans VectorGroup.isPresent_iff
    · rw [hregisters, List.mem_range'_1] at hn
      rw [VectorGroup.Fits] at hfits
      omega
  · exact VectorGroup.fits_of_isSmall (isSmall_base ht hr hg) word address

theorem consecutive_registers_masked :
    let g : VectorGroup :=
      { file := "r", base := .bits 0x0e 6, count := .constant 4, mask := some (.bits 0x2e 4) }
    let word : Word := 4 <<< 0x0e ||| 0b1011 <<< 0x2e
    Relation.ReflTransGen Table.Refers root texture ∧ g.Fits word 0 ∧
      ((g.decode word 0).length : Int) = max 0 (min 4 64) ∧
      (∃ n, (g.decode word 0)[3]? = some (some n)) ∧
      (¬∃ n, (g.decode word 0)[2]? = some (some n)) ∧
      (g.decode word 0).filterMap id = [4, 5, 6] := by
  intro g word
  have hops : Table.Refers ops texture :=
    Table.mem_references.2 ⟨⟨6, 7, [texture]⟩, by simp [ops], by simp⟩
  have htexture : Relation.ReflTransGen Table.Refers root texture :=
    .tail (.tail .refl root_refers_ops) hops
  obtain ⟨general, reachable⟩ := consecutive_registers
  have hfits : g.Fits word 0 :=
    reachable texture htexture (.unknown textureOperands) (by simp [texture]) g
      (by simp [Row.unknown, Row.otherwise, textureOperands, texelDst, g]) word 0
  have hbase : (g.base.extract word 0).toNat = 4 := by decide
  have hcount : (g.decode word 0).countP Option.isSome = 3 := by decide
  have hlength : (g.decode word 0).length = 4 := by decide
  obtain ⟨hslots, hmask, hregisters, -⟩ := general g word 0 hfits
  rw [hbase, hcount] at hregisters
  refine ⟨htexture, hfits, hslots, (hmask 3 (by rw [hlength]; decide)).2 ?_,
    fun h => ?_, hregisters⟩
  · decide
  · exact absurd ((hmask 2 (by rw [hlength]; decide)).1 h) (by decide)

end Fermi

end Codeword
