import Codeword.Proofs.Fermi.Guard
import Codeword.Proofs.Table.Relocation

namespace Codeword.Fermi

theorem control_every_relocates : control.every Table.relocates = true := by decide +kernel

def straight : Table := { root with rows := root.rows.tail }

theorem straight_every_isPlain : straight.every Table.isPlain = true := by decide +kernel

theorem root_tokens_of_straight {s : Site} (h : s.word &&& 7 ≠ 7) :
    root.tokens s = straight.tokens s := by
  rw [root, Table.tokens, firstRow, if_neg h]
  rfl

/-- Where code stands decides on its relative addresses, and those are in control flow only. Every
other token is the same at any address. -/
theorem root_tokens_relocate (word address d : Word) :
    ∃ ts, root.tokens { word, address } = .ok ts ∧
      root.tokens { word, address := address + d } = .ok (relocate d false ts) ∧
      (word &&& 7 ≠ 7 → relocate d false ts = ts) := by
  obtain ⟨ts, hts⟩ := exists_root_tokens { word, address }
  refine ⟨ts, hts, ?_⟩
  by_cases hclass : word &&& 7 = 7
  · refine ⟨?_, fun h => absurd hclass h⟩
    have hrelocated := (Table.tokens_relocated control_every_relocates word address d).eq_map
    rw [root_tokens_of_class hclass] at hts ⊢
    rw [hrelocated, hts]
    rfl
  · rw [root_tokens_of_straight hclass] at hts ⊢
    have hsame := Table.tokens_of_isPlain straight_every_isPlain { word, address } (address + d)
    have hself : relocate d false ts = ts :=
      relocate_eq_self false fun x hx => Table.moved_of_isPlain straight_every_isPlain hts hx
    exact ⟨hself.symm ▸ hsame.trans hts, fun _ => hself⟩

theorem root_tokens_relocate_calls :
    root.tokens { word := 0x5000000000000007, address := 0x100 - 0x200 } =
      .ok [.opcode "call", .operand (.target .call 0xffffffffffffff08 none)] ∧
    root.tokens { word := 0x1000000400000007, address := 0x100 - 0x200 } =
      .ok [.opcode "call", .modifier "abs", .operand (.target .call 0x100 none)] ∧
    root.tokens { word := 0x4800440080101c03, address := 0x100 - 0x200 } =
      root.tokens { word := 0x4800440080101c03, address := 0x100 } := by
  have hnear : root.tokens { word := 0x5000000000000007, address := 0x100 } =
      .ok [.opcode "call", .operand (.target .call 0x108 none)] := by cbv
  have hfar : root.tokens { word := 0x1000000400000007, address := 0x100 } =
      .ok [.opcode "call", .modifier "abs", .operand (.target .call 0x100 none)] := by cbv
  obtain ⟨ts, hts, hmoved, -⟩ := root_tokens_relocate 0x5000000000000007 0x100 (-0x200)
  obtain ⟨us, hus, hstayed, -⟩ := root_tokens_relocate 0x1000000400000007 0x100 (-0x200)
  obtain ⟨vs, hvs, hplain, hself⟩ := root_tokens_relocate 0x4800440080101c03 0x100 (-0x200)
  rw [hnear] at hts
  rw [hfar] at hus
  cases hts
  cases hus
  refine ⟨hmoved, hstayed, ?_⟩
  rw [hvs]
  exact hplain.trans (congrArg Except.ok (hself (by decide)))

end Codeword.Fermi
