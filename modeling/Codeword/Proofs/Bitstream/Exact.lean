import Codeword.Proofs.Bitstream.Restore

namespace Codeword

open Code

namespace Format

variable {σ : Type} {f : Format σ} {s s₀ : σ} {bs : List Bool}

theorem Lawful.reads_of_code (hf : f.Lawful) (h : f.code.Reads s₀ bs s) : f.Reads s₀ bs s := by
  obtain ⟨bs', hrest, hreads⟩ := hf.exists_reads h.read_self
  have heq : bs = bs' := by simpa using hrest
  exact heq ▸ hreads

theorem Lawful.writes_of_code (hf : f.Lawful) (h : f.code.Writes s bs) : f.Writes s bs := by
  obtain ⟨bs', hwrites⟩ := hf.exists_writes h.write_empty
  exact h.inj (hwrites.code hf) ▸ hwrites

theorem Faithful.exact (hf : f.Faithful) (hlawful : f.Lawful)
    (hall : ∀ {s bs}, f.Writes s bs → ∀ s₀, f.restore s s₀ = s) : Exact f.code where
  toLawful := hlawful.code
  reads_iff := by
    intro s₀ bs s
    constructor
    · intro h
      exact (hf.writes (hlawful.reads_of_code h)).1.code hlawful
    · intro h
      have hwrites := hlawful.writes_of_code h
      have hreads := hf.reads hwrites s₀
      rw [hall hwrites] at hreads
      exact hreads.code

end Format

namespace Code

variable {α : Type} {c : Code α} [Exact c] {old v v' : α}

theorem read_finish {w : BitWriter} (h : c.write v {} = (.ok (), v', w)) (old : α) : v' = v ∧
    c.read old (.ofBytes w.finish) =
      (.ok (), v, ⟨w.position, true :: List.replicate (7 - w.bits.length % 8) false⟩) := by
  obtain ⟨bs, hwrites⟩ := Lawful.exists_writes h
  have hempty := hwrites.write_empty
  rw [h] at hempty
  cases hempty
  refine ⟨rfl, ?_⟩
  have hread := hwrites.reads old 0 (true :: List.replicate (7 - bs.length % 8) false)
  rw [Nat.zero_add, ← BitWriter.ofBytes_finish ⟨bs⟩] at hread
  exact hread

theorem write_of_read {data : List UInt8} {r : BitReader}
    (h : c.read old (.ofBytes data) = (.ok (), v, r)) :
    ∃ w, c.write v {} = (.ok (), v, w) ∧ w.position = r.position ∧
      w.bits = (Bits.ofBytes data).take r.position := by
  obtain ⟨bs, hdata, hreads⟩ := Lawful.exists_reads h
  have hread := hreads 0 r.rest
  change Bits.ofBytes data = bs ++ r.rest at hdata
  rw [← hdata, Nat.zero_add] at hread
  have hposition : r.position = bs.length := by
    have heq := h.symm.trans hread
    simp only [Prod.mk.injEq, true_and] at heq
    rw [heq]
  refine ⟨⟨bs⟩, hreads.writes.write_empty, hposition.symm, ?_⟩
  rw [hposition, hdata, List.take_left]

end Code

end Codeword
