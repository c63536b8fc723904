import Codeword.Proofs.Bitstream.Exact
import Codeword.Proofs.Video.Fields

namespace Codeword

open Format Code

namespace Weight

variable {luma chroma : Int32}

theorem restore_format (w w₀ : Weight) : (format luma chroma).restore w w₀ = w := rfl

theorem format_lawful : (format luma chroma).Lawful :=
  (format_every lawful_elementary luma chroma).lawful

theorem format_faithful : (format luma chroma).Faithful := by
  rw [format]
  repeat' refine Faithful.field (fun v s s₀ => rfl) fun _ => ?_
  exact .done

instance : Exact (format luma chroma).code :=
  format_faithful.exact format_lawful fun {w _} _ w₀ => restore_format w w₀

end Weight

namespace WeightTable

variable {refs0 refs1 : Nat} {luma chroma : UInt32} {t t₀ : WeightTable} {bs : List Bool}

theorem weights_faithful : (weights refs0 refs1 luma chroma).Faithful where
  -- Both lists have their lengths before the first weight, so they cannot be taken one by one.
  reads := by
    rintro t _ ⟨b₁, _, rfl, hsized0, b₂, _, rfl, hsized1, b₃, _, rfl, hlist0, b₄, b₅, rfl, hlist1,
      hdone⟩ t₀
    obtain ⟨hlength0, rfl⟩ := writes_sized.1 hsized0
    obtain ⟨hlength1, rfl⟩ := writes_sized.1 hsized1
    have hread0 : (sized refs0).Reads t₀.list0 [] _ := reads_sized.2 ⟨rfl, rfl⟩
    have hread1 : (sized refs1).Reads t₀.list1 [] _ := reads_sized.2 ⟨rfl, rfl⟩
    refine ⟨_, [], _, rfl, hread0, _, [], _, rfl, hread1, t.list0, b₃, _, rfl, ?_, t.list1, b₄, b₅,
      rfl, ?_, rfl, hdone⟩
    · exact reads_each.2 ⟨hlength0.trans hread0.length_sized.symm, hlist0⟩
    · exact reads_each.2 ⟨hlength1.trans hread1.length_sized.symm, hlist1⟩
  writes := by
    rintro t₀ _ _ ⟨xs, b₁, _, rfl, hsized0, ys, b₂, _, rfl, hsized1, vs, b₃, _, rfl, hlist0, ws, b₄,
      b₅, rfl, hlist1, rfl, hdone⟩
    obtain ⟨hlength0, hwrites0⟩ := reads_each.1 hlist0
    obtain ⟨hlength1, hwrites1⟩ := reads_each.1 hlist1
    obtain ⟨-, rfl⟩ := reads_sized.1 hsized0
    obtain ⟨-, rfl⟩ := reads_sized.1 hsized1
    refine ⟨⟨[], _, rfl, writes_sized.2 ⟨hlength0.trans hsized0.length_sized, rfl⟩, [], _, rfl,
      writes_sized.2 ⟨hlength1.trans hsized1.length_sized, rfl⟩, b₃, _, rfl, hwrites0, b₄, b₅, rfl,
      hwrites1, hdone⟩, rfl⟩

theorem format_lawful : (format refs0 refs1).Lawful :=
  (format_every lawful_elementary (fun _ _ => Weight.format_lawful.code) refs0 refs1).lawful

theorem format_faithful : (format refs0 refs1).Faithful := by
  refine Faithful.field (fun v t t₀ => ?_) fun luma => Faithful.field (fun v t t₀ => ?_) fun chroma => ?_
  · rw [restore]
    split
    · rfl
    split <;> rfl
  · split
    · rfl
    split <;> rfl
  · exact Faithful.ite (fun _ => .refuse) fun _ =>
      Faithful.ite (fun _ => .refuse) fun _ => weights_faithful

theorem restore_format (h : (format refs0 refs1).Writes t bs) (t₀ : WeightTable) :
    (format refs0 refs1).restore t t₀ = t := by
  obtain ⟨_, _, rfl, -, _, _, rfl, -, h⟩ := h
  rw [format, restore, restore]
  dsimp only at h ⊢
  split at h
  · exact h.elim
  split at h
  · exact h.elim
  next hluma hchroma =>
    rw [if_neg hluma, if_neg hchroma]
    rfl

instance : Exact (format refs0 refs1).code :=
  format_faithful.exact format_lawful restore_format

/-- A table that was written is read back as it is, whatever was there before, and one that was read
is written in the same bits. -/
theorem step_decode_encode (refs0 refs1 : Nat) :
    (∀ {t t' : WeightTable} {w : BitWriter},
      (format refs0 refs1).step .encode t {} = (.ok (), t', w) → ∀ start, ∃ r,
        (format refs0 refs1).step .decode start (.ofBytes w.finish) = (.ok (), t, r) ∧
          r.position = w.position ∧ r.hasMore = false) ∧
    ∀ {start t : WeightTable} {data : List UInt8} {r : BitReader},
      (format refs0 refs1).step .decode start (.ofBytes data) = (.ok (), t, r) → ∃ w,
        (format refs0 refs1).step .encode t {} = (.ok (), t, w) ∧
          w.position = r.position ∧ w.bits = (Bits.ofBytes data).take r.position := by
  constructor
  · intro t t' w h start
    exact ⟨_, (read_finish (c := (format refs0 refs1).code) h start).2, rfl,
      BitReader.hasMore_stop _ _⟩
  · intro start t data r h
    exact write_of_read (c := (format refs0 refs1).code) h

theorem step_decode_encode_mixed :
    ∃ (t : WeightTable) (w : BitWriter),
      (format 1 1).step .encode t {} = (.ok (), t, w) ∧
        w.finish = [49, 35, 200, 83, 0, 128, 128, 254, 128] ∧ ∃ r,
      (format 1 1).step .decode {} (.ofBytes w.finish) = (.ok (), t, r) ∧ r.position = 64 ∧
        ∃ w', (format 1 1).step .encode t {} = (.ok (), t, w') ∧ w'.position = r.position := by
  let t : WeightTable :=
    { lumaDenominator := 5
      chromaDenominator := 3
      list0 :=
        [{ lumaExplicit := true, lumaWeight := -7, lumaOffset := 2, cbWeight := 8, crWeight := 8 }]
      list1 :=
        [{ lumaWeight := 32, chromaExplicit := true, cbWeight := 1, cbOffset := -1,
           crWeight := -128, crOffset := 127 }] }
  let w : BitWriter := ((format 1 1).step .encode t {}).2.2
  have hencode : (format 1 1).step .encode t {} = (.ok (), t, w) := by decide +kernel
  have hbytes : w.finish = [49, 35, 200, 83, 0, 128, 128, 254, 128] := by decide +kernel
  have hposition : w.position = 64 := by decide +kernel
  obtain ⟨r, hdecode, hr, -⟩ := (step_decode_encode 1 1).1 hencode {}
  obtain ⟨w', hagain, hw', -⟩ := (step_decode_encode 1 1).2 hdecode
  exact ⟨t, w, hencode, hbytes, r, hdecode, hr.trans hposition, w', hagain, hw'⟩

end WeightTable

end Codeword
