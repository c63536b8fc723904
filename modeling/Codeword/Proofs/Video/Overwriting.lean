import Codeword.Proofs.Bitstream.Overwriting
import Codeword.Proofs.Video.RoundTrip
import Codeword.Proofs.Video.WeightTable

namespace Codeword

open Code

namespace ScalingList

variable {n : Nat}

/-- The list if it is there; if not, only that it is not is known. -/
def onto (l old : ScalingList n) : ScalingList n :=
  if l.present then l else { old with present := false }

theorem onto_of_present {l old : ScalingList n} (h : l.present = true) : l.onto old = l := if_pos h

theorem alike_readEntries (last : UInt32) {xs ys : List UInt32} (h : xs.length = ys.length) :
    Alike (readEntries last) xs ys Eq := by
  induction xs generalizing last ys with
  | nil =>
      intro r
      rw [List.length_eq_zero_iff.1 h.symm]
      exact ⟨rfl, rfl, fun _ => rfl⟩
  | cons x xs ih =>
      cases ys with
      | nil => simp at h
      | cons y ys =>
          have hlength : xs.length = ys.length := Nat.succ.inj h
          intro r
          cases hse : r.se with
          | mk d r₁ =>
              cases d with
              | error e =>
                  simp only [readEntries, hse]
                  exact ⟨trivial, trivial, fun hok => by cases hok⟩
              | ok d =>
                  by_cases hzero : next last d = 0
                  · simp only [readEntries, hse, hzero, if_true, hlength]
                    exact ⟨trivial, trivial, fun _ => trivial⟩
                  · obtain ⟨hresult, hreader, htail⟩ := ih (next last d) hlength r₁
                    simp only [readEntries, hse, hzero, if_false]
                    exact ⟨hresult, hreader, fun hok => congrArg (_ :: ·) (htail hok)⟩

theorem alike_read (hn : 0 < n) {l l' : ScalingList n} (h : l.present = l'.present) :
    Alike read l l' fun m m' => m' = m ∧ m.present = l.present := by
  obtain ⟨present, useDefault, entries, hlength⟩ := l
  obtain ⟨present', useDefault', entries', hlength'⟩ := l'
  change present = present' at h
  subst h
  cases entries with
  | nil => exact absurd hlength (Nat.ne_of_lt hn)
  | cons x xs =>
      cases entries' with
      | nil => exact absurd hlength' (Nat.ne_of_lt hn)
      | cons y ys =>
          have hsame : xs.length = ys.length := Nat.succ.inj (hlength.trans hlength'.symm)
          intro r
          cases hse : r.se with
          | mk d r₁ =>
              cases d with
              | error e =>
                  simp only [read, hse]
                  exact ⟨trivial, trivial, fun hok => by cases hok⟩
              | ok d =>
                  by_cases hzero : next 8 d = 0
                  · simp only [read, hse, hzero, if_true]
                    exact ⟨trivial, trivial, fun _ => ⟨trivial, rfl⟩⟩
                  · obtain ⟨hresult, hreader, htail⟩ := alike_readEntries (next 8 d) hsame r₁
                    simp only [read, hse, hzero, if_false]
                    refine ⟨hresult, hreader, fun hok => ⟨?_, trivial⟩⟩
                    simp only [htail hok]

end ScalingList

namespace ScalingMatrix

def onto (chromaFormatIdc : UInt32) (m old : ScalingMatrix) : ScalingMatrix where
  small := .ofFn fun i => (m.small.get i).onto (old.small.get i)
  large := .ofFn fun i =>
    if i.val < 2 ∨ chromaFormatIdc = 3 then (m.large.get i).onto (old.large.get i)
    else old.large.get i

theorem mem_largeLists {chroma : UInt32} {i : Fin 6} :
    i ∈ SequenceParameters.largeLists chroma ↔ i.val < 2 ∨ chroma = 3 := by
  rw [SequenceParameters.largeLists]
  split
  next hfull => simp [hfull]
  next hpart =>
    have hfirst : ∀ i : Fin 6, i ∈ [(0 : Fin 6), 1] ↔ i.val < 2 := by decide
    rw [hfirst, or_iff_left hpart]

theorem eq_onto {chroma : UInt32} {m n old : ScalingMatrix}
    (hsmall : ∀ i, n.small.get i = (m.small.get i).onto (old.small.get i))
    (hlarge : ∀ i ∈ SequenceParameters.largeLists chroma,
      n.large.get i = (m.large.get i).onto (old.large.get i))
    (hrest : ∀ i ∉ SequenceParameters.largeLists chroma, n.large.get i = old.large.get i) :
    n = m.onto chroma old := by
  have hn : n.small = (m.onto chroma old).small := by
    ext i hi
    simpa [onto, Vector.get_eq_getElem] using hsmall ⟨i, hi⟩
  have hn' : n.large = (m.onto chroma old).large := by
    ext i hi
    simp only [onto, Vector.getElem_ofFn]
    split
    next hmem => exact hlarge ⟨i, hi⟩ (mem_largeLists.2 hmem)
    next hmem => exact hrest ⟨i, hi⟩ (mt mem_largeLists.1 hmem)
  exact (mk.injEq _ _ _ _).mpr ⟨hn, hn'⟩

end ScalingMatrix

namespace SequenceParameters

open Format ScalingList

variable {s s' : SequenceParameters} {R : SequenceParameters → SequenceParameters → Prop}
  {next : Format SequenceParameters}

theorem alike_optionalList {n : Nat} {place : Place SequenceParameters (ScalingList n)}
    (hplace : place.Lawful) (hn : 0 < n)
    (h : ∀ l : ScalingList n, l = l.onto (place.get s) →
      Alike (next.step .decode) (place.set l s) (place.set (l.onto (place.get s')) s') R) :
    Alike ((optionalList place next).step .decode) s s' R := by
  refine alike_field fun there => ?_
  cases there with
  | false => exact h { place.get s with present := false } rfl
  | true =>
      have hpresent : (place.get ((place.comp present).set true s)).present =
          (place.get ((place.comp present).set true s')).present := by
        simp only [Place.comp, hplace.get_set, present]
      refine alike_field_of (alike_read hn hpresent) (fun _ _ _ => rfl) ?_
      rintro _ l ⟨rfl, hl⟩
      simp only [Place.comp, hplace.get_set, hplace.set_set, present] at hl ⊢
      have hnext := h l (onto_of_present hl).symm
      rw [onto_of_present hl] at hnext
      exact hnext

theorem alike_entries {n k : Nat} {p : Place SequenceParameters (Vector (ScalingList n) k)}
    {is : List (Fin k)} (hp : p.Lawful) (hn : 0 < n) (hnodup : is.Nodup)
    (h : ∀ v w : Vector (ScalingList n) k,
      (∀ i ∈ is, v.get i = (v.get i).onto ((p.get s).get i) ∧
        w.get i = (v.get i).onto ((p.get s').get i)) →
      (∀ i ∉ is, v.get i = (p.get s).get i ∧ w.get i = (p.get s').get i) →
      Alike (next.step .decode) (p.set v s) (p.set w s') R) :
    Alike ((entries p is next).step .decode) s s' R := by
  induction is generalizing s s' with
  | nil =>
      have hnext := h (p.get s) (p.get s') (fun _ hi => absurd hi List.not_mem_nil)
        fun _ _ => ⟨rfl, rfl⟩
      rw [hp.set_get, hp.set_get] at hnext
      exact hnext
  | cons i is ih =>
      obtain ⟨hi, hnodup⟩ := List.nodup_cons.1 hnodup
      refine alike_optionalList (entry_lawful hp i) hn fun l hl => ih hnodup fun v w hmem hrest => ?_
      simp only [entry, hp.get_set, hp.set_set] at hmem hrest hl ⊢
      refine h v w (fun j hj => ?_) fun j hj => ?_
      · rcases List.mem_cons.1 hj with rfl | hj
        · obtain ⟨hv, hw⟩ := hrest j hi
          rw [get_set_self] at hv hw
          rw [hv, hw]
          exact ⟨hl, rfl⟩
        · have hne : j ≠ i := fun h => hi (h ▸ hj)
          have hentry := hmem j hj
          rwa [get_set_of_ne _ hne, get_set_of_ne _ hne] at hentry
      · obtain ⟨hne, hj⟩ := List.ne_and_not_mem_of_not_mem_cons hj
        have hentry := hrest j hj
        rwa [get_set_of_ne _ hne, get_set_of_ne _ hne] at hentry

theorem alike_scalingLists {chroma : UInt32}
    (h : ∀ m : ScalingMatrix, m = m.onto chroma s.scaling →
      Alike (next.step .decode) { s with scaling := m }
        { s' with scaling := m.onto chroma s'.scaling } R) :
    Alike ((scalingLists chroma next).step .decode) s s' R := by
  rw [scalingLists_eq]
  refine alike_entries small_lawful (by decide) (List.nodup_finRange 6) fun v w hsmall _ => ?_
  refine alike_entries large_lawful (by decide) (nodup_largeLists chroma) fun v' w' hlarge hrest => ?_
  have hm : (⟨v, v'⟩ : ScalingMatrix) = .onto chroma ⟨v, v'⟩ s.scaling :=
    ScalingMatrix.eq_onto (fun i => (hsmall i (List.mem_finRange i)).1)
      (fun i hi => (hlarge i hi).1) fun i hi => (hrest i hi).1
  have honto : (⟨w, w'⟩ : ScalingMatrix) = .onto chroma ⟨v, v'⟩ s'.scaling :=
    ScalingMatrix.eq_onto (fun i => (hsmall i (List.mem_finRange i)).2)
      (fun i hi => (hlarge i hi).2) fun i hi => (hrest i hi).2
  have hnext := h ⟨v, v'⟩ hm
  rw [← honto] at hnext
  exact hnext

/-- The parameters `s` where a stream carries or infers them, and `old` where it does not. -/
def onto (s old : SequenceParameters) : SequenceParameters :=
  { s with
    scaling :=
      if s.CodesMatrix then s.scaling.onto s.chromaFormatIdc old.scaling else old.scaling
    log2MaxPicOrderCntLsbMinus4 :=
      if s.picOrderCntType = 0 then s.log2MaxPicOrderCntLsbMinus4
      else old.log2MaxPicOrderCntLsbMinus4
    deltaPicOrderAlwaysZero :=
      if s.picOrderCntType = 1 then s.deltaPicOrderAlwaysZero else old.deltaPicOrderAlwaysZero
    offsetForNonRefPic :=
      if s.picOrderCntType = 1 then s.offsetForNonRefPic else old.offsetForNonRefPic
    offsetForTopToBottomField :=
      if s.picOrderCntType = 1 then s.offsetForTopToBottomField else old.offsetForTopToBottomField
    numRefFramesInCycle :=
      if s.picOrderCntType = 1 then s.numRefFramesInCycle else old.numRefFramesInCycle
    offsetForRefFrame :=
      if s.picOrderCntType = 1 then s.offsetForRefFrame else old.offsetForRefFrame }

theorem alike_pictureFormat
    (h : ∀ c, R (pictureFormat.restore c s) (pictureFormat.restore c s')) :
    Alike (pictureFormat.step .decode) s s' R := by
  have hend (n n' : SequenceParameters) (hn : n = pictureFormat.restore n s)
      (hn' : n' = pictureFormat.restore n s') : R n n' := by
    have hR := h n
    rwa [← hn, ← hn'] at hR
  simp only [restore_pictureFormat] at hend
  rw [pictureFormat, cropFormat]
  iterate 13 refine alike_field fun _ => ?_
  split
  · exact alike_refuse
  · exact alike_done (hend _ _ rfl rfl)

theorem alike_frames (s s' : SequenceParameters) :
    Alike (frameFormat.step .decode) s s' fun n n' => n = frames n s ∧ n' = frames n s' := by
  refine alike_field fun _ => alike_field fun type => ?_
  split
  next hzero =>
    refine alike_field fun _ => alike_pictureFormat fun c => ?_
    simp [restore_pictureFormat, frames, hzero]
  split
  next hone =>
    iterate 4 refine alike_field fun _ => ?_
    split
    · exact alike_refuse
    refine alike_field_of (alike_sized _ _ _) (fun _ _ _ => rfl) fun xs ys hlength => ?_
    refine alike_field_of (alike_each (hlength.1.trans hlength.2.symm)) (fun _ _ _ => rfl) ?_
    rintro offsets _ rfl
    refine alike_pictureFormat fun c => ?_
    simp [restore_pictureFormat, frames, hone]
  next hzero hone =>
    refine alike_pictureFormat fun c => ?_
    simp [restore_pictureFormat, frames, hzero, hone]

theorem frames_onto (c s old : SequenceParameters) :
    (frames c s).onto old = frames c
      { profile s old with
        profileIdc := s.profileIdc
        constraintSet := s.constraintSet
        levelIdc := s.levelIdc
        id := s.id
        scaling :=
          if s.CodesMatrix then s.scaling.onto s.chromaFormatIdc old.scaling else old.scaling } := by
  simp only [onto, frames, profile, CodesMatrix]
  congr 1 <;> split <;> rfl

theorem alike_frameFormat {s₀ s₁ : SequenceParameters}
    (h : ∀ c, frames c s = (frames c s).onto s₀ ∧ frames c s' = (frames c s).onto s₁) :
    Alike (frameFormat.step .decode) s s' fun n n' => n = n.onto s₀ ∧ n' = n.onto s₁ := by
  refine (alike_frames s s').mono fun n n' hframes => ?_
  obtain ⟨c, rfl, rfl⟩ : ∃ c, n = frames c s ∧ n' = frames c s' := ⟨n, hframes⟩
  exact h c

theorem alike_format (s₀ s₁ : SequenceParameters) :
    Alike (format.step .decode) s₀ s₁ fun s s' => s = s.onto s₀ ∧ s' = s.onto s₁ := by
  iterate 4 refine alike_field fun _ => ?_
  split
  · exact alike_refuse
  next family hfamily =>
  iterate 5 refine alike_field fun _ => ?_
  cases family with
  | basic =>
      refine alike_field_of alike_infer (fun v v' h => by rw [h.1, h.2]) ?_
      rintro _ _ ⟨rfl, rfl⟩
      exact alike_frameFormat fun c => by simp [frames_onto, profile, CodesMatrix]
  | high =>
      refine alike_field fun matrix => ?_
      cases matrix with
      | false => exact alike_frameFormat fun c => by simp [frames_onto, profile, CodesMatrix]
      | true =>
          refine alike_scalingLists fun m hm => alike_frameFormat fun c => ?_
          simp [frames_onto, profile, CodesMatrix, hfamily, ← hm]

end SequenceParameters

open Format

instance (luma chroma : Int32) : Overwrites (Weight.format luma chroma).code where
  alike _ _ := by
    iterate 8 refine alike_field fun _ => ?_
    exact alike_done rfl

namespace WeightTable

variable {luma chroma : UInt32} {t t' : WeightTable}

/-- The lists have the same length in both runs before the first weight is read, so there is
nothing that one run would reach and the other would not. -/
theorem alike_weights (refs0 refs1 : Nat) (hluma : t.lumaDenominator = t'.lumaDenominator)
    (hchroma : t.chromaDenominator = t'.chromaDenominator) :
    Alike ((weights refs0 refs1 luma chroma).step .decode) t t' Eq := by
  refine alike_field_of (alike_sized _ _ _) (fun _ _ _ => rfl) fun xs xs' hlist0 => ?_
  refine alike_field_of (alike_sized _ _ _) (fun _ _ _ => rfl) fun ys ys' hlist1 => ?_
  refine alike_field_of (alike_each (hlist0.1.trans hlist0.2.symm)) (fun _ _ _ => rfl) ?_
  rintro list0 _ rfl
  refine alike_field_of (alike_each (hlist1.1.trans hlist1.2.symm)) (fun _ _ _ => rfl) ?_
  rintro list1 _ rfl
  exact alike_done (by simp [list0Place, list1Place, hluma, hchroma])

theorem alike_format (refs0 refs1 : Nat) (t t' : WeightTable) :
    Alike ((format refs0 refs1).step .decode) t t' Eq := by
  refine alike_field fun luma => alike_field fun chroma => ?_
  split
  · exact alike_refuse
  split
  · exact alike_refuse
  · exact alike_weights refs0 refs1 rfl rfl

end WeightTable

/-- Whatever was there before, decoding ends in the same way at the same bit. Of parameters the
fields that a stream does not carry stay as they were, of a table nothing does. -/
theorem decode_overwrites :
    (∀ s₀ s₁ : SequenceParameters, Alike (SequenceParameters.format.step .decode) s₀ s₁
      fun s s' => s = s.onto s₀ ∧ s' = s.onto s₁) ∧
    ∀ (refs0 refs1 : Nat) (t₀ t₁ : WeightTable),
      Alike ((WeightTable.format refs0 refs1).step .decode) t₀ t₁ Eq :=
  ⟨SequenceParameters.alike_format, WeightTable.alike_format⟩

theorem decode_overwrites_baseline :
    ∃ stale : SequenceParameters,
      stale.picWidthInMbsMinus1 = 7 ∧ stale.log2MaxPicOrderCntLsbMinus4 = 4 ∧
      ∃ s r, SequenceParameters.format.step .decode stale
          (.ofBytes [66, 192, 30, 218, 5, 7, 228]) = (.ok (), s, r) ∧
        s.picWidthInMbsMinus1 = 19 ∧ s.log2MaxPicOrderCntLsbMinus4 = 4 := by
  let stale : SequenceParameters :=
    { picWidthInMbsMinus1 := 7
      log2MaxPicOrderCntLsbMinus4 := 4 }
  obtain ⟨bs, rest, hdata, hreads⟩ :=
    SequenceParameters.format_lawful.decode_eq_ok.1 SequenceParameters.decode_baseline
  have hfresh := hreads.step_ofBytes hdata
  rcases (decode_overwrites.1 {} stale).cases _ with
    ⟨e, _, _, _, h, -⟩ | ⟨s', n, r, h, hstale, -, hn⟩
  · rw [hfresh] at h
    cases h
  · rw [hfresh] at h
    cases h
    exact ⟨stale, rfl, rfl, n, _, hstale, by rw [hn]; rfl, by rw [hn]; rfl⟩

end Codeword
