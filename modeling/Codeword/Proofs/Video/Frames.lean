import Codeword.Proofs.Video.ScalingMatrix

namespace Codeword.SequenceParameters

open Format Code

theorem restore_end (s s₀ : SequenceParameters) (b : Bool) (e : StreamError) :
    (if b then refuse e else done : Format SequenceParameters).restore s s₀ = s₀ := by
  cases b <;> rfl

theorem restore_pictureFormat (s s₀ : SequenceParameters) : pictureFormat.restore s s₀ =
    { s₀ with
      maxNumRefFrames := s.maxNumRefFrames
      gapsInFrameNumAllowed := s.gapsInFrameNumAllowed
      picWidthInMbsMinus1 := s.picWidthInMbsMinus1
      picHeightInMapUnitsMinus1 := s.picHeightInMapUnitsMinus1
      frameMbsOnly := s.frameMbsOnly
      mbAdaptiveFrameField := s.mbAdaptiveFrameField
      direct8x8Inference := s.direct8x8Inference
      frameCropping := s.frameCropping
      cropLeft := s.cropLeft
      cropRight := s.cropRight
      cropTop := s.cropTop
      cropBottom := s.cropBottom
      vuiParametersPresent := s.vuiParametersPresent } := by
  rw [pictureFormat, cropFormat]
  simp only [restore, restore_end]

theorem pictureFormat_faithful : pictureFormat.Faithful := by
  rw [pictureFormat, cropFormat]
  repeat' refine Faithful.field (fun v s s₀ => by simp only [restore, restore_end]) fun _ => ?_
  exact Faithful.ite (fun _ => .refuse) fun _ => .done

theorem restore_cycleFormat (s s₀ : SequenceParameters) :
    (cycleFormat pictureFormat).restore s s₀ =
      if 255 < s.numRefFramesInCycle then
        { s₀ with
          deltaPicOrderAlwaysZero := s.deltaPicOrderAlwaysZero
          offsetForNonRefPic := s.offsetForNonRefPic
          offsetForTopToBottomField := s.offsetForTopToBottomField
          numRefFramesInCycle := s.numRefFramesInCycle }
      else pictureFormat.restore s
        { s₀ with
          deltaPicOrderAlwaysZero := s.deltaPicOrderAlwaysZero
          offsetForNonRefPic := s.offsetForNonRefPic
          offsetForTopToBottomField := s.offsetForTopToBottomField
          numRefFramesInCycle := s.numRefFramesInCycle
          offsetForRefFrame := s.offsetForRefFrame } := by
  rw [cycleFormat]
  simp only [restore]
  split <;> rfl

theorem cycleFormat_faithful : (cycleFormat pictureFormat).Faithful := by
  rw [cycleFormat]
  iterate 3
    refine Faithful.field (fun v s s₀ => ?_) fun _ => ?_
    · simp only [restore]
      split
      · rfl
      · simp only [restore, restore_pictureFormat]
  refine Faithful.field (fun v s s₀ => ?_) fun count => ?_
  · dsimp only
    split
    · rfl
    · simp only [restore, restore_pictureFormat]
  refine Faithful.ite (fun _ => .refuse) fun _ => ?_
  refine Faithful.list (fun _ _ => rfl) (fun _ _ _ => rfl) (fun xs s s₀ => ?_)
    pictureFormat_faithful
  rw [restore_pictureFormat]

def frameFormat : Format SequenceParameters :=
  field ue ⟨log2MaxFrameNumMinus4, fun v s => { s with log2MaxFrameNumMinus4 := v }⟩ fun _ =>
    orderFormat pictureFormat

theorem orderFormat_faithful : (orderFormat pictureFormat).Faithful := by
  refine Faithful.field (fun v s s₀ => ?_) fun type => ?_
  · dsimp only
    split
    · simp only [restore, restore_pictureFormat]
    split
    · rw [restore_cycleFormat]
      split
      · rfl
      · rw [restore_pictureFormat]
    · rw [restore_pictureFormat]
  refine Faithful.ite (fun _ => ?_) fun _ =>
    Faithful.ite (fun _ => ?_) fun _ => pictureFormat_faithful
  · refine Faithful.field (fun v s s₀ => ?_) fun _ => pictureFormat_faithful
    rw [restore_pictureFormat]
  · exact cycleFormat_faithful

theorem restore_orderFormat {s : SequenceParameters}
    (hcount : s.picOrderCntType = 1 → ¬255 < s.numRefFramesInCycle) (s₀ : SequenceParameters) :
    (orderFormat pictureFormat).restore s s₀ = pictureFormat.restore s
      { s₀ with
        picOrderCntType := s.picOrderCntType
        log2MaxPicOrderCntLsbMinus4 :=
          if s.picOrderCntType = 0 then s.log2MaxPicOrderCntLsbMinus4
          else s₀.log2MaxPicOrderCntLsbMinus4
        deltaPicOrderAlwaysZero :=
          if s.picOrderCntType = 1 then s.deltaPicOrderAlwaysZero else s₀.deltaPicOrderAlwaysZero
        offsetForNonRefPic :=
          if s.picOrderCntType = 1 then s.offsetForNonRefPic else s₀.offsetForNonRefPic
        offsetForTopToBottomField :=
          if s.picOrderCntType = 1 then s.offsetForTopToBottomField
          else s₀.offsetForTopToBottomField
        numRefFramesInCycle :=
          if s.picOrderCntType = 1 then s.numRefFramesInCycle else s₀.numRefFramesInCycle
        offsetForRefFrame :=
          if s.picOrderCntType = 1 then s.offsetForRefFrame else s₀.offsetForRefFrame } := by
  rw [orderFormat]
  simp only [restore]
  by_cases hzero : s.picOrderCntType = 0
  · simp [hzero, restore]
  by_cases hone : s.picOrderCntType = 1
  · simp [hone, restore_cycleFormat, hcount hone]
  · simp [hzero, hone]

theorem log2MaxFrameNum_restore (s s₀ : SequenceParameters) :
    ((orderFormat pictureFormat).restore s s₀).log2MaxFrameNumMinus4 =
      s₀.log2MaxFrameNumMinus4 := by
  rw [orderFormat]
  simp only [restore]
  split
  · simp only [restore, restore_pictureFormat]
  split
  · rw [restore_cycleFormat]
    split
    · rfl
    · rw [restore_pictureFormat]
  · rw [restore_pictureFormat]

theorem frameFormat_faithful : frameFormat.Faithful :=
  .field (fun _ s _ => log2MaxFrameNum_restore s _) fun _ => orderFormat_faithful

/-- The parameters `s₀` with what is carried behind the profile's part of `s`. -/
def frames (s s₀ : SequenceParameters) : SequenceParameters :=
  { s with
    profileIdc := s₀.profileIdc
    constraintSet := s₀.constraintSet
    levelIdc := s₀.levelIdc
    id := s₀.id
    chromaFormatIdc := s₀.chromaFormatIdc
    separateColourPlane := s₀.separateColourPlane
    bitDepthLumaMinus8 := s₀.bitDepthLumaMinus8
    bitDepthChromaMinus8 := s₀.bitDepthChromaMinus8
    zeroTransformBypass := s₀.zeroTransformBypass
    scalingMatrixPresent := s₀.scalingMatrixPresent
    scaling := s₀.scaling
    log2MaxPicOrderCntLsbMinus4 :=
      if s.picOrderCntType = 0 then s.log2MaxPicOrderCntLsbMinus4
      else s₀.log2MaxPicOrderCntLsbMinus4
    deltaPicOrderAlwaysZero :=
      if s.picOrderCntType = 1 then s.deltaPicOrderAlwaysZero else s₀.deltaPicOrderAlwaysZero
    offsetForNonRefPic :=
      if s.picOrderCntType = 1 then s.offsetForNonRefPic else s₀.offsetForNonRefPic
    offsetForTopToBottomField :=
      if s.picOrderCntType = 1 then s.offsetForTopToBottomField else s₀.offsetForTopToBottomField
    numRefFramesInCycle :=
      if s.picOrderCntType = 1 then s.numRefFramesInCycle else s₀.numRefFramesInCycle
    offsetForRefFrame :=
      if s.picOrderCntType = 1 then s.offsetForRefFrame else s₀.offsetForRefFrame }

theorem count_le_of_writes {s : SequenceParameters} {bs : List Bool} (h : frameFormat.Writes s bs)
    (hone : s.picOrderCntType = 1) : ¬255 < s.numRefFramesInCycle := by
  obtain ⟨_, _, rfl, -, _, _, rfl, -, h⟩ := h
  simp only [hone] at h
  obtain ⟨_, _, rfl, -, _, _, rfl, -, _, _, rfl, -, _, _, rfl, -, h⟩ := h
  intro hcount
  simp only [hcount, if_true] at h
  exact h

theorem restore_frameFormat {s : SequenceParameters} {bs : List Bool} (h : frameFormat.Writes s bs)
    (s₀ : SequenceParameters) : frameFormat.restore s s₀ = frames s s₀ := by
  rw [frameFormat, restore, restore_orderFormat (count_le_of_writes h), restore_pictureFormat]
  rfl

theorem restores_frameFormat (s s₀ : SequenceParameters) :
    frameFormat.Restores s s₀ (frames s s₀) := by
  intro bs h
  rw [← restore_frameFormat h s₀]
  exact frameFormat_faithful.restores s s₀ bs h

theorem reads_frameFormat {s s₀ : SequenceParameters} {bs : List Bool}
    (h : frameFormat.Reads s₀ bs s) : frameFormat.Writes s bs ∧ frames s s₀ = s := by
  obtain ⟨hwrites, hrestore⟩ := frameFormat_faithful.writes h
  rw [restore_frameFormat hwrites] at hrestore
  exact ⟨hwrites, hrestore⟩

end Codeword.SequenceParameters
