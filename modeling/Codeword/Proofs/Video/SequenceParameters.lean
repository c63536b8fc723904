import Codeword.Proofs.Video.Fields
import Codeword.Proofs.Video.Frames

namespace Codeword.SequenceParameters

open Format Code

variable {s s₀ n : SequenceParameters} {bs : List Bool}

def CodesMatrix (s : SequenceParameters) : Prop :=
  ProfileFamily.ofIdc? s.profileIdc = some .high ∧ s.scalingMatrixPresent = true

instance (s : SequenceParameters) : Decidable s.CodesMatrix :=
  inferInstanceAs (Decidable (_ ∧ _))

/-- The parameters as a stream gives them back: what it does not carry is as in the default
ones. -/
def normalized (s : SequenceParameters) : SequenceParameters :=
  { s with
    scaling := if s.CodesMatrix then s.scaling.normalized s.chromaFormatIdc else {}
    log2MaxPicOrderCntLsbMinus4 :=
      if s.picOrderCntType = 0 then s.log2MaxPicOrderCntLsbMinus4 else 0
    deltaPicOrderAlwaysZero := if s.picOrderCntType = 1 then s.deltaPicOrderAlwaysZero else false
    offsetForNonRefPic := if s.picOrderCntType = 1 then s.offsetForNonRefPic else 0
    offsetForTopToBottomField := if s.picOrderCntType = 1 then s.offsetForTopToBottomField else 0
    numRefFramesInCycle := if s.picOrderCntType = 1 then s.numRefFramesInCycle else 0
    offsetForRefFrame := if s.picOrderCntType = 1 then s.offsetForRefFrame else [] }

def Expressible (s : SequenceParameters) : Prop :=
  s.CodesMatrix → s.scaling.Expressible s.chromaFormatIdc

instance (s : SequenceParameters) : Decidable s.Expressible :=
  inferInstanceAs (Decidable (_ → _))

def profile (s s₀ : SequenceParameters) : SequenceParameters :=
  { s₀ with
    chromaFormatIdc := s.chromaFormatIdc
    separateColourPlane := s.separateColourPlane
    bitDepthLumaMinus8 := s.bitDepthLumaMinus8
    bitDepthChromaMinus8 := s.bitDepthChromaMinus8
    zeroTransformBypass := s.zeroTransformBypass
    scalingMatrixPresent := s.scalingMatrixPresent
    scaling := s.scaling }

def rescaled (s : SequenceParameters) : SequenceParameters :=
  { s with
    scaling := if s.scalingMatrixPresent then s.scaling.normalized s.chromaFormatIdc else {} }

def header (s : SequenceParameters) : SequenceParameters :=
  { profileIdc := s.profileIdc
    constraintSet := s.constraintSet
    levelIdc := s.levelIdc
    id := s.id }

section Profile

variable {family : ProfileFamily} {next : Format SequenceParameters}

theorem restores_profileFormat (hdefault : s₀.scaling = {})
    (hexpressible : s.scalingMatrixPresent = true → s.scaling.Expressible s.chromaFormatIdc)
    (h : next.Restores s (profile s.rescaled s₀) n) :
    (profileFormat family next).Restores s s₀ n := by
  rw [profileFormat]
  iterate 6 apply Restores.field
  cases hmatrix : s.scalingMatrixPresent with
  | false =>
      simpa [profile, rescaled, hmatrix, ← hdefault] using h
  | true =>
      simp only [hmatrix]
      refine restores_scalingLists hdefault (hexpressible hmatrix) ?_
      simpa [profile, rescaled, hmatrix] using h

theorem reads_profileFormat (hdefault : s₀.scaling = {})
    (h : (profileFormat family next).Reads s₀ bs s) :
    ∃ c b₁ b₂, bs = b₁ ++ b₂ ∧ next.Reads (profile c s₀) b₂ s ∧
      c.scaling = (if c.scalingMatrixPresent then c.scaling.normalized c.chromaFormatIdc else {}) ∧
      c.scaling.InRange ∧
      ∀ d b, next.Writes (profile c d) b →
        ∃ bs', (profileFormat family next).Writes (profile c d) bs' ∧
          (c.scalingMatrixPresent = false → bs' = b₁ ++ b) := by
  obtain ⟨chroma, b₁, _, rfl, hchroma, plane, b₂, _, rfl, hplane, luma, b₃, _, rfl, hluma,
    depth, b₄, _, rfl, hdepth, bypass, b₅, _, rfl, hbypass, matrix, b₆, bs, rfl, hmatrix, h⟩ := h
  have hwrites {c d : SequenceParameters} {b : List Bool} (hc : c = { c with
      chromaFormatIdc := chroma, separateColourPlane := plane, bitDepthLumaMinus8 := luma,
      bitDepthChromaMinus8 := depth, zeroTransformBypass := bypass,
      scalingMatrixPresent := matrix })
      (h : (if matrix then scalingLists chroma next else next).Writes (profile c d) b) :
      (profileFormat family next).Writes (profile c d)
        (b₁ ++ (b₂ ++ (b₃ ++ (b₄ ++ (b₅ ++ (b₆ ++ b)))))) := by
    rw [hc] at h ⊢
    exact ⟨b₁, _, rfl, hchroma.writes, b₂, _, rfl, hplane.writes, b₃, _, rfl, hluma.writes, b₄, _,
      rfl, hdepth.writes, b₅, _, rfl, hbypass.writes, b₆, b, rfl, hmatrix.writes, h⟩
  cases matrix with
  | false =>
      refine ⟨{ s₀ with
        chromaFormatIdc := chroma, separateColourPlane := plane, bitDepthLumaMinus8 := luma,
        bitDepthChromaMinus8 := depth, zeroTransformBypass := bypass,
        scalingMatrixPresent := false }, b₁ ++ (b₂ ++ (b₃ ++ (b₄ ++ (b₅ ++ b₆)))), bs, by simp, h,
        hdefault, ?_, fun d b hb => ⟨_, hwrites rfl hb, fun _ => by simp⟩⟩
      rw [hdefault]
      exact ScalingMatrix.inRange_default
  | true =>
      change (scalingLists chroma next).Reads _ bs s at h
      obtain ⟨scaling, b₇, bs, rfl, h, hnormalized, hrange⟩ := reads_scalingLists h hdefault
      refine ⟨{ s₀ with
        chromaFormatIdc := chroma, separateColourPlane := plane, bitDepthLumaMinus8 := luma,
        bitDepthChromaMinus8 := depth, zeroTransformBypass := bypass,
        scalingMatrixPresent := true, scaling },
        b₁ ++ (b₂ ++ (b₃ ++ (b₄ ++ (b₅ ++ (b₆ ++ b₇))))), bs, by simp, h, hnormalized.symm, hrange,
        fun d b hb => ?_⟩
      obtain ⟨bs', hlists⟩ := exists_writes_scalingLists chroma hb
      exact ⟨_, hwrites rfl hlists, fun hmatrix => by simp at hmatrix⟩

end Profile

theorem format_lawful : format.Lawful :=
  (format_every lawful_elementary fun _ => inferInstance).lawful

theorem codesMatrix_of_writes (h : format.Writes s bs) (hmatrix : s.scalingMatrixPresent = true) :
    s.CodesMatrix := by
  refine ⟨?_, hmatrix⟩
  obtain ⟨_, _, rfl, -, _, _, rfl, -, _, _, rfl, -, _, _, rfl, -, h⟩ := h
  dsimp only at h
  cases hfamily : ProfileFamily.ofIdc? s.profileIdc with
  | none =>
      rw [hfamily] at h
      exact h.elim
  | some family =>
      rw [hfamily] at h
      cases family with
      | high => rfl
      | basic =>
          obtain ⟨_, _, rfl, -, _, _, rfl, -, _, _, rfl, -, _, _, rfl, -, _, _, rfl, -, _, _, rfl,
            hflag, -⟩ := h
          have hfalse : s.scalingMatrixPresent = false := (writes_infer.1 hflag).1
          rw [hmatrix] at hfalse
          cases hfalse

theorem restores_format (hexpressible : s.scalingMatrixPresent = true →
    s.scaling.Expressible s.chromaFormatIdc) :
    format.Restores s {} (frames s (profile s.rescaled s.header)) := by
  iterate 4 apply Restores.field
  dsimp only
  split
  · exact fun _ h => h.elim
  · exact restores_profileFormat rfl hexpressible (restores_frameFormat _ _)

theorem normalized_eq (h : s.scalingMatrixPresent = true → s.CodesMatrix) :
    s.normalized = frames s (profile s.rescaled s.header) := by
  have hcodes : s.CodesMatrix ↔ s.scalingMatrixPresent = true := ⟨fun hs => hs.2, h⟩
  simp only [normalized, frames, profile, rescaled, header, hcodes]

theorem frames_frames (c s₀ s₁ : SequenceParameters) :
    frames (frames c s₀) s₁ = frames c s₁ := by
  simp only [frames]
  congr 1 <;> split <;> rfl

theorem reads_format (h : format.Reads {} bs s) :
    s.normalized = s ∧ s.scaling.InRange ∧
      ∃ bs', format.Writes s bs' ∧ (s.scalingMatrixPresent = false → bs' = bs) := by
  obtain ⟨profileIdc, b₁, _, rfl, hprofile, constraintSet, b₂, _, rfl, hconstraint, levelIdc, b₃, _,
    rfl, hlevel, id, b₄, bs, rfl, hid, h⟩ := h
  dsimp only at h
  cases hfamily : ProfileFamily.ofIdc? profileIdc with
  | none =>
      rw [hfamily] at h
      exact h.elim
  | some family =>
      rw [hfamily] at h
      obtain ⟨c, b₅, b₆, rfl, hframes, hscaling, hrange, hprofileWrites⟩ :=
        reads_profileFormat rfl h
      obtain ⟨hwrites, hs⟩ := reads_frameFormat hframes
      obtain ⟨d, rfl⟩ : ∃ d, s = frames d (profile c _) := ⟨s, hs.symm⟩
      obtain ⟨bs', hrest, hplain⟩ :=
        hprofileWrites (frames d { profileIdc, constraintSet, levelIdc, id }) b₆ hwrites
      have hformat : format.Writes
          (frames d (profile c { profileIdc, constraintSet, levelIdc, id }))
          (b₁ ++ (b₂ ++ (b₃ ++ (b₄ ++ bs')))) := by
        refine ⟨b₁, _, rfl, hprofile.writes, b₂, _, rfl, hconstraint.writes, b₃, _, rfl,
          hlevel.writes, b₄, bs', rfl, hid.writes, ?_⟩
        dsimp only [frames, profile]
        rw [hfamily]
        exact hrest
      refine ⟨?_, hrange, _, hformat, fun hmatrix => ?_⟩
      · rw [normalized_eq (codesMatrix_of_writes hformat), frames_frames]
        exact congrArg (fun scaling => frames d (profile { c with scaling }
          { profileIdc, constraintSet, levelIdc, id })) hscaling.symm
      · rw [hplain hmatrix]

theorem restores_normalized (hexpressible : s.Expressible) (h : format.Writes s bs) :
    format.Restores s {} s.normalized := by
  have hcodes := codesMatrix_of_writes h
  rw [normalized_eq hcodes]
  exact restores_format fun hmatrix => hexpressible (hcodes hmatrix)

end Codeword.SequenceParameters
