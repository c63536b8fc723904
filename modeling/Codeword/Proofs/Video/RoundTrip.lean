import Codeword.Proofs.Video.SequenceParameters

namespace Codeword.SequenceParameters

open Format

variable {s n : SequenceParameters}

/-- What the encoder writes is decoded to what it was given, up to what is not in the stream. The
reader stops where the writer did, and there is nothing more. -/
theorem decode_encode {bytes : List UInt8} (hexpressible : s.Expressible)
    (h : s.encode = .ok bytes) :
    decode bytes = .ok s.normalized ∧
      (format.step .decode {} (.ofBytes bytes)).2.2.position =
        (format.step .encode s {}).2.2.position ∧
      (format.step .decode {} (.ofBytes bytes)).2.2.hasMore = false := by
  obtain ⟨bs, hwrites, -⟩ := format_lawful.encode_eq_ok.1 h
  exact (restores_normalized hexpressible hwrites).decode format_lawful h

theorem decode_encode_high :
    ∃ s : SequenceParameters, s.CodesMatrix ∧ s.Expressible ∧
      s.encode = .ok [100, 0, 30, 173, 148, 112, 108, 5, 193, 65, 241] ∧
      decode [100, 0, 30, 173, 148, 112, 108, 5, 193, 65, 241] = .ok s.normalized ∧
      s.normalized ≠ s := by
  let s : SequenceParameters :=
    { profileIdc := 100
      levelIdc := 30
      chromaFormatIdc := 1
      scalingMatrixPresent := true
      scaling :=
        { small := (Vector.replicate 6 .zero).set 0
            ⟨true, false, 6 :: List.replicate 15 13, rfl⟩ }
      picOrderCntType := 2
      log2MaxPicOrderCntLsbMinus4 := 4
      frameMbsOnly := true
      picWidthInMbsMinus1 := 19
      picHeightInMapUnitsMinus1 := 14 }
  have hexpressible : s.Expressible := by decide
  have hencode : s.encode = .ok [100, 0, 30, 173, 148, 112, 108, 5, 193, 65, 241] := by cbv
  exact ⟨s, by decide, hexpressible, hencode, (decode_encode hexpressible hencode).1, by decide⟩

/-- What was decoded can be encoded, and is the same again. The bits are the same too, unless there
are scaling lists. -/
theorem encode_decode {data : List UInt8} (h : decode data = .ok s) :
    ∃ bytes, s.encode = .ok bytes ∧ decode bytes = .ok s ∧
      (s.scalingMatrixPresent = false → ∃ n < 8,
        Bits.ofBytes bytes =
          (Bits.ofBytes data).take (format.step .decode {} (.ofBytes data)).2.2.position ++
            true :: List.replicate n false) := by
  obtain ⟨bs, rest, hdata, hreads⟩ := format_lawful.decode_eq_ok.1 h
  obtain ⟨hnormalized, hrange, bs', hwrites, hplain⟩ := reads_format hreads
  have hencode : s.encode = .ok (BitWriter.finish ⟨bs'⟩) :=
    format_lawful.encode_eq_ok.2 ⟨bs', hwrites, rfl⟩
  have hrestores := restores_normalized (fun _ => hrange.expressible _) hwrites
  rw [hnormalized] at hrestores
  refine ⟨_, hencode, (hrestores.decode format_lawful hencode).1, fun hmatrix => ?_⟩
  refine ⟨7 - bs'.length % 8, by omega, ?_⟩
  rw [BitWriter.ofBytes_finish, hplain hmatrix, hreads.step_ofBytes hdata, hdata, List.take_left]

def baseline : SequenceParameters where
  profileIdc := 66
  constraintSet := 192
  levelIdc := 30
  chromaFormatIdc := 1
  picOrderCntType := 2
  maxNumRefFrames := 1
  picWidthInMbsMinus1 := 19
  picHeightInMapUnitsMinus1 := 14
  frameMbsOnly := true
  direct8x8Inference := true

theorem decode_baseline : decode [66, 192, 30, 218, 5, 7, 228] = .ok baseline := by cbv

theorem exists_decode_baseline : ∃ s, decode [66, 192, 30, 218, 5, 7, 228] = .ok s :=
  ⟨baseline, decode_baseline⟩

/-- A byte behind the end of the data is lost. -/
theorem encode_decode_baseline :
    let data : List UInt8 := [66, 192, 30, 218, 5, 7, 228, 170]
    let bytes : List UInt8 := [66, 192, 30, 218, 5, 7, 228]
    decode data = .ok baseline ∧ baseline.encode = .ok bytes ∧ decode bytes = .ok baseline ∧
      ∃ n < 8, Bits.ofBytes bytes = (Bits.ofBytes data).take 53 ++ true :: List.replicate n false := by
  intro data bytes
  have hdecode : decode data = .ok baseline := by cbv
  have hbytes : baseline.encode = .ok bytes := by cbv
  have hposition : (format.step .decode {} (.ofBytes data)).2.2.position = 53 := by cbv
  obtain ⟨written, hencode, hagain, hbits⟩ := encode_decode hdecode
  cases hbytes.symm.trans hencode
  rw [hposition] at hbits
  exact ⟨hdecode, hencode, hagain, hbits rfl⟩

structure Agrees (s n : SequenceParameters) : Prop where
  scalars : { n.normalized with scaling := {} } = { s.normalized with scaling := {} }
  small : s.CodesMatrix → ∀ i : Fin 6, (s.scaling.small.get i).Agrees (n.scaling.small.get i)
  large : s.CodesMatrix → ∀ i ∈ largeLists s.chromaFormatIdc,
    (s.scaling.large.get i).Agrees (n.scaling.large.get i)

theorem normalized_agrees (s : SequenceParameters) : s.Agrees s.normalized where
  scalars := by
    simp only [normalized]
    congr 1 <;> split <;> rfl
  small hcodes i := by
    have hlist : s.normalized.scaling.small.get i = (s.scaling.small.get i).normalized := by
      simp [normalized, hcodes, ScalingMatrix.normalized]
    rw [hlist]
    exact ScalingList.normalized_agrees _
  large hcodes i hi := by
    have hlist : s.normalized.scaling.large.get i = (s.scaling.large.get i).normalized := by
      simp [normalized, hcodes, ScalingMatrix.normalized, hi]
    rw [hlist]
    exact ScalingList.normalized_agrees _

/-- Lists that no stream can hold are not those that are decoded. -/
theorem Agrees.expressible {data : List UInt8} (h : s.Agrees n) (hdata : decode data = .ok n) :
    s.Expressible := by
  obtain ⟨bs, rest, -, hreads⟩ := format_lawful.decode_eq_ok.1 hdata
  obtain ⟨-, hrange, -⟩ := reads_format hreads
  intro hcodes
  constructor
  · intro i
    exact (h.small hcodes i).expressible (hrange.small i)
  · intro i hi
    exact (h.large hcodes i hi).expressible (hrange.large i)

/-- The encoder writes a stream that is decoded to something else exactly where a list has an
entry that is zero or more than a byte. -/
theorem agrees_iff_expressible {bytes : List UInt8} (h : s.encode = .ok bytes) :
    (∃ n, decode bytes = .ok n ∧ s.Agrees n) ↔ s.Expressible := by
  constructor
  · rintro ⟨n, hdecode, hagrees⟩
    exact hagrees.expressible hdecode
  · intro hexpressible
    obtain ⟨bs, hwrites, -⟩ := format_lawful.encode_eq_ok.1 h
    have hrestores := restores_normalized hexpressible hwrites
    exact ⟨_, (hrestores.decode format_lawful h).1, normalized_agrees s⟩

theorem agrees_iff_expressible_wide :
    ∃ (s : SequenceParameters) (bytes : List UInt8), s.encode = .ok bytes ∧ ¬s.Expressible ∧
      ¬∃ n, decode bytes = .ok n ∧ s.Agrees n := by
  let s : SequenceParameters :=
    { profileIdc := 100
      chromaFormatIdc := 1
      scalingMatrixPresent := true
      scaling :=
        { small := (Vector.replicate 6 .zero).set 0
            ⟨true, false, List.replicate 16 300, rfl⟩ } }
  have hencode : s.encode = .ok [100, 0, 0, 173, 129, 32, 11, 32, 61, 130] := by cbv
  have hwide : ¬s.Expressible := by decide
  exact ⟨s, _, hencode, hwide, fun h => hwide ((agrees_iff_expressible hencode).1 h)⟩

/-- An entry of zero ends the list for the reader, but not for the writer. -/
theorem exists_misread :
    ∃ (s : SequenceParameters) (bytes : List UInt8), s.encode = .ok bytes ∧
      ¬∃ n, decode bytes = .ok n ∧ s.Agrees n := by
  let s : SequenceParameters :=
    { profileIdc := 100
      levelIdc := 30
      chromaFormatIdc := 1
      scalingMatrixPresent := true
      scaling :=
        { small := (Vector.replicate 6 .zero).set 0
            ⟨true, false, 16 :: 0 :: List.replicate 14 16, rfl⟩ }
      picOrderCntType := 2
      picWidthInMbsMinus1 := 19
      picHeightInMapUnitsMinus1 := 14
      frameMbsOnly := true }
  have hencode : s.encode = .ok [100, 0, 30, 173, 132, 1, 8, 32, 4, 32, 46, 10, 15, 136] := by cbv
  have hdecode : decode [100, 0, 30, 173, 132, 1, 8, 32, 4, 32, 46, 10, 15, 136] =
      .error .endOfStream := by cbv
  refine ⟨s, _, hencode, ?_⟩
  rintro ⟨n, h, -⟩
  rw [hdecode] at h
  cases h

end Codeword.SequenceParameters
