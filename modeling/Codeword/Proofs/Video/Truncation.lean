import Codeword.Proofs.Bitstream.Truncation
import Codeword.Proofs.Video.RoundTrip

namespace Codeword

open Code

namespace ScalingList

theorem readEntries_stable (last : UInt32) : StableStep (readEntries last) := by
  intro xs
  induction xs generalizing last with
  | nil =>
      intro ys result r r' h _ more
      cases h
      rfl
  | cons x xs ih =>
      intro ys result r r' h hresult more
      cases hse : r.se with
      | mk d r₁ =>
          cases d with
          | error e =>
              simp only [readEntries, hse] at h
              cases h
              have he : e ≠ .endOfStream := fun he => hresult (congrArg _ he)
              simp only [readEntries, BitReader.se_stable.append_of_error hse he more]
          | ok d =>
              have hmore := BitReader.se_stable.append_of_ok hse more
              by_cases hzero : next last d = 0
              · simp only [readEntries, hse, hzero, if_true] at h
                cases h
                simp only [readEntries, hmore, hzero, if_true]
              · cases htail : readEntries (next last d) xs r₁ with
                | mk result' p =>
                    simp only [readEntries, hse, hzero, if_false, htail] at h
                    cases h
                    simp only [readEntries, hmore, hzero, if_false, ih _ htail hresult more]

instance {n : Nat} : Stable (code : Code (ScalingList n)) where
  read_append := by
    intro l l' result r r' h hresult more
    obtain ⟨present, useDefault, entries, hlength⟩ := l
    change read _ r = _ at h
    change read _ (r.append more) = _
    cases entries with
    | nil =>
        cases h
        rfl
    | cons x xs =>
        cases hse : r.se with
        | mk d r₁ =>
            cases d with
            | error e =>
                simp only [read, hse] at h
                cases h
                have he : e ≠ .endOfStream := fun he => hresult (congrArg _ he)
                simp only [read, BitReader.se_stable.append_of_error hse he more]
            | ok d =>
                have hmore := BitReader.se_stable.append_of_ok hse more
                by_cases hzero : next 8 d = 0
                · simp only [read, hse, hzero, if_true] at h
                  cases h
                  simp only [read, hmore, hzero, if_true]
                · cases htail : readEntries (next 8 d) xs r₁ with
                  | mk result' p =>
                      simp only [read, hse, hzero, if_false, htail] at h
                      cases h
                      have htail' := readEntries_stable _ htail hresult more
                      simp only [read, hmore, hzero, if_false, htail']

end ScalingList

namespace SequenceParameters

open Format

theorem format_stable : format.Stable :=
  (format_every stable_elementary fun _ => inferInstance).stable

/-- The reader looks at no bits behind those that it takes. Cut off inside of them the data has
ended too early, and nothing else is ever said of it. -/
theorem decode_take_append (data : List UInt8) :
    (∀ s, decode data = .ok s → ∀ n, decode (data.take n) =
      if (format.step .decode {} (.ofBytes data)).2.2.position ≤ 8 * n then .ok s
      else .error .endOfStream) ∧
    (decode data ≠ .error .endOfStream → ∀ more, decode (data ++ more) = decode data) :=
  ⟨fun _ h => format_stable.decode_take format_lawful h, fun h => format_stable.decode_append h⟩

theorem decode_take_append_baseline :
    ∃ s, decode [66, 192, 30, 218, 5, 7, 228] = .ok s ∧
      decode [66, 192, 30, 218, 5, 7] = .error .endOfStream ∧
      decode [66, 192, 30, 218, 5, 7, 228, 0, 255] = .ok s ∧
      decode [66, 192, 30, 218, 5, 7, 236, 0, 255] = .error .vuiParameters := by
  obtain ⟨s, hdecode⟩ := exists_decode_baseline
  have hrefused : decode [66, 192, 30, 218, 5, 7, 236] = .error .vuiParameters := by cbv
  have hposition :
      (format.step .decode {} (.ofBytes [66, 192, 30, 218, 5, 7, 228])).2.2.position = 53 := by
    decide +kernel
  have htake := (decode_take_append _).1 _ hdecode 6
  rw [hposition] at htake
  have happend := (decode_take_append [66, 192, 30, 218, 5, 7, 228]).2 (by simp [hdecode]) [0, 255]
  have hstill := (decode_take_append [66, 192, 30, 218, 5, 7, 236]).2
    (by rw [hrefused]; decide) [0, 255]
  exact ⟨s, hdecode, htake, happend.trans hdecode, hstill.trans hrefused⟩

end SequenceParameters

end Codeword
