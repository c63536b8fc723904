import Codeword.Proofs.Bitstream.Fields

namespace Codeword

variable {α : Type}

namespace BitReader

variable {r : BitReader} {more : List Bool} {n : Nat}

def append (r : BitReader) (more : List Bool) : BitReader := ⟨r.position, r.rest ++ more⟩

theorem skip_append (h : n ≤ r.rest.length) : (r.append more).skip n = (r.skip n).append more := by
  rw [skip, append, List.drop_append_of_le_length h]
  rfl

/-- Unless the reader runs out of bits, more of them make no difference to it. -/
def Stable (read : BitReader → Result α) : Prop :=
  ∀ {result r r'}, read r = (result, r') → result ≠ .error .endOfStream →
    ∀ more, read (r.append more) = (result, r'.append more)

theorem Stable.append_of_ok {read : BitReader → Result α} (h : Stable read) {v : α}
    {r' : BitReader} (hread : read r = (.ok v, r')) (more : List Bool) :
    read (r.append more) = (.ok v, r'.append more) :=
  h hread (by simp) more

theorem Stable.append_of_error {read : BitReader → Result α} (h : Stable read) {e : StreamError}
    {r' : BitReader} (hread : read r = (.error e, r')) (he : e ≠ .endOfStream)
    (more : List Bool) : read (r.append more) = (.error e, r'.append more) :=
  h hread (mt Except.error.inj he) more

theorem u_stable (n : Nat) : Stable (·.u n) := by
  intro result r r' h hresult more
  simp only [u] at h ⊢
  by_cases hwide : 32 < n
  · rw [if_pos hwide] at h ⊢
    cases h
    rfl
  · rw [if_neg hwide] at h ⊢
    by_cases hshort : r.rest.length < n
    · rw [if_pos hshort] at h
      cases h
      exact absurd rfl hresult
    · have hlong : ¬(r.append more).rest.length < n := by
        rw [append, List.length_append]
        omega
      rw [if_neg hshort] at h
      cases h
      rw [if_neg hlong, skip_append (by omega), append, List.take_append_of_le_length (by omega)]

theorem flag_stable : Stable flag := by
  intro result r r' h hresult more
  obtain ⟨position, rest⟩ := r
  cases rest with
  | nil =>
      cases h
      exact absurd rfl hresult
  | cons b rest =>
      cases h
      rfl

theorem takeWhile_append_of_lt {p : Bool → Bool} {bs : List Bool}
    (h : (bs.takeWhile p).length < bs.length) : (bs ++ more).takeWhile p = bs.takeWhile p := by
  rw [List.takeWhile_append, if_neg (Nat.ne_of_lt h)]

theorem length_takeWhile_le_append (p : Bool → Bool) (bs more : List Bool) :
    (bs.takeWhile p).length ≤ ((bs ++ more).takeWhile p).length := by
  rw [List.takeWhile_append]
  split
  · rw [List.length_append]
    omega
  · exact Nat.le_refl _

theorem ue_stable : Stable ue := by
  intro result r r' h hresult more
  have hle : (r.rest.takeWhile (!·)).length ≤ r.rest.length :=
    (List.takeWhile_sublist _).length_le
  simp only [ue] at h ⊢
  -- Only zeros that no set bit ends can become more. The reader runs out there, or has 32 already.
  by_cases hzeros : 32 ≤ (r.rest.takeWhile (!·)).length
  · have hzeros' := Nat.le_trans hzeros (length_takeWhile_le_append (!·) r.rest more)
    rw [if_pos hzeros] at h
    cases h
    rw [append, if_pos hzeros', ← append, skip_append (by omega)]
  · rw [if_neg hzeros] at h
    by_cases hshort : r.rest.length < 2 * (r.rest.takeWhile (!·)).length + 1
    · rw [if_pos hshort] at h
      cases h
      exact absurd rfl hresult
    · have hsame : (r.append more).rest.takeWhile (!·) = r.rest.takeWhile (!·) :=
        takeWhile_append_of_lt (by omega)
      have hlong : ¬(r.append more).rest.length < 2 * (r.rest.takeWhile (!·)).length + 1 := by
        rw [append, List.length_append]
        omega
      rw [if_neg hshort] at h
      cases h
      rw [hsame, if_neg hzeros, if_neg hlong, skip_append (by omega), append,
        List.take_append_of_le_length (by omega)]

theorem se_stable : Stable se := by
  intro result r r' h hresult more
  cases hue : r.ue with
  | mk code r₁ =>
      rw [se, hue] at h
      cases h
      have hcode : code ≠ .error .endOfStream := by
        rintro rfl
        exact hresult rfl
      rw [se, ue_stable hue hcode more]

end BitReader

namespace Code

def StableStep (step : Step BitReader α) : Prop :=
  ∀ {old v result r r'}, step old r = (result, v, r') → result ≠ .error .endOfStream →
    ∀ more, step old (r.append more) = (result, v, r'.append more)

class Stable (c : Code α) : Prop where
  read_append : StableStep c.read

theorem stable_ofFunctions {read : BitReader → BitReader.Result α}
    {write : BitWriter → α → BitWriter.Result} (h : BitReader.Stable read) :
    Stable (ofFunctions read write) where
  read_append := by
    intro old v result r r' hstep hresult more
    cases hread : read r with
    | mk value r₁ =>
        simp only [ofFunctions, hread] at hstep
        cases value with
        | error e =>
            cases hstep
            have he : e ≠ .endOfStream := fun he => hresult (congrArg _ he)
            simp only [ofFunctions, h.append_of_error hread he more]
        | ok v =>
            cases hstep
            simp only [ofFunctions, h.append_of_ok hread more]

instance (n : Nat) : Stable (u n) := stable_ofFunctions (BitReader.u_stable n)

instance : Stable ue := stable_ofFunctions BitReader.ue_stable

instance : Stable se := stable_ofFunctions BitReader.se_stable

instance : Stable flag := stable_ofFunctions BitReader.flag_stable

instance [DecidableEq α] [Number α] {value : α} : Stable (infer value) where
  read_append := by
    intro old v result r r' h _ more
    cases h
    rfl

instance [Inhabited α] {n : Nat} : Stable (sized n : Code (List α)) where
  read_append := by
    intro old v result r r' h _ more
    cases h
    rfl

instance {p : Prop} [Decidable p] {c d : Code α} [Stable c] [Stable d] :
    Stable (if p then c else d) := by
  split <;> infer_instance

theorem eachStep_stable {step : Step BitReader α} (h : StableStep step) :
    StableStep (eachStep step) := by
  intro xs
  induction xs with
  | nil =>
      intro ys result r r' hstep _ more
      cases hstep
      rfl
  | cons x xs ih =>
      intro ys result r r' hstep hresult more
      cases hx : step x r with
      | mk first p =>
          obtain ⟨y, r₁⟩ := p
          cases first with
          | error e =>
              simp only [eachStep, hx] at hstep
              cases hstep
              simp only [eachStep, h hx hresult more]
          | ok _ =>
              cases hxs : eachStep step xs r₁ with
              | mk others q =>
                  simp only [eachStep, hx, hxs] at hstep
                  cases hstep
                  have hfirst := h hx (by simp) more
                  simp only [eachStep, hfirst, ih hxs hresult more]

instance {c : Code α} [Stable c] : Stable (each c) := ⟨eachStep_stable Stable.read_append⟩

theorem stable_elementary : Elementary fun _ c => Stable c where
  u _ := inferInstance
  ue := inferInstance
  se := inferInstance
  flag := inferInstance
  infer _ := inferInstance
  sized _ := inferInstance
  each _ := inferInstance

end Code

namespace Format

open Code

variable {σ : Type} {f : Format σ} {s s₀ : σ}

inductive Stable : Format σ → Prop
  | done : Stable done
  | refuse {e : StreamError} : Stable (refuse e)
  | field {α : Type} {code : Code α} {place : Place σ α} {next : α → Format σ} [code.Stable] :
      (∀ v, Stable (next v)) → Stable (field code place next)

theorem Every.stable (h : f.Every fun _ c => Code.Stable c) : f.Stable := by
  induction h with
  | done => exact .done
  | refuse => exact .refuse
  | field hcode _ _ ih => exact .field ih

theorem Stable.step (h : f.Stable) : StableStep (f.step .decode) := by
  induction h with
  | done | refuse =>
      intro old v result r r' hstep _ more
      cases hstep
      rfl
  | @field α code place next _ _ ih =>
      intro old v result r r' hstep hresult more
      have hread : StableStep (code.step .decode) := Code.Stable.read_append
      cases hv : code.step .decode (place.get old) r with
      | mk first p =>
          obtain ⟨v', r₁⟩ := p
          rw [Format.step, hv] at hstep
          cases first with
          | error e =>
              cases hstep
              rw [Format.step, hread hv hresult more]
          | ok _ =>
              rw [Format.step, hread hv (by simp) more]
              exact ih v' hstep hresult more

theorem Stable.decode_append (h : f.Stable) {data : List UInt8}
    (hdecode : f.decode s₀ data ≠ .error .endOfStream) (more : List UInt8) :
    f.decode s₀ (data ++ more) = f.decode s₀ data := by
  cases hstep : f.step .decode s₀ (.ofBytes data) with
  | mk result p =>
      obtain ⟨s, r⟩ := p
      have hresult : result ≠ .error .endOfStream := by
        rintro rfl
        exact hdecode (by rw [decode, hstep]; rfl)
      have happend : (BitReader.ofBytes data).append (Bits.ofBytes more) =
          .ofBytes (data ++ more) := by
        rw [BitReader.ofBytes, BitReader.append, BitReader.ofBytes, Bits.ofBytes_append]
      have hmore := h.step hstep hresult (Bits.ofBytes more)
      rw [happend] at hmore
      rw [decode, decode, hstep, hmore]

/-- A record that was read from `position` bits is read from the bytes that have them, and from
fewer it is not. -/
theorem Stable.decode_take (h : f.Stable) (hf : f.Lawful) {data : List UInt8}
    (hdecode : f.decode s₀ data = .ok s) (n : Nat) :
    f.decode s₀ (data.take n) =
      if (f.step .decode s₀ (.ofBytes data)).2.2.position ≤ 8 * n then .ok s
      else .error .endOfStream := by
  obtain ⟨bs, rest, hdata, hreads⟩ := hf.decode_eq_ok.1 hdecode
  have htake := Bits.ofBytes_take data n
  rw [hreads.step_ofBytes hdata]
  dsimp only
  split
  next hlong =>
    refine hf.decode_eq_ok.2 ⟨bs, rest.take (8 * n - bs.length), ?_, hreads⟩
    rw [htake, hdata, List.take_append, List.take_of_length_le hlong]
  next hshort =>
    -- Whatever else the reader says of fewer bytes it would say of all, at the same position.
    by_contra hne
    have hall := h.decode_append hne (data.drop n)
    rw [List.take_append_drop, hdecode] at hall
    obtain ⟨bs', rest', htaken, hreads'⟩ := hf.decode_eq_ok.1 hall.symm
    have hdata' : Bits.ofBytes data = bs' ++ (rest' ++ Bits.ofBytes (data.drop n)) := by
      rw [← List.append_assoc, ← htaken, ← Bits.ofBytes_append, List.take_append_drop]
    have hsame := (hreads.step_ofBytes hdata).symm.trans (hreads'.step_ofBytes hdata')
    simp only [Prod.mk.injEq, true_and, BitReader.mk.injEq] at hsame
    have hlength := congrArg List.length htaken
    rw [Bits.length_ofBytes, List.length_take, List.length_append] at hlength
    omega

end Format

end Codeword
