import Codeword.Bitstream.Format
import Codeword.Proofs.Bitstream.Code

namespace Codeword

open Code

theorem BitWriter.ofBytes_finish (w : BitWriter) :
    Bits.ofBytes w.finish = w.bits ++ true :: List.replicate (7 - w.bits.length % 8) false := by
  have hpad : (8 - (w.bits ++ [true]).length % 8) % 8 = 7 - w.bits.length % 8 := by
    rw [List.length_append, List.length_singleton]
    omega
  rw [finish, Bits.ofBytes_toBytes, hpad, List.append_assoc]
  rfl

theorem BitReader.hasMore_stop (position n : Nat) :
    hasMore ⟨position, true :: List.replicate n false⟩ = false := by
  simp [hasMore]

namespace Format

variable {σ : Type}

/-- The record that the bits make of another one. -/
def Reads : Format σ → σ → List Bool → σ → Prop
  | done, s₀, bs, s => s = s₀ ∧ bs = []
  | refuse _, _, _, _ => False
  | field code place next, s₀, bs, s =>
      ∃ v b₁ b₂, bs = b₁ ++ b₂ ∧ code.Reads (place.get s₀) b₁ v ∧
        (next v).Reads (place.set v s₀) b₂ s

def Writes : Format σ → σ → List Bool → Prop
  | done, _, bs => bs = []
  | refuse _, _, _ => False
  | field code place next, s, bs =>
      ∃ b₁ b₂, bs = b₁ ++ b₂ ∧ code.Writes (place.get s) b₁ ∧ (next (place.get s)).Writes s b₂

inductive Lawful : Format σ → Prop
  | done : Lawful done
  | refuse {e : StreamError} : Lawful (refuse e)
  | field {α : Type} {code : Code α} {place : Place σ α} {next : α → Format σ} [code.Lawful] :
      (∀ s, place.set (place.get s) s = s) → (∀ v, Lawful (next v)) → Lawful (field code place next)

variable {f g : Format σ} {s s₀ s' n : σ} {bs : List Bool}

theorem step_field {α : Type} {code : Code α} {place : Place σ α} {next : α → Format σ}
    {d : Direction} {st st' : d.Stream} :
    (field code place next).step d s st = (.ok (), s', st') ↔
      ∃ v st₁, code.step d (place.get s) st = (.ok (), v, st₁) ∧
        (next v).step d (place.set v s) st₁ = (.ok (), s', st') := by
  rw [step]
  cases hstep : code.step d (place.get s) st with
  | mk result p =>
      obtain ⟨v, st₁⟩ := p
      cases result with
      | error e => simp
      | ok u =>
          constructor
          · intro h
            exact ⟨v, st₁, rfl, h⟩
          · rintro ⟨v', st₁', heq, h⟩
            cases heq
            exact h

theorem Reads.code (h : f.Reads s₀ bs s) : f.code.Reads s₀ bs s := by
  induction f generalizing s₀ bs with
  | done =>
      obtain ⟨rfl, rfl⟩ := h
      intro position rest
      rfl
  | refuse e => exact h.elim
  | field code place next ih =>
      obtain ⟨v, b₁, b₂, rfl, hv, hnext⟩ := h
      intro position rest
      have hfirst := hv position (b₂ ++ rest)
      have hrest := ih v hnext (position + b₁.length) rest
      rw [← List.append_assoc] at hfirst
      rw [Nat.add_assoc, ← List.length_append] at hrest
      exact step_field.2 ⟨v, _, hfirst, hrest⟩

theorem Writes.code (hf : f.Lawful) (h : f.Writes s bs) : f.code.Writes s bs := by
  induction hf generalizing bs with
  | done =>
      subst h
      intro w
      simp [Format.code, step]
  | refuse => exact h.elim
  | @field α code place next _ hset _ ih =>
      obtain ⟨b₁, b₂, rfl, hv, hnext⟩ := h
      intro w
      refine step_field.2 ⟨place.get s, _, hv w, ?_⟩
      rw [hset, ← List.append_assoc]
      exact ih _ hnext _

theorem Lawful.exists_reads (hf : f.Lawful) {r r' : BitReader}
    (h : f.step .decode s₀ r = (.ok (), s, r')) :
    ∃ bs, r.rest = bs ++ r'.rest ∧ f.Reads s₀ bs s := by
  induction hf generalizing s₀ r with
  | done =>
      simp only [step, Prod.mk.injEq, true_and] at h
      obtain ⟨rfl, rfl⟩ := h
      exact ⟨[], rfl, rfl, rfl⟩
  | refuse => simp [step] at h
  | @field α code place next _ _ _ ih =>
      obtain ⟨v, r₁, hv, hnext⟩ := step_field.1 h
      obtain ⟨b₁, hr, hreads⟩ := Code.Lawful.exists_reads hv
      obtain ⟨b₂, hr₁, hrest⟩ := ih v hnext
      refine ⟨b₁ ++ b₂, ?_, v, b₁, b₂, rfl, hreads, hrest⟩
      rw [hr, hr₁, List.append_assoc]

theorem Lawful.exists_writes (hf : f.Lawful) {w w' : BitWriter}
    (h : f.step .encode s w = (.ok (), s', w')) : ∃ bs, f.Writes s bs := by
  induction hf generalizing w with
  | done => exact ⟨[], rfl⟩
  | refuse => simp [step] at h
  | @field α code place next _ hset _ ih =>
      obtain ⟨v, w₁, hv, hnext⟩ := step_field.1 h
      obtain ⟨b₁, hwrites⟩ := Code.Lawful.exists_writes hv
      have heq : v = place.get s := by
        have hself := hwrites w
        have hpair := hv.symm.trans hself
        simp only [Prod.mk.injEq, true_and] at hpair
        exact hpair.1
      subst heq
      rw [hset] at hnext
      obtain ⟨b₂, hrest⟩ := ih _ hnext
      exact ⟨b₁ ++ b₂, b₁, b₂, rfl, hwrites, hrest⟩

theorem Lawful.code (hf : f.Lawful) : f.code.Lawful where
  exists_reads h := by
    obtain ⟨bs, hrest, hreads⟩ := hf.exists_reads h
    exact ⟨bs, hrest, hreads.code⟩
  exists_writes h := by
    obtain ⟨bs, hwrites⟩ := hf.exists_writes h
    exact ⟨bs, hwrites.code hf⟩

theorem Reads.step_ofBytes (h : f.Reads s₀ bs s) {bytes : List UInt8} {rest : List Bool}
    (hbytes : Bits.ofBytes bytes = bs ++ rest) :
    f.step .decode s₀ (.ofBytes bytes) = (.ok (), s, ⟨bs.length, rest⟩) := by
  have hstep := h.code 0 rest
  rw [← hbytes, Nat.zero_add] at hstep
  exact hstep

theorem Lawful.decode_eq_ok (hf : f.Lawful) {bytes : List UInt8} :
    f.decode s₀ bytes = .ok s ↔ ∃ bs rest, Bits.ofBytes bytes = bs ++ rest ∧ f.Reads s₀ bs s := by
  constructor
  · intro h
    cases hstep : f.step .decode s₀ (.ofBytes bytes) with
    | mk result p =>
        obtain ⟨s', r'⟩ := p
        cases result with
        | error e => simp [decode, hstep, Except.map] at h
        | ok u =>
            have heq : s' = s := by simpa [decode, hstep, Except.map] using h
            subst heq
            obtain ⟨bs, hrest, hreads⟩ := hf.exists_reads hstep
            exact ⟨bs, r'.rest, hrest, hreads⟩
  · rintro ⟨bs, rest, hbytes, hreads⟩
    simp [decode, hreads.step_ofBytes hbytes, Except.map]

theorem Lawful.encode_eq_ok (hf : f.Lawful) {bytes : List UInt8} :
    f.encode s = .ok bytes ↔ ∃ bs, f.Writes s bs ∧ BitWriter.finish ⟨bs⟩ = bytes := by
  constructor
  · intro h
    cases hstep : f.step .encode s {} with
    | mk result p =>
        obtain ⟨s', w'⟩ := p
        cases result with
        | error e => simp [encode, hstep, Except.map] at h
        | ok u =>
            obtain ⟨bs, hwrites⟩ := hf.exists_writes hstep
            have hself := (hwrites.code hf).write_empty
            change f.step .encode s {} = _ at hself
            refine ⟨bs, hwrites, ?_⟩
            simpa [encode, hself, Except.map] using h
  · rintro ⟨bs, hwrites, rfl⟩
    have hself := (hwrites.code hf).write_empty
    change f.step .encode s {} = _ at hself
    simp [encode, hself, Except.map]

/-- What is written for `s` makes `n` of `s₀`. -/
def Restores (f : Format σ) (s s₀ n : σ) : Prop := ∀ bs, f.Writes s bs → f.Reads s₀ bs n

theorem Restores.decode (h : f.Restores s s₀ n) (hf : f.Lawful) {bytes : List UInt8}
    (hencode : f.encode s = .ok bytes) :
    f.decode s₀ bytes = .ok n ∧
      (f.step .decode s₀ (.ofBytes bytes)).2.2.position = (f.step .encode s {}).2.2.position ∧
      (f.step .decode s₀ (.ofBytes bytes)).2.2.hasMore = false := by
  obtain ⟨bs, hwrites, rfl⟩ := hf.encode_eq_ok.1 hencode
  have hbytes := BitWriter.ofBytes_finish ⟨bs⟩
  have hreads := h bs hwrites
  have hwrite := (hwrites.code hf).write_empty
  change f.step .encode s {} = _ at hwrite
  refine ⟨hf.decode_eq_ok.2 ⟨bs, _, hbytes, hreads⟩, ?_, ?_⟩
  · rw [hreads.step_ofBytes hbytes, hwrite]
    rfl
  · rw [hreads.step_ofBytes hbytes]
    exact BitReader.hasMore_stop _ _

section

variable {α : Type} {code : Code α} {place : Place σ α} {next : α → Format σ}

theorem Restores.field [Exact code]
    (h : (next (place.get s)).Restores s (place.set (place.get s) s₀) n) :
    (field code place next).Restores s s₀ n := by
  rintro _ ⟨b₁, b₂, rfl, hv, hnext⟩
  exact ⟨place.get s, b₁, b₂, rfl, hv.reads _, h b₂ hnext⟩

/-- Where the code gives back another value than was written, what comes next may not depend
on it. -/
theorem Restores.field_of {v : α} {rest : Format σ}
    (hcode : ∀ bs, code.Writes (place.get s) bs → code.Reads (place.get s₀) bs v)
    (h : rest.Restores s (place.set v s₀) n) :
    (Format.field code place fun _ => rest).Restores s s₀ n := by
  rintro _ ⟨b₁, b₂, rfl, hv, hnext⟩
  exact ⟨v, b₁, b₂, rfl, hcode b₁ hv, h b₂ hnext⟩

end

end Format

end Codeword
