import Codeword.Proofs.Bitstream.Format

namespace Codeword

namespace Code

variable {α : Type} {a b : α} {R R' : α → α → Prop}

/-- On every stream the steps from `a` and from `b` end in the same way at the same bit, and what
they make of the two is related where they succeed. -/
def Alike (step : Step BitReader α) (a b : α) (R : α → α → Prop) : Prop :=
  ∀ r, (step a r).1 = (step b r).1 ∧ (step a r).2.2 = (step b r).2.2 ∧
    ((step a r).1 = .ok () → R (step a r).2.1 (step b r).2.1)

theorem Alike.cases {step : Step BitReader α} (h : Alike step a b R) (r : BitReader) :
    (∃ e v v' r', step a r = (.error e, v, r') ∧ step b r = (.error e, v', r')) ∨
      ∃ v v' r', step a r = (.ok (), v, r') ∧ step b r = (.ok (), v', r') ∧ R v v' := by
  obtain ⟨hresult, hreader, hvalue⟩ := h r
  cases ha : step a r with
  | mk result p =>
      obtain ⟨v, r'⟩ := p
      cases hb : step b r with
      | mk result' q =>
          obtain ⟨v', r''⟩ := q
          rw [ha, hb] at hresult hreader hvalue
          change result = result' at hresult
          change r' = r'' at hreader
          subst hresult hreader
          cases result with
          | error e => exact .inl ⟨e, v, v', r', rfl, rfl⟩
          | ok _ => exact .inr ⟨v, v', r', rfl, rfl, hvalue rfl⟩

theorem Alike.mono {step : Step BitReader α} (h : Alike step a b R)
    (hR : ∀ v v', R v v' → R' v v') : Alike step a b R' := by
  intro r
  obtain ⟨hresult, hreader, hvalue⟩ := h r
  exact ⟨hresult, hreader, fun hok => hR _ _ (hvalue hok)⟩

/-- Nothing is left of what was there before. -/
class Overwrites (c : Code α) : Prop where
  alike : ∀ a b, Alike c.read a b Eq

instance overwrites_ofFunctions {read : BitReader → BitReader.Result α}
    {write : BitWriter → α → BitWriter.Result} : Overwrites (ofFunctions read write) where
  alike a b r := by
    simp only [ofFunctions]
    cases read r with
    | mk result r₁ =>
        cases result with
        | error e => exact ⟨rfl, rfl, fun h => by cases h⟩
        | ok v => exact ⟨rfl, rfl, fun _ => rfl⟩

instance (n : Nat) : Overwrites (u n) := overwrites_ofFunctions

instance : Overwrites ue := overwrites_ofFunctions

instance : Overwrites se := overwrites_ofFunctions

instance : Overwrites flag := overwrites_ofFunctions

theorem alike_infer [DecidableEq α] [Number α] {value : α} :
    Alike (infer value).read a b fun v v' => v = value ∧ v' = value :=
  fun _ => ⟨rfl, rfl, fun _ => ⟨rfl, rfl⟩⟩

instance [DecidableEq α] [Number α] {value : α} : Overwrites (infer value) where
  alike _ _ := alike_infer.mono fun _ _ h => h.1.trans h.2.symm

instance {p : Prop} [Decidable p] {c d : Code α} [Overwrites c] [Overwrites d] :
    Overwrites (if p then c else d) := by
  split <;> infer_instance

theorem alike_sized [Inhabited α] (n : Nat) (xs ys : List α) :
    Alike (sized n).read xs ys fun vs ws => vs.length = n ∧ ws.length = n := by
  intro r
  refine ⟨rfl, rfl, fun _ => ⟨?_, ?_⟩⟩
  · exact (reads_sized.2 ⟨rfl, rfl⟩ : (sized n).Reads xs [] _).length_sized
  · exact (reads_sized.2 ⟨rfl, rfl⟩ : (sized n).Reads ys [] _).length_sized

theorem alike_each {c : Code α} [Overwrites c] {xs ys : List α} (h : xs.length = ys.length) :
    Alike (each c).read xs ys Eq := by
  induction xs generalizing ys with
  | nil =>
      intro r
      rw [List.length_eq_zero_iff.1 h.symm]
      exact ⟨rfl, rfl, fun _ => rfl⟩
  | cons x xs ih =>
      cases ys with
      | nil => simp at h
      | cons y ys =>
          intro r
          rcases (Overwrites.alike x y : Alike c.read x y Eq).cases r with
            ⟨e, v, v', r', hx, hy⟩ | ⟨v, v', r', hx, hy, rfl⟩
          · simp only [each, eachStep, hx, hy]
            exact ⟨trivial, trivial, fun hok => by cases hok⟩
          · obtain ⟨hresult, hreader, htail⟩ := ih (Nat.succ.inj h) r'
            simp only [each, eachStep, hx, hy]
            exact ⟨hresult, hreader, fun hok => congrArg (v :: ·) (htail hok)⟩

end Code

namespace Format

open Code

variable {σ α : Type} {s s' : σ} {R : σ → σ → Prop} {code : Code α} {place : Place σ α}
  {next : α → Format σ}

theorem alike_done (h : R s s') : Alike ((done : Format σ).step .decode) s s' R :=
  fun _ => ⟨rfl, rfl, fun _ => h⟩

theorem alike_refuse {e : StreamError} : Alike ((refuse e : Format σ).step .decode) s s' R :=
  fun _ => ⟨rfl, rfl, fun h => by cases h⟩

/-- Values that are not the same in both runs may not decide what comes next. -/
theorem alike_field_of {P : α → α → Prop} (hcode : Alike code.read (place.get s) (place.get s') P)
    (hsame : ∀ v v', P v v' → next v = next v')
    (hnext : ∀ v v', P v v' → Alike ((next v).step .decode) (place.set v s) (place.set v' s') R) :
    Alike ((field code place next).step .decode) s s' R := by
  intro r
  rcases hcode.cases r with ⟨e, v, v', r', hv, hv'⟩ | ⟨v, v', r', hv, hv', hP⟩
  · simp only [step, Code.step, hv, hv']
    exact ⟨trivial, trivial, fun hok => by cases hok⟩
  · simp only [step, Code.step, hv, hv', ← hsame v v' hP]
    exact hnext v v' hP r'

theorem alike_field [Overwrites code]
    (hnext : ∀ v, Alike ((next v).step .decode) (place.set v s) (place.set v s') R) :
    Alike ((field code place next).step .decode) s s' R :=
  alike_field_of (Overwrites.alike _ _) (fun _ _ h => congrArg next h)
    fun v _ h => h ▸ hnext v

end Format

end Codeword
