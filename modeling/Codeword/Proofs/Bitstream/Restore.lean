import Codeword.Proofs.Bitstream.Format

namespace Codeword.Format

open Code

variable {σ : Type}

/-- The record `s₀` with what the format carries of `s`. -/
def restore : Format σ → σ → σ → σ
  | done, _, s₀ => s₀
  | refuse _, _, s₀ => s₀
  | field _ place next, s, s₀ => (next (place.get s)).restore s (place.set (place.get s) s₀)

/-- What was written can be read, and what was read would be written in the same way. -/
structure Faithful (f : Format σ) : Prop where
  reads : ∀ {s bs}, f.Writes s bs → ∀ s₀, f.Reads s₀ bs (f.restore s s₀)
  writes : ∀ {s₀ bs s}, f.Reads s₀ bs s → f.Writes s bs ∧ f.restore s s₀ = s

theorem Faithful.restores {f : Format σ} (hf : f.Faithful) (s s₀ : σ) :
    f.Restores s s₀ (f.restore s s₀) :=
  fun _ h => hf.reads h s₀

namespace Faithful

variable {α : Type} {f g : Format σ}

theorem done : (done : Format σ).Faithful where
  reads h _ := ⟨rfl, h⟩
  writes h := ⟨h.2, h.1.symm⟩

theorem refuse {e : StreamError} : (refuse e : Format σ).Faithful where
  reads h := h.elim
  writes h := h.elim

theorem ite {p : Prop} [Decidable p] (hf : p → f.Faithful) (hg : ¬p → g.Faithful) :
    (if p then f else g).Faithful := by
  split
  next h => exact hf h
  next h => exact hg h

theorem field {code : Code α} {place : Place σ α} {next : α → Format σ} [Exact code]
    (hget : ∀ v s s₀, place.get ((next v).restore s (place.set v s₀)) = v)
    (hnext : ∀ v, (next v).Faithful) : (Format.field code place next).Faithful where
  reads := by
    rintro s _ ⟨b₁, b₂, rfl, hv, hrest⟩ s₀
    exact ⟨place.get s, b₁, b₂, rfl, hv.reads _, (hnext _).reads hrest _⟩
  writes := by
    rintro s₀ _ s ⟨v, b₁, b₂, rfl, hv, hrest⟩
    obtain ⟨hwrites, hrestore⟩ := (hnext v).writes hrest
    have hkept := hget v s s₀
    rw [hrestore] at hkept
    subst hkept
    exact ⟨⟨b₁, b₂, rfl, hv.writes, hwrites⟩, hrestore⟩

theorem list [Inhabited α] {n : Nat} {code : Code α} {place : Place σ (List α)} [Exact code]
    (hself : ∀ xs s, place.get (place.set xs s) = xs)
    (hset : ∀ xs ys s, place.set xs (place.set ys s) = place.set xs s)
    (hget : ∀ xs s s₀, place.get (f.restore s (place.set xs s₀)) = xs) (hf : f.Faithful) :
    (Format.field (sized n) place fun _ => Format.field (each code) place fun _ => f).Faithful where
  reads := by
    rintro s _ ⟨b₁, _, rfl, hsized, b₂, b₃, rfl, hlist, hrest⟩ s₀
    obtain ⟨hlen, rfl⟩ := writes_sized.1 hsized
    have hread : (sized n).Reads (place.get s₀) [] _ := reads_sized.2 ⟨rfl, rfl⟩
    refine ⟨_, [], _, rfl, hread, place.get s, b₂, b₃, rfl, ?_, ?_⟩
    · rw [hself, reads_each]
      exact ⟨hlen.trans hread.length_sized.symm, hlist⟩
    · rw [hset, restore, restore, hset]
      exact hf.reads hrest _
  writes := by
    rintro s₀ _ s ⟨xs, b₁, _, rfl, hsized, ys, b₂, b₃, rfl, hlist, hrest⟩
    rw [hself, reads_each] at hlist
    obtain ⟨hlen, hwrites⟩ := hlist
    have hlength := hlen.trans hsized.length_sized
    obtain ⟨-, rfl⟩ := reads_sized.1 hsized
    rw [hset] at hrest
    obtain ⟨hnext, hrestore⟩ := hf.writes hrest
    have hkept := hget ys s s₀
    rw [hrestore] at hkept
    subst hkept
    refine ⟨⟨[], b₂ ++ b₃, rfl, writes_sized.2 ⟨hlength, rfl⟩, b₂, b₃, rfl, hwrites, hnext⟩, ?_⟩
    rw [restore, restore, hset]
    exact hrestore

end Faithful

end Codeword.Format
