import Codeword.Text.Blank

namespace Codeword.Text

/-- A text that consists of these words, with white space around and between them. -/
inductive Separated : List Char → List (List Char) → Prop
  | nil : Separated [] []
  | blank {c : Char} {cs : List Char} {ws : List (List Char)} (hc : isBlank c = true)
      (h : Separated cs ws) : Separated (c :: cs) ws
  | word {w cs : List Char} {ws : List (List Char)} (hw : w ≠ [])
      (hletters : ∀ c ∈ w, isBlank c = false) (hend : ∀ c ∈ cs.head?, isBlank c = true)
      (h : Separated cs ws) : Separated (w ++ cs) (w :: ws)

variable {c : Char} {cs w : List Char} {ws : List (List Char)}

theorem words_eq (cs : List Char) : words cs = consWord (split cs).1 (split cs).2 := rfl

theorem split_cons_of_blank (hc : isBlank c = true) (cs : List Char) :
    split (c :: cs) = ([], words cs) := by
  rw [split, words_eq]
  exact if_pos hc

theorem split_cons_of_letter (hc : isBlank c = false) (cs : List Char) :
    split (c :: cs) = (c :: (split cs).1, (split cs).2) := by
  rw [split]
  exact if_neg (Bool.eq_false_iff.1 hc)

theorem split_of_head_blank (h : ∀ c ∈ cs.head?, isBlank c = true) : split cs = ([], words cs) := by
  cases cs with
  | nil => rfl
  | cons c cs =>
      have hc : isBlank c = true := h c rfl
      rw [words_eq, split_cons_of_blank hc]
      rfl

theorem split_append (hletters : ∀ c ∈ w, isBlank c = false)
    (hend : ∀ c ∈ cs.head?, isBlank c = true) : split (w ++ cs) = (w, words cs) := by
  induction w with
  | nil => exact split_of_head_blank hend
  | cons c w ih =>
      rw [List.forall_mem_cons] at hletters
      rw [List.cons_append, split_cons_of_letter hletters.1, ih hletters.2]

theorem Separated.words_eq (h : Separated cs ws) : words cs = ws := by
  induction h with
  | nil => rfl
  | blank hc _ ih =>
      rw [Text.words_eq, split_cons_of_blank hc]
      exact ih
  | word hw hletters hend _ ih =>
      rw [Text.words_eq, split_append hletters hend, ih]
      exact if_neg hw

theorem separated_words (cs : List Char) : Separated cs (words cs) := by
  -- what is cut off is a word as far as it goes, and the next letter may make it longer
  suffices h : ∃ rest, cs = (split cs).1 ++ rest ∧ (∀ c ∈ (split cs).1, isBlank c = false) ∧
      (∀ c ∈ rest.head?, isBlank c = true) ∧ Separated rest (split cs).2 ∧
      Separated cs (words cs) by
    obtain ⟨_, -, -, -, -, hwords⟩ := h
    exact hwords
  induction cs with
  | nil => exact ⟨[], rfl, by simp [split], by simp, .nil, .nil⟩
  | cons c cs ih =>
      obtain ⟨rest, hrest, hletters, hend, htail, hwords⟩ := ih
      cases hc : isBlank c with
      | true =>
          rw [words_eq, split_cons_of_blank hc]
          have hblank := Separated.blank hc hwords
          exact ⟨c :: cs, rfl, by simp, by simpa using hc, hblank, hblank⟩
      | false =>
          rw [words_eq, split_cons_of_letter hc]
          have hword : ∀ d ∈ c :: (split cs).1, isBlank d = false :=
            List.forall_mem_cons.2 ⟨hc, hletters⟩
          have hjoin : c :: cs = (c :: (split cs).1) ++ rest := congrArg (c :: ·) hrest
          refine ⟨rest, hjoin, hword, hend, htail, ?_⟩
          rw [hjoin]
          exact .word (List.cons_ne_nil _ _) hword hend htail

theorem words_eq_iff : words cs = ws ↔ Separated cs ws :=
  ⟨fun h => h ▸ separated_words cs, Separated.words_eq⟩

end Codeword.Text
