import Codeword.Proofs.Spelling.Characters
import Codeword.WordList
import Mathlib.Data.Nat.Digits.Defs

namespace Codeword

namespace Text

def digit? (base : Nat) (c : Char) : Option Nat :=
  (List.range base).find? fun d => c = d.digitChar ∨ c = d.digitChar.toUpper

/-- The number that digits of a base stand for. There has to be one. -/
def readDigits (base : Nat) (cs : List Char) : Option Nat :=
  if cs = [] then none else (cs.mapM (digit? base)).map fun ds => Nat.ofDigits base ds.reverse

variable {base d n : Nat} {c : Char} {cs : List Char}

theorem digit?_ascii : ∀ n < 128, digit? 16 (Char.ofNat n) = hexDigit? (Char.ofNat n) := by
  decide +kernel

theorem digitChar_ascii : ∀ d < 16, d.digitChar.toNat < 128 ∧ d.digitChar.toUpper.toNat < 128 := by
  decide

theorem digit?_sixteen : digit? 16 = hexDigit? := by
  funext c
  by_cases hc : c.toNat < 128
  · have hsame := digit?_ascii c.toNat hc
    rwa [Char.ofNat_toNat] at hsame
  · have toNat_le {last : Char} (h : c ≤ last) : c.toNat ≤ last.toNat := h
    have hnone : hexDigit? c = none := by
      rw [hexDigit?, if_neg, if_neg, if_neg]
      all_goals
        intro h
        exact hc (Nat.lt_of_le_of_lt (toNat_le h.2) (by decide))
    rw [hnone, digit?, List.find?_eq_none]
    intro d hd
    have hascii := digitChar_ascii d (List.mem_range.1 hd)
    rw [decide_eq_true_eq]
    rintro (rfl | rfl)
    · exact hc hascii.1
    · exact hc hascii.2

theorem readDigits_eq_some : readDigits base cs = some n ↔
    cs ≠ [] ∧ ∃ ds, cs.mapM (digit? base) = some ds ∧ Nat.ofDigits base ds.reverse = n := by
  rw [readDigits]
  split
  next h => simp [h]
  next h => rw [Option.map_eq_some_iff, and_iff_right h]

theorem readDigits_eq_none (hc : c ∈ cs) (hd : digit? base c = none) :
    readDigits base cs = none := by
  have hall : cs.mapM (digit? base) = none := by
    induction hc with
    | head cs => simp [hd]
    | tail b _ ih => simp [ih]
  rw [readDigits, if_neg (List.ne_nil_of_mem hc), hall]
  rfl

theorem readDigits_singleton (hd : digit? base c = some d) : readDigits base [c] = some d :=
  readDigits_eq_some.2 ⟨List.cons_ne_nil _ _, [d], by simp [hd], Nat.ofDigits_singleton⟩

theorem readDigits_append_singleton (hcs : readDigits base cs = some n)
    (hd : digit? base c = some d) : readDigits base (cs ++ [c]) = some (d + base * n) := by
  obtain ⟨hne, ds, hds, rfl⟩ := readDigits_eq_some.1 hcs
  refine readDigits_eq_some.2 ⟨by simp, ds ++ [d], by simp [hds, hd], ?_⟩
  rw [List.reverse_append, List.reverse_singleton, List.singleton_append, Nat.ofDigits_cons]

theorem readDigits_cons_zero (hzero : digit? base '0' = some 0)
    (hcs : readDigits base cs = some n) : readDigits base ('0' :: cs) = some n := by
  obtain ⟨-, ds, hds, rfl⟩ := readDigits_eq_some.1 hcs
  refine readDigits_eq_some.2 ⟨List.cons_ne_nil _ _, 0 :: ds, by simp [hds, hzero], ?_⟩
  rw [List.reverse_cons, Nat.ofDigits_append_zero]

theorem readDigits_map_toDigits {draw : Char → Char} (hbase : 1 < base)
    (hdraw : ∀ d < base, digit? base (draw d.digitChar) = some d) (n : Nat) :
    readDigits base ((Nat.toDigits base n).map draw) = some n := by
  induction n using Nat.strongRecOn with
  | _ n ih =>
      rw [Nat.toDigits_eq_if hbase]
      split
      next hlast => exact readDigits_singleton (hdraw n hlast)
      next hmore =>
        have hhigh := ih (n / base) (Nat.div_lt_self (by omega) hbase)
        have hlow := hdraw (n % base) (Nat.mod_lt n (by omega))
        rw [List.map_append, List.map_singleton, readDigits_append_singleton hhigh hlow,
          Nat.mod_add_div]

theorem digit?_digitChar_ten : ∀ d < 10, digit? 10 (id d.digitChar) = some d := by decide

theorem digit?_digitChar : ∀ d < 16, digit? 16 (id d.digitChar) = some d := by decide

theorem digit?_toUpper_digitChar : ∀ d < 16, digit? 16 d.digitChar.toUpper = some d := by decide

theorem readDigits_toDigits_ten (n : Nat) : readDigits 10 (Nat.toDigits 10 n) = some n := by
  rw [← readDigits_map_toDigits (by decide) digit?_digitChar_ten n, List.map_id]

theorem readDigits_hexDigits (upper : Bool) (n : Nat) :
    readDigits 16 (hexDigits upper n) = some n := by
  cases upper with
  | false =>
      rw [← readDigits_map_toDigits (by decide) digit?_digitChar n, List.map_id]
      rfl
  | true => exact readDigits_map_toDigits (by decide) digit?_toUpper_digitChar n

theorem readDigits_padLeft (width : Nat) (hcs : readDigits 16 cs = some n) :
    readDigits 16 (padLeft width '0' cs) = some n := by
  rw [padLeft]
  induction width - cs.length with
  | zero => exact hcs
  | succ k ih => exact readDigits_cons_zero (by decide) ih

end Text

namespace WordList

open Text

variable {value n : Nat} {cs : List Char}

theorem digits_nil (value : Nat) : digits value [] = .ok value := rfl

theorem digits_cons (value : Nat) (c : Char) (cs : List Char) :
    digits value (c :: cs) =
      match hexDigit? c with
      | none => .error .invalidDigit
      | some d =>
        if 16 * value + d < 2 ^ 64 then digits (16 * value + d) cs else .error .tooLarge := rfl

theorem le_foldl (value : Nat) (ds : List Nat) : value ≤ ds.foldl (fun n d => 16 * n + d) value := by
  induction ds generalizing value with
  | nil => exact Nat.le_refl value
  | cons d ds ih => exact Nat.le_trans (by omega) (ih (16 * value + d))

/-- Reading stops at the first digit that makes the number too large, which comes to the same as
a test of the whole. -/
theorem digits_eq_ok (hvalue : value < 2 ^ 64) : digits value cs = .ok n ↔
    ∃ ds, cs.mapM hexDigit? = some ds ∧ ds.foldl (fun n d => 16 * n + d) value = n ∧
      n < 2 ^ 64 := by
  induction cs generalizing value with
  | nil =>
      rw [digits_nil]
      constructor
      · rintro ⟨⟩
        exact ⟨[], rfl, rfl, hvalue⟩
      · rintro ⟨ds, hds, rfl, -⟩
        cases hds
        rfl
  | cons c cs ih =>
      rw [digits_cons]
      cases hc : hexDigit? c with
      | none => simp [hc]
      | some d =>
          have hcons (ds : List Nat) : (c :: cs).mapM hexDigit? = some ds ↔
              ∃ es, cs.mapM hexDigit? = some es ∧ d :: es = ds := by
            simp [hc, Option.bind_eq_some_iff]
          dsimp only
          split
          next hsmall =>
            rw [ih hsmall]
            constructor
            · rintro ⟨es, hes, hvalue⟩
              exact ⟨d :: es, (hcons _).2 ⟨es, hes, rfl⟩, hvalue⟩
            · rintro ⟨ds, hds, hvalue⟩
              obtain ⟨es, hes, rfl⟩ := (hcons ds).1 hds
              exact ⟨es, hes, hvalue⟩
          next hlarge =>
            -- further digits do not make the number smaller
            constructor
            · rintro ⟨⟩
            · rintro ⟨ds, hds, rfl, hlt⟩
              obtain ⟨es, -, rfl⟩ := (hcons ds).1 hds
              exact absurd (Nat.lt_of_le_of_lt (le_foldl _ es) hlt) hlarge

theorem digits_zero_eq_ok (hcs : cs ≠ []) :
    digits 0 cs = .ok n ↔ readDigits 16 cs = some n ∧ n < 2 ^ 64 := by
  have hhorner (ds : List Nat) :
      Nat.ofDigits 16 ds.reverse = ds.foldl (fun n d => 16 * n + d) 0 := by
    rw [Nat.ofDigits_eq_foldr, List.foldr_reverse]
    simp [Nat.add_comm]
  rw [digits_eq_ok (by decide), readDigits_eq_some, digit?_sixteen, and_iff_right hcs]
  simp [hhorner, ← exists_and_right, and_assoc]

end WordList

end Codeword
