import Codeword.Proofs.Text.Numeral
import Codeword.Proofs.Text.Words
import Mathlib.Data.List.Forall2

namespace Codeword.WordList

open Text

def marks : List (List Char) := [[], ['0', 'x'], ['0', 'X']]

def signs : List (List Char) := [[], ['+']]

/-- A token is read as a word: the digits of the word stand in it after at most one mark and at
most one plus sign. -/
def Spells (token : List Char) (w : Word) : Prop :=
  ∃ mark ∈ marks, ∃ sign ∈ signs, ∃ ds, token = mark ++ sign ++ ds ∧
    readDigits 16 ds = some w.toNat

/-- A word as it may be printed: in either case, with or without a mark, and with zeros up to any
width. -/
def Prints (token : List Char) (w : Word) : Prop :=
  ∃ mark ∈ marks, ∃ upper width, token = mark ++ padLeft width '0' (hexDigits upper w.toNat)

variable {token cs : List Char} {w : Word} {n : Nat}

theorem number_eq_digits (hcs : cs ≠ []) (hsign : '+' ∉ cs) : number cs = digits 0 cs := by
  rw [number.eq_def]
  split
  · exact absurd rfl hcs
  · simp at hsign
  · simp at hsign
  · rfl

theorem number_plus (hcs : cs ≠ []) : number ('+' :: cs) = digits 0 cs := by
  cases cs with
  | nil => exact absurd rfl hcs
  | cons c cs => rfl

theorem number_eq_ok : number cs = .ok n ↔
    ∃ sign ∈ signs, ∃ ds, cs = sign ++ ds ∧ readDigits 16 ds = some n ∧ n < 2 ^ 64 := by
  constructor
  · intro h
    rw [number.eq_def] at h
    split at h
    · cases h
    · cases h
    next ds hds =>
      exact ⟨['+'], by decide, ds, rfl, (digits_zero_eq_ok fun hnil => hds (by rw [hnil])).1 h⟩
    next hne _ _ =>
      exact ⟨[], by decide, cs, rfl, (digits_zero_eq_ok hne).1 h⟩
  · rintro ⟨sign, hsign, ds, rfl, hread⟩
    have hds : ds ≠ [] := (readDigits_eq_some.1 hread.1).1
    have hplus : '+' ∉ ds := fun hmem => by
      rw [readDigits_eq_none hmem (by decide)] at hread
      cases hread.1
    simp only [signs, List.mem_cons, List.not_mem_nil, or_false] at hsign
    rcases hsign with rfl | rfl
    · rw [List.nil_append, number_eq_digits hds hplus]
      exact (digits_zero_eq_ok hds).2 hread
    · rw [List.singleton_append, number_plus hds]
      exact (digits_zero_eq_ok hds).2 hread

theorem exists_mark (token : List Char) : ∃ mark ∈ marks, token = mark ++ unmarked token := by
  rw [unmarked.eq_def]
  split
  · exact ⟨['0', 'x'], by decide, rfl⟩
  · exact ⟨['0', 'X'], by decide, rfl⟩
  · exact ⟨[], by decide, rfl⟩

theorem unmarked_append {mark : List Char} (hmark : mark ∈ marks) (hcs : number cs = .ok n) :
    unmarked (mark ++ cs) = cs := by
  simp only [marks, List.mem_cons, List.not_mem_nil, or_false] at hmark
  rcases hmark with rfl | rfl | rfl
  · have number_lower (rest : List Char) : number ('0' :: 'x' :: rest) = .error .invalidDigit := rfl
    have number_upper (rest : List Char) : number ('0' :: 'X' :: rest) = .error .invalidDigit := rfl
    rw [List.nil_append, unmarked.eq_def]
    split
    · rw [number_lower] at hcs
      cases hcs
    · rw [number_upper] at hcs
      cases hcs
    · rfl
  · rfl
  · rfl

theorem word_eq_ok : word token = .ok w ↔ Spells token w := by
  rw [word]
  constructor
  · intro h
    split at h
    next n hn =>
      cases h
      obtain ⟨mark, hmark, htoken⟩ := exists_mark token
      obtain ⟨sign, hsign, ds, hds, hread, hlt⟩ := number_eq_ok.1 hn
      refine ⟨mark, hmark, sign, hsign, ds, ?_, ?_⟩
      · rw [htoken, hds, List.append_assoc]
      · rwa [BitVec.toNat_ofNat, Nat.mod_eq_of_lt hlt]
    next => cases h
  · rintro ⟨mark, hmark, sign, hsign, ds, rfl, hread⟩
    have hnumber : number (sign ++ ds) = .ok w.toNat :=
      number_eq_ok.2 ⟨sign, hsign, ds, rfl, hread, w.isLt⟩
    rw [List.append_assoc, unmarked_append hmark hnumber, hnumber]
    dsimp only
    rw [BitVec.ofNat_toNat, BitVec.setWidth_eq]

theorem token_of_word_eq_error {e : WordError} (h : word token = .error e) :
    e.token = String.ofList token := by
  rw [word] at h
  split at h
  · cases h
  · cases h
    rfl

theorem Prints.spells (h : Prints token w) : Spells token w := by
  obtain ⟨mark, hmark, upper, width, rfl⟩ := h
  refine ⟨mark, hmark, [], by decide, padLeft width '0' (hexDigits upper w.toNat), ?_, ?_⟩
  · rw [List.append_nil]
  · exact readDigits_padLeft width (readDigits_hexDigits upper w.toNat)

section traversal

variable {α β ε : Type} {f : α → Except ε β} {xs : List α} {ys : List β} {e : ε}

theorem mapM_cons_eq_ok {x : α} : (x :: xs).mapM f = .ok ys ↔
    ∃ z zs, f x = .ok z ∧ xs.mapM f = .ok zs ∧ ys = z :: zs := by
  rw [List.mapM_cons]
  cases f x with
  | error e => simp [bind, Except.bind]
  | ok z => cases xs.mapM f <;> simp [bind, Except.bind, pure, Except.pure, eq_comm]

theorem mapM_cons_eq_error {x : α} : (x :: xs).mapM f = .error e ↔
    f x = .error e ∨ (∃ z, f x = .ok z) ∧ xs.mapM f = .error e := by
  rw [List.mapM_cons]
  cases f x with
  | error e' => simp [bind, Except.bind]
  | ok z => cases xs.mapM f <;> simp [bind, Except.bind, pure, Except.pure]

theorem mapM_eq_ok : xs.mapM f = .ok ys ↔ List.Forall₂ (fun x y => f x = .ok y) xs ys := by
  induction xs generalizing ys with
  | nil => simp [pure, Except.pure, eq_comm]
  | cons x xs ih =>
      rw [mapM_cons_eq_ok, List.forall₂_cons_left_iff]
      simp only [ih]

theorem mapM_eq_error : xs.mapM f = .error e ↔
    ∃ before x after, xs = before ++ x :: after ∧ (∀ y ∈ before, ∃ z, f y = .ok z) ∧
      f x = .error e := by
  induction xs with
  | nil => simp [pure, Except.pure]
  | cons x xs ih =>
      rw [mapM_cons_eq_error, ih]
      constructor
      · rintro (hx | ⟨hx, before, y, after, rfl, hbefore, hy⟩)
        · exact ⟨[], x, xs, rfl, List.forall_mem_nil _, hx⟩
        · exact ⟨x :: before, y, after, rfl, List.forall_mem_cons.2 ⟨hx, hbefore⟩, hy⟩
      · rintro ⟨before, y, after, hsplit, hbefore, hy⟩
        cases before with
        | nil =>
            cases hsplit
            exact .inl hy
        | cons z before =>
            cases hsplit
            rw [List.forall_mem_cons] at hbefore
            exact .inr ⟨hbefore.1, before, y, after, rfl, hbefore.2, hy⟩

end traversal

theorem parse_eq_ok {text : String} {ws : List Word} : parse text = .ok ws ↔
    ∃ tokens, Separated text.toList tokens ∧ List.Forall₂ Spells tokens ws := by
  rw [parse, mapM_eq_ok]
  simp only [word_eq_ok]
  constructor
  · exact fun h => ⟨_, separated_words _, h⟩
  · rintro ⟨tokens, htokens, h⟩
    rwa [htokens.words_eq]

theorem message_eq_iff {e : WordError} {name : String} :
    e.message = "Invalid instruction word '" ++ name ++ "'" ↔ e.token = name := by
  unfold WordError.message
  constructor
  · intro h
    exact (String.append_right_inj _).1 ((String.append_left_inj _).1 h)
  · intro h
    rw [h]

theorem exists_error_iff : (∃ e, word token = .error e) ↔ ∀ w, ¬Spells token w := by
  constructor
  · rintro ⟨e, h⟩ w hw
    rw [word_eq_ok.2 hw] at h
    cases h
  · intro h
    cases hword : word token with
    | ok w => exact absurd (word_eq_ok.1 hword) (h w)
    | error e => exact ⟨e, rfl⟩

theorem parse_eq_error {text : String} :
    (∃ e, parse text = .error e ∧ e.token = String.ofList token) ↔
    ∃ before after, Separated text.toList (before ++ token :: after) ∧
      (∀ t ∈ before, ∃ w, Spells t w) ∧ ∀ w, ¬Spells token w := by
  simp only [parse, mapM_eq_error, word_eq_ok, words_eq_iff, ← exists_error_iff]
  constructor
  · rintro ⟨e, ⟨before, other, after, hwords, hbefore, herror⟩, hname⟩
    have hsame : other = token :=
      String.ofList_injective ((token_of_word_eq_error herror).symm.trans hname)
    subst hsame
    exact ⟨before, after, hwords, hbefore, e, herror⟩
  · rintro ⟨before, after, hwords, hbefore, e, herror⟩
    exact ⟨e, ⟨before, token, after, hwords, hbefore, herror⟩, token_of_word_eq_error herror⟩

/-- A list of words is read if each token spells a word, and as these words; else the first token
that spells none is named. Whatever is printed as words is read as them again. -/
theorem parse_exact :
    (∀ (text : String) (ws : List Word), parse text = .ok ws ↔
      ∃ tokens, Separated text.toList tokens ∧ List.Forall₂ Spells tokens ws) ∧
    (∀ (text : String) (token : List Char), (∃ e, parse text = .error e ∧
        e.message = "Invalid instruction word '" ++ String.ofList token ++ "'") ↔
      ∃ before after, Separated text.toList (before ++ token :: after) ∧
        (∀ t ∈ before, ∃ w, Spells t w) ∧ ∀ w, ¬Spells token w) ∧
    ∀ (text : String) (tokens : List (List Char)) (ws : List Word),
      Separated text.toList tokens → List.Forall₂ Prints tokens ws → parse text = .ok ws := by
  refine ⟨fun text ws => parse_eq_ok, fun text token => ?_, fun text tokens ws htokens hws => ?_⟩
  · simp only [message_eq_iff]
    exact parse_eq_error
  · exact parse_eq_ok.2 ⟨tokens, htokens, hws.imp fun _ _ => Prints.spells⟩

theorem parse_exact_marks :
    parse "\t0x+0010\u2003fF" = .ok [0x10, 0xff] ∧
    (∃ e, parse "1 0x0x2 zz" = .error e ∧
      e.message = "Invalid instruction word '" ++ String.ofList "0x0x2".toList ++ "'") ∧
    Separated "0X001f FF\n".toList ["0X001f".toList, "FF".toList] ∧
    List.Forall₂ Prints ["0X001f".toList, "FF".toList] [0x1f, 0xff] ∧
    parse "0X001f FF\n" = .ok [0x1f, 0xff] := by
  obtain ⟨accepts, refuses, restores⟩ := parse_exact
  have htext : Separated "0X001f FF\n".toList ["0X001f".toList, "FF".toList] :=
    words_eq_iff.1 (by decide)
  have hprints : List.Forall₂ Prints ["0X001f".toList, "FF".toList] [0x1f, 0xff] :=
    .cons ⟨['0', 'X'], by decide, false, 4, by decide⟩
      (.cons ⟨[], by decide, true, 0, by decide⟩ .nil)
  refine ⟨(accepts _ _).2 ?_, (refuses _ _).2 ?_, htext, hprints, restores _ _ _ htext hprints⟩
  · exact ⟨["0x+0010".toList, "fF".toList], words_eq_iff.1 (by decide),
      .cons ⟨['0', 'x'], by decide, ['+'], by decide, "0010".toList, by decide, by decide⟩
        (.cons ⟨[], by decide, [], by decide, "fF".toList, by decide, by decide⟩ .nil)⟩
  · refine ⟨["1".toList], ["zz".toList], words_eq_iff.1 (by decide), ?_, fun w hw => ?_⟩
    · rw [List.forall_mem_singleton]
      exact ⟨1, [], by decide, [], by decide, "1".toList, by decide, by decide⟩
    · have hword := word_eq_ok.2 hw
      have hrefused : word "0x0x2".toList = .error ⟨"0x0x2", .invalidDigit⟩ := by decide
      rw [hrefused] at hword
      cases hword

end Codeword.WordList
