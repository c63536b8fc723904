import Codeword.Proofs.Bitstream.Cursor
import Codeword.Proofs.Bitstream.Truncation

namespace Codeword

namespace ExpGolomb

/-- A code word: a one with at most 31 zeros in front of it and as many digits behind it. -/
def IsWord (bs : List Bool) : Prop :=
  ∃ digits : List Bool, digits.length ≤ 31 ∧
    bs = List.replicate digits.length false ++ true :: digits

/-- The bits are the beginning of a code word of which something is missing. -/
def EndsInside (bs : List Bool) : Prop := ∃ more, more ≠ [] ∧ IsWord (bs ++ more)

theorem zeros_cases (bs : List Bool) :
    (∃ n, bs = List.replicate n false) ∨
      ∃ n rest, bs = List.replicate n false ++ true :: rest := by
  induction bs with
  | nil => exact .inl ⟨0, rfl⟩
  | cons b bs ih =>
      cases b with
      | true => exact .inr ⟨0, bs, rfl⟩
      | false =>
          rcases ih with ⟨n, rfl⟩ | ⟨n, rest, rfl⟩
          · exact .inl ⟨n + 1, rfl⟩
          · exact .inr ⟨n + 1, rest, rfl⟩

theorem takeWhile_zeros (n : Nat) :
    (List.replicate n false).takeWhile (!·) = List.replicate n false := by
  simp

theorem takeWhile_zeros_append (n : Nat) (rest : List Bool) :
    (List.replicate n false ++ true :: rest).takeWhile (!·) = List.replicate n false := by
  rw [List.takeWhile_append_of_pos (by simp)]
  simp

theorem le_zeros_iff {n : Nat} {bs : List Bool} :
    n ≤ (bs.takeWhile (!·)).length ↔ List.replicate n false <+: bs := by
  constructor
  · intro h
    rcases zeros_cases bs with ⟨k, rfl⟩ | ⟨k, rest, rfl⟩
    · rw [takeWhile_zeros, List.length_replicate] at h
      exact ⟨List.replicate (k - n) false, by rw [List.replicate_append_replicate]; congr; omega⟩
    · rw [takeWhile_zeros_append, List.length_replicate] at h
      refine ⟨List.replicate (k - n) false ++ true :: rest, ?_⟩
      rw [← List.append_assoc, List.replicate_append_replicate]
      congr
      omega
  · rintro ⟨rest, rfl⟩
    rw [List.takeWhile_append_of_pos (by simp), List.length_append, List.length_replicate]
    exact Nat.le_add_right _ _

theorem endsInside_iff {bs : List Bool} :
    EndsInside bs ↔ (bs.takeWhile (!·)).length < 32 ∧
      bs.length < 2 * (bs.takeWhile (!·)).length + 1 := by
  constructor
  · rintro ⟨more, hmore, digits, hdigits, hword⟩
    have hzeros : ((bs ++ more).takeWhile (!·)).length = digits.length := by
      rw [hword, takeWhile_zeros_append, List.length_replicate]
    have hlength := congrArg List.length hword
    have hpos := List.length_pos_iff.2 hmore
    simp only [List.length_append, List.length_replicate, List.length_cons] at hlength
    have hle := BitReader.length_takeWhile_le_append (!·) bs more
    refine ⟨by omega, ?_⟩
    -- Either all bits are zeros, or the word has no more zeros than they have.
    by_cases hall : (bs.takeWhile (!·)).length < bs.length
    · rw [BitReader.takeWhile_append_of_lt hall] at hzeros
      omega
    · omega
  · rintro ⟨hzeros, hshort⟩
    rcases zeros_cases bs with ⟨n, rfl⟩ | ⟨n, rest, rfl⟩
    · rw [takeWhile_zeros, List.length_replicate] at hzeros
      refine ⟨true :: List.replicate n false, by simp, List.replicate n false, ?_, ?_⟩
      · rw [List.length_replicate]
        omega
      · rw [List.length_replicate]
    · rw [takeWhile_zeros_append, List.length_replicate] at hzeros hshort
      rw [List.length_append, List.length_replicate, List.length_cons] at hshort
      have hdigits : (rest ++ List.replicate (n - rest.length) false).length = n := by
        rw [List.length_append, List.length_replicate]
        omega
      refine ⟨List.replicate (n - rest.length) false, ?_,
        rest ++ List.replicate (n - rest.length) false, by omega, ?_⟩
      · rw [Ne, List.replicate_eq_nil_iff]
        omega
      · rw [hdigits, List.append_assoc, List.cons_append]

instance : DecidablePred EndsInside := fun _ => decidable_of_iff _ endsInside_iff.symm

theorem IsWord.length_le {word : List Bool} (h : IsWord word) : word.length ≤ 63 := by
  obtain ⟨digits, hdigits, rfl⟩ := h
  rw [List.length_append, List.length_replicate, List.length_cons]
  omega

/-- Bits begin with a code word, or with too many zeros for one, or they end before it does. -/
theorem word_cases (bs : List Bool) : List.replicate 32 false <+: bs ∨ EndsInside bs ∨
    ∃ word, IsWord word ∧ word <+: bs ∧ word.length ≤ 63 := by
  by_cases hzeros : 32 ≤ (bs.takeWhile (!·)).length
  · exact .inl (le_zeros_iff.1 hzeros)
  by_cases hshort : bs.length < 2 * (bs.takeWhile (!·)).length + 1
  · exact .inr (.inl (endsInside_iff.2 ⟨Nat.lt_of_not_le hzeros, hshort⟩))
  · obtain ⟨digits, rest, rfl⟩ := BitReader.eq_codeWord (Nat.le_of_not_lt hshort)
    rw [BitReader.takeWhile_codeWord] at hzeros
    have hword : IsWord (List.replicate digits.length false ++ true :: digits) :=
      ⟨digits, by omega, rfl⟩
    exact .inr (.inr ⟨_, hword, ⟨rest, rfl⟩, hword.length_le⟩)

end ExpGolomb

section Padding

variable {r : BitReader}

namespace BitReader

theorem padding_cases {fill : Bool} {n : Nat} (h : n ≤ r.rest.length) :
    (r.rest.take n = List.replicate n fill ∧ padding fill n r = (.ok (), r.skip n)) ∨
      ∃ k < n, r.rest.take k = List.replicate k fill ∧ r.rest[k]? = some (!fill) ∧
        padding fill n r =
          (.error (.inferMismatch fill.toNat (!fill).toNat), r.skip (k + 1)) := by
  induction n generalizing r with
  | zero => exact .inl ⟨rfl, rfl⟩
  | succ n ih =>
      obtain ⟨position, rest⟩ := r
      cases rest with
      | nil => simp at h
      | cons b rest =>
          by_cases hb : b = fill
          · subst hb
            have hstep : padding b (n + 1) ⟨position, b :: rest⟩ =
                padding b n ⟨position + 1, rest⟩ := by
              rw [padding]
              simp [skip]
            have hskip (k : Nat) : skip ⟨position + 1, rest⟩ k =
                skip ⟨position, b :: rest⟩ (k + 1) := by
              simp only [skip, List.drop_succ_cons]
              congr 1
              omega
            rw [hstep]
            rcases ih (r := ⟨position + 1, rest⟩) (Nat.le_of_succ_le_succ h) with
              ⟨htake, hok⟩ | ⟨k, hk, htake, hwrong, herror⟩
            · refine .inl ⟨?_, by rw [hok, hskip]⟩
              rw [List.take_succ_cons, htake, List.replicate_succ]
            · refine .inr ⟨k + 1, Nat.succ_lt_succ hk, ?_, hwrong, by rw [herror, hskip]⟩
              rw [List.take_succ_cons, htake, List.replicate_succ]
          · have hwrong : b = !fill := Bool.eq_not.2 hb
            refine .inr ⟨0, Nat.succ_pos n, rfl, by rw [hwrong]; rfl, ?_⟩
            rw [padding]
            simp [hwrong]

end BitReader

end Padding

namespace BitCursor

open ExpGolomb

variable {α : Type} {c : BitCursor}

def ending (c : BitCursor) : Nat := c.position + c.left.length

/-- The step fails with `e` exactly under the condition, and then stands at `position`. -/
structure FailsIff (result : Except StreamError Unit × α × BitCursor) (e : StreamError)
    (condition : Prop) (position : Nat) : Prop where
  error_iff : result.1 = .error e ↔ condition
  position_eq : condition → result.2.2.position = position

section

variable {result : Except StreamError Unit × α × BitCursor} {e : StreamError} {condition : Prop}
  {position : Nat}

theorem FailsIff.of_error (h : condition) (herror : result.1 = .error e)
    (hposition : result.2.2.position = position) : FailsIff result e condition position :=
  ⟨iff_of_true herror h, fun _ => hposition⟩

theorem FailsIff.of_not (h : ¬condition) (hresult : result.1 ≠ .error e) :
    FailsIff result e condition position :=
  ⟨iff_of_false hresult h, fun hcondition => absurd hcondition h⟩

end

theorem u_failsIff {n : Nat} (h : n ≤ 32) (v : UInt32) (c : BitCursor) :
    FailsIff (u n v c) .endOfStream (c.left.length < n) c.ending := by
  by_cases hshort : c.left.length < n
  · rw [u_of_short h hshort]
    exact .of_error hshort rfl rfl
  · rw [u_of_le h (Nat.le_of_not_lt hshort)]
    exact .of_not hshort (by simp)

/-- How a step that takes one code word ends, told by the bits that are left. -/
structure TakesWord (c : BitCursor) (value : Nat → α)
    (result : Except StreamError Unit × α × BitCursor) : Prop where
  overflow : FailsIff result .expGolombOverflow (List.replicate 32 false <+: c.left)
    (c.position + 32)
  endOfStream : FailsIff result .endOfStream (EndsInside c.left) c.ending
  ok : ∀ word, IsWord word → word <+: c.left →
    result = (.ok (), value (Bits.toNat word - 1), c.advance word.length)

theorem readUe_of_isWord {word : List Bool} (h : IsWord word) (hbegin : word <+: c.left) :
    c.readUe = (.ok (UInt32.ofNat (Bits.toNat word - 1)), c.advance word.length) ∧
      Bits.toNat word - 1 < 2 ^ 32 := by
  obtain ⟨digits, hdigits, rfl⟩ := h
  obtain ⟨rest, hrest⟩ := hbegin
  have hlength : (List.replicate digits.length false ++ true :: digits).length =
      2 * digits.length + 1 := by
    rw [List.length_append, List.length_replicate, List.length_cons]
    omega
  have hvalue : Bits.toNat (List.replicate digits.length false ++ true :: digits) =
      Bits.toNat (true :: digits) := by
    rw [Bits.toNat_append, Bits.toNat_replicate_false, Nat.mul_zero, Nat.zero_add]
  have hlt := Bits.toNat_lt (true :: digits)
  have hpow : 2 ^ (true :: digits).length ≤ 2 ^ 32 :=
    Nat.pow_le_pow_right (by decide) (Nat.succ_le_succ hdigits)
  rw [hlength, hvalue]
  exact ⟨readUe_of_word hdigits hrest.symm, by omega⟩

theorem store_takesWord {f : UInt32 → α} {value : Nat → α}
    (hvalue : ∀ code < 2 ^ 32, f (UInt32.ofNat code) = value code) (v : α) (c : BitCursor) :
    TakesWord c value (store f v c.readUe) := by
  have hok (word : List Bool) (hword : IsWord word) (hbegin : word <+: c.left) :
      store f v c.readUe = (.ok (), value (Bits.toNat word - 1), c.advance word.length) := by
    obtain ⟨hread, hlt⟩ := readUe_of_isWord hword hbegin
    rw [hread, ← hvalue _ hlt]
    rfl
  by_cases hzeros : 32 ≤ c.zeros
  · have hmany : List.replicate 32 false <+: c.left := le_zeros_iff.1 hzeros
    have hinside : ¬EndsInside c.left := fun h => Nat.not_lt.2 hzeros (endsInside_iff.1 h).1
    have hread := readUe_of_zeros hzeros
    refine ⟨.of_error hmany ?_ ?_, .of_not hinside ?_, hok⟩ <;> simp [hread, store, advance]
  have hfew : ¬List.replicate 32 false <+: c.left := mt le_zeros_iff.2 hzeros
  by_cases hshort : c.left.length < 2 * c.zeros + 1
  · have hinside : EndsInside c.left := endsInside_iff.2 ⟨Nat.lt_of_not_le hzeros, hshort⟩
    have hread := readUe_of_short (Nat.lt_of_not_le hzeros) hshort
    refine ⟨.of_not hfew ?_, .of_error hinside ?_ ?_, hok⟩ <;>
      simp [hread, store, advance, ending]
  · have hinside : ¬EndsInside c.left := fun h => hshort (endsInside_iff.1 h).2
    obtain ⟨word, hword, hbegin, -⟩ := ((word_cases c.left).resolve_left hfew).resolve_left hinside
    have hread := hok word hword hbegin
    refine ⟨.of_not hfew ?_, .of_not hinside ?_, hok⟩ <;> simp [hread]

theorem ue_takesWord (v : UInt32) (c : BitCursor) : TakesWord c UInt32.ofNat (ue v c) :=
  store_takesWord (f := id) (fun _ _ => rfl) v c

theorem se_takesWord (v : Int32) (c : BitCursor) :
    TakesWord c (fun code => Int32.ofInt (intOfCode code)) (se v c) :=
  store_takesWord (fun code hlt => by rw [UInt32.toNat_ofNat_of_lt' hlt]) v c

theorem align_cases {fill : Bool} {gap : Nat} (hgap : gap = (8 - c.position % 8) % 8)
    (h : gap ≤ c.left.length) :
    (c.left.take gap = List.replicate gap fill ∧ align fill () c = (.ok (), (), c.advance gap)) ∨
      ∃ k < gap, c.left.take k = List.replicate k fill ∧ c.left[k]? = some (!fill) ∧
        align fill () c =
          (.error (.inferMismatch fill.toNat (!fill).toNat), (), c.advance (k + 1)) := by
  have halign : align fill () c =
      store id () (c.follow (BitReader.padding fill gap c.view)) := by
    rw [align, readFill_eq, hgap]
    rfl
  rw [halign]
  have hview : gap ≤ c.view.rest.length := h
  rcases BitReader.padding_cases hview with
    ⟨htake, hok⟩ | ⟨k, hk, htake, hwrong, herror⟩
  · exact .inl ⟨htake, by rw [hok]; rfl⟩
  · exact .inr ⟨k, hk, htake, hwrong, by rw [herror]; rfl⟩

theorem eq_of_visit_error {q : Request α} {v v' : α} {e : StreamError} {c' : BitCursor}
    (h : q.visit v c = (.error e, v', c')) : v' = v := by
  rw [visit_eq, Prod.mk.injEq, Prod.mk.injEq] at h
  have hread : q.code.read v c.view = (.error e, v', (q.code.read v c.view).2.2) :=
    Prod.ext h.1 (Prod.ext h.2.1 rfl)
  exact q.eq_of_read_error hread

/-- Wherever some requests have left a reader of bytes, it stands inside of them or at their end,
and others bring it no way back. What fails leaves the caller's value as it was. A number of `n` bits
fails where fewer are left, a code word where there are 32 zeros or the data ends inside of it, and
padding where a bit is wrong: it cannot run out of bits, as the data has whole bytes. -/
theorem errors_exact (bytes : List UInt8) (as : List Asked) :
    let c : BitCursor := after ⟨bytes, 0⟩ as
    let gap := (8 - c.position % 8) % 8
    (c.bytes = bytes ∧ c.position ≤ 8 * bytes.length ∧ c.ending = 8 * bytes.length ∧
      ∀ more, c.position ≤ (c.after more).position) ∧
    (∀ (α : Type) (q : Request α) (v v' : α) (e : StreamError) (c' : BitCursor),
      q.visit v c = (.error e, v', c') → v' = v) ∧
    (∀ n ≤ 32, ∀ v, FailsIff (u n v c) .endOfStream (c.left.length < n) c.ending ∧
      (n ≤ c.left.length →
        u n v c = (.ok (), UInt32.ofNat (Bits.toNat (c.left.take n)), c.advance n))) ∧
    ((List.replicate 32 false <+: c.left ∨ EndsInside c.left ∨
        ∃ word, IsWord word ∧ word <+: c.left ∧ word.length ≤ 63) ∧
      (∀ v, TakesWord c UInt32.ofNat (ue v c)) ∧
      ∀ v, TakesWord c (fun code => Int32.ofInt (intOfCode code)) (se v c)) ∧
    ∀ fill,
      (c.left.take gap = List.replicate gap fill ∧ align fill () c = (.ok (), (), c.advance gap)) ∨
      ∃ k < gap, c.left.take k = List.replicate k fill ∧ c.left[k]? = some (!fill) ∧
        align fill () c =
          (.error (.inferMismatch fill.toNat (!fill).toNat), (), c.advance (k + 1)) := by
  intro c gap
  obtain ⟨n, hn, hafter⟩ := exists_advance_after ⟨bytes, 0⟩ as
  have hbytes : c.bytes = bytes := congrArg BitCursor.bytes hafter
  have hposition : c.position = n := (congrArg position hafter).trans (Nat.zero_add n)
  have hlength := Bits.length_ofBytes bytes
  have hleft : c.left.length = 8 * bytes.length - n := by
    rw [left, hbytes, hposition, List.length_drop, hlength]
  change n ≤ (Bits.ofBytes bytes).length at hn
  have hending : c.ending = 8 * bytes.length := by
    rw [ending]
    omega
  have hforward (more : List Asked) : c.position ≤ (c.after more).position := by
    obtain ⟨m, -, hmore⟩ := exists_advance_after c more
    rw [hmore]
    exact Nat.le_add_right _ _
  exact ⟨⟨hbytes, by omega, hending, hforward⟩, fun _ _ _ _ _ _ h => eq_of_visit_error h,
    fun n hn v => ⟨u_failsIff hn v c, fun hlong => u_of_le hn hlong v⟩,
    ⟨word_cases c.left, (ue_takesWord · c), (se_takesWord · c)⟩,
    fun fill => align_cases rfl (by omega)⟩

theorem errors_exact_zeros :
    let c := after ⟨[0, 0, 0, 0], 0⟩ []
    let c' := after ⟨[0, 0, 0, 0], 0⟩ [⟨.call (.u 1), (7 : UInt32)⟩]
    let long := after ⟨[0, 0, 0, 1, 255, 255, 255, 254], 0⟩ []
    ((ue 5 c).1 = .error .expGolombOverflow ∧ (ue 5 c).2.2.position = 32 ∧ (ue 5 c).2.1 = 5) ∧
      ((se 0 c').1 = .error .endOfStream ∧ (se 0 c').2.2.position = 32) ∧
      ((u 32 7 c').1 = .error .endOfStream ∧ u 31 7 c' = (.ok (), 0, c'.advance 31)) ∧
      ue 5 long = (.ok (), 0xfffffffe, long.advance 63) ∧
      align true () c' = (.error (.inferMismatch 1 0), (), c'.advance 1) := by
  intro c c' long
  obtain ⟨-, hfield, -, ⟨-, hue, -⟩, -⟩ := errors_exact [0, 0, 0, 0] []
  obtain ⟨-, -, hu, ⟨-, -, hse⟩, halign⟩ :=
    errors_exact [0, 0, 0, 0] [⟨.call (.u 1), (7 : UInt32)⟩]
  obtain ⟨-, -, -, ⟨-, hlong, -⟩, -⟩ := errors_exact [0, 0, 0, 1, 255, 255, 255, 254] []
  have hzeros : List.replicate 32 false <+: c.left := by decide
  have hinside : EndsInside c'.left := by decide
  have hoverflow := (hue 5).overflow.error_iff.2 hzeros
  have hkept : (ue 5 c).2.1 = 5 :=
    hfield _ (.call .ue) 5 _ .expGolombOverflow (ue 5 c).2.2 (Prod.ext hoverflow rfl)
  have hshort := (hu 32 (by decide) 7).1.error_iff.2 (by decide)
  have hword := (hlong 5).ok (List.replicate 31 false ++ true :: List.replicate 31 true)
    ⟨List.replicate 31 true, by decide, rfl⟩ (by decide)
  refine ⟨⟨hoverflow, (hue 5).overflow.position_eq hzeros, hkept⟩,
    ⟨(hse 0).endOfStream.error_iff.2 hinside, (hse 0).endOfStream.position_eq hinside⟩,
    ⟨hshort, ?_⟩, ?_, ?_⟩
  · exact (hu 31 (by decide) 7).2 (by decide)
  · exact hword
  · rcases halign true with ⟨hall, -⟩ | ⟨k, hk, htake, -, herror⟩
    · exact absurd hall (by decide)
    · have hfirst : k = 0 := by
        revert htake
        have hbound : k < 7 := hk
        interval_cases k <;> decide
      rw [hfirst] at herror
      exact herror

end BitCursor

end Codeword
