import Codeword.Fermi.Isa
import Codeword.Listing
import Mathlib.Algebra.Group.Nat.Defs
import Mathlib.Order.Basic

namespace Codeword

theorem Isa.addressAt_addressAt (isa : Isa) (base : Word) (i j : Nat) :
    isa.addressAt (isa.addressAt base i) j = isa.addressAt base (i + j) := by
  rw [addressAt, addressAt, addressAt, BitVec.add_assoc, ← BitVec.ofNat_add, Nat.add_mul]

theorem Isa.addressAt_zero (isa : Isa) (base : Word) : isa.addressAt base 0 = base := by
  rw [addressAt, Nat.zero_mul]
  exact BitVec.add_zero base

namespace Sharing

variable {threads workers words : Nat}

theorem double_of_lt {n : Word} (h : n.toNat < 2 ^ 63) (o : Overflow) : double o n = .ok (2 * n) :=
  if_neg fun hover => by omega

theorem double_checked {n : Word} (h : 2 ^ 63 ≤ n.toNat) : double .checked n = .error .overflow :=
  if_pos ⟨rfl, by omega⟩

theorem double_wrapping (n : Word) : double .wrapping n = .ok (2 * n) :=
  if_neg fun hover => absurd hover.1 (by decide)

theorem length_stretches_le {α : Type} {n count : Nat} {hn : 0 < n} {xs : List α}
    (h : xs.length ≤ count * n) : (stretches n hn xs).length ≤ count := by
  induction count generalizing xs with
  | zero =>
      have hnil : xs = [] := by simpa using h
      subst hnil
      rw [stretches]
      exact Nat.le_refl 0
  | succ count ih =>
      cases xs with
      | nil =>
          rw [stretches]
          exact Nat.zero_le _
      | cons x xs =>
          rw [stretches, List.length_cons]
          apply Nat.succ_le_succ
          apply ih
          rw [Nat.succ_mul] at h
          rw [List.length_drop]
          omega

theorem share_pos_iff (h : 0 < workers) : 0 < share workers words ↔ 0 < words := by
  rw [share, Nat.div_pos_iff]
  omega

theorem le_mul_share (h : 0 < workers) (words : Nat) : words ≤ workers * share workers words := by
  have hlt := Nat.lt_mul_div_succ (words + workers - 1) h
  rw [Nat.mul_succ] at hlt
  rw [share]
  omega

end Sharing

namespace Decoder

open Sharing

theorem decodeWords_append (d : Decoder) (ws vs : List Word) (base : Word) :
    d.decodeWords (ws ++ vs) base =
      d.decodeWords ws base ++ d.decodeWords vs (d.isa.addressAt base ws.length) := by
  simp only [decodeWords, List.mapIdx_append, Isa.addressAt_addressAt, Nat.add_comm ws.length]

theorem decodeWords_take_drop (d : Decoder) (ws : List Word) (base : Word) (n : Nat) :
    d.decodeWords (ws.take n) base ++ d.decodeWords (ws.drop n) (d.isa.addressAt base n) =
      d.decodeWords ws base := by
  rcases Nat.le_total n ws.length with hle | hge
  · have hlength : (ws.take n).length = n := by
      rw [List.length_take]
      omega
    have happend := decodeWords_append d (ws.take n) (ws.drop n) base
    rw [List.take_append_drop, hlength] at happend
    exact happend.symm
  · rw [List.take_of_length_le hge, List.drop_of_length_le hge]
    exact List.append_nil _

theorem flatten_decodeWords_stretches {n : Nat} (hn : 0 < n) (d : Decoder) (ws : List Word)
    (base : Word) :
    ((stretches n hn ws).mapIdx fun i part =>
        d.decodeWords part (d.isa.addressAt base (i * n))).flatten = d.decodeWords ws base := by
  fun_induction stretches n hn ws generalizing base with
  | case1 => rfl
  | case2 w ws ih =>
      have hnext (i : Nat) : d.isa.addressAt base ((i + 1) * n) =
          d.isa.addressAt (d.isa.addressAt base n) (i * n) := by
        rw [Isa.addressAt_addressAt, Nat.succ_mul, Nat.add_comm]
      rw [List.mapIdx_cons, List.flatten_cons, Nat.zero_mul, Isa.addressAt_zero]
      simp only [hnext]
      rw [ih, decodeWords_take_drop]

theorem flatMap_get_stretches {n : Nat} (hn : 0 < n) (d : Decoder) (ws : List Word) (base : Word) :
    ((stretches n hn ws).mapIdx fun i part =>
        Task.spawn fun _ => d.decodeWords part (d.isa.addressAt base (i * n))).flatMap Task.get =
      d.decodeWords ws base := by
  rw [← flatten_decodeWords_stretches hn]
  simp only [List.flatMap, List.mapIdx_eq_zipIdx_map, List.map_map]
  rfl

/-- Why some words cannot be shared out. Where the product wraps, only the count whose double is
zero is bad, and only if there is no word. -/
def refusal (o : Overflow) (threads : Word) (words : Nat) : Option SharingError :=
  match o with
  | .checked => if 2 ^ 63 ≤ threads.toNat then some .overflow else none
  | .wrapping => if threads.toNat = 2 ^ 63 ∧ words = 0 then some .emptyShare else none

theorem refusal_of_lt {threads : Word} (h : threads.toNat < 2 ^ 63) (o : Overflow) (words : Nat) :
    refusal o threads words = none := by
  cases o with
  | checked => exact if_neg (Nat.not_le.2 h)
  | wrapping => exact if_neg fun hbad => Nat.ne_of_lt h hbad.1

section Workers

variable {o : Overflow} {threads : Word}

theorem decodeParallel_of_le_one (h : threads.toNat ≤ 1) (d : Decoder) (o : Overflow)
    (ws : List Word) (base : Word) :
    d.decodeParallel o ws base threads = .ok (d.decodeWords ws base) := by
  have hone : (if threads = 0 then 1 else threads) = 1 := by
    split
    next => rfl
    next hzero =>
      have hpos := BitVec.toNat_pos_of_ne_zero hzero
      exact BitVec.eq_of_toNat_eq (Nat.le_antisymm h hpos)
  rw [decodeParallel]
  dsimp only
  rw [if_pos hone]
  rfl

theorem decodeParallel_of_one_lt (h : 1 < threads.toNat) (d : Decoder) (o : Overflow)
    (ws : List Word) (base : Word) : d.decodeParallel o ws base threads =
      (double o threads).bind fun least =>
        if least.toNat = 0 ∧ ws.length = 0 then .error .emptyShare
        else .ok (d.decodeWords ws base) := by
  have hpos : 0 < threads.toNat := Nat.lt_trans Nat.zero_lt_one h
  have hzero : threads ≠ 0 := fun hzero => by simp [hzero] at h
  have hone : threads ≠ 1 := fun hone => by simp [hone] at h
  rw [decodeParallel]
  dsimp only
  rw [if_neg hzero, if_neg hone]
  refine congrArg (Except.bind (double o threads)) (funext fun least => ?_)
  by_cases hfew : ws.length < least.toNat
  · rw [if_pos hfew, if_neg (by omega)]
    rfl
  rw [if_neg hfew]
  by_cases hwords : 0 < ws.length
  · rw [dif_pos ((share_pos_iff hpos).2 hwords), if_neg (by omega), flatMap_get_stretches]
    rfl
  · rw [dif_neg (mt (share_pos_iff hpos).1 hwords), if_pos (by omega)]
    rfl

/-- Whatever the number of workers, all words are decoded as one after the other, or none is. -/
theorem decodeParallel_eq (d : Decoder) (o : Overflow) (ws : List Word) (base threads : Word) :
    d.decodeParallel o ws base threads =
      match refusal o threads ws.length with
      | some e => .error e
      | none => .ok (d.decodeWords ws base) := by
  by_cases hone : threads.toNat ≤ 1
  · have hsmall : threads.toNat < 2 ^ 63 := by omega
    rw [decodeParallel_of_le_one hone, refusal_of_lt hsmall]
  rw [decodeParallel_of_one_lt (Nat.lt_of_not_le hone)]
  rcases Nat.lt_or_ge threads.toNat (2 ^ 63) with hsmall | hlarge
  · have hdouble : (2 * threads).toNat = 2 * threads.toNat % 2 ^ 64 := BitVec.toNat_mul 2 threads
    rw [double_of_lt hsmall, refusal_of_lt hsmall]
    exact if_neg (by omega)
  cases o with
  | checked =>
      rw [double_checked hlarge, refusal, if_pos hlarge]
      rfl
  | wrapping =>
      -- The double is zero only of 2 ^ 63.
      have hdouble : (2 * threads).toNat = 0 ↔ threads.toNat = 2 ^ 63 := by
        have hlt := threads.isLt
        rw [BitVec.toNat_mul]
        change 2 * threads.toNat % 2 ^ 64 = 0 ↔ _
        omega
      rw [double_wrapping, refusal]
      change (if (2 * threads).toNat = 0 ∧ ws.length = 0 then _ else _) = _
      simp only [hdouble]
      split <;> rfl

end Workers

theorem decodeParallel_of_lt {threads : Word} (h : threads.toNat < 2 ^ 63) (d : Decoder)
    (o : Overflow) (ws : List Word) (base : Word) :
    d.decodeParallel o ws base threads = .ok (d.decodeWords ws base) := by
  rw [decodeParallel_eq, refusal_of_lt h]

/-- With less than 2 ^ 63 workers nothing fails, and their number makes no difference to what is
decoded, nor to a listing. No stretch has length zero, and there are not more of them than workers
that were asked for. -/
theorem decodeParallel_eq_decodeWords (d : Decoder) (o : Overflow) (ws : List Word)
    (base : Word) {threads : Word} (h : threads.toNat < 2 ^ 63) :
    d.decodeParallel o ws base threads = .ok (d.decodeWords ws base) ∧
      (∀ others : Word, others.toNat < 2 ^ 63 →
        Listing.build d o ws base threads = Listing.build d o ws base others) ∧
      (1 < threads.toNat ∧ 2 * threads.toNat ≤ ws.length →
        ∃ hn : 0 < share threads.toNat ws.length,
          (stretches (share threads.toNat ws.length) hn ws).length ≤ threads.toNat) := by
  refine ⟨decodeParallel_of_lt h d o ws base, fun others hothers => ?_, fun ⟨hmany, hwords⟩ => ?_⟩
  · rw [Listing.build, Listing.build, decodeParallel_of_lt h, decodeParallel_of_lt hothers]
  · have hpos : 0 < threads.toNat := Nat.lt_trans Nat.zero_lt_one hmany
    exact ⟨(share_pos_iff hpos).2 (by omega), length_stretches_le (le_mul_share hpos ws.length)⟩

theorem decodeParallel_eq_decodeWords_wrap :
    let d : Decoder := { isa := Fermi.isa }
    let ws : List Word := [0x8000000000001de7, 0x5000000000000007, 0x1c03, 0, 0x4000000000001de7]
    (2 : Word).toNat < 2 ^ 63 ∧ (0x7fffffffffffffff : Word).toNat < 2 ^ 63 ∧
      d.decodeParallel .checked ws 0xfffffffffffffff0 2 =
        .ok (d.decodeWords ws 0xfffffffffffffff0) ∧
      Listing.build d .checked ws 0xfffffffffffffff0 2 =
        Listing.build d .checked ws 0xfffffffffffffff0 0x7fffffffffffffff ∧
      ∃ hn : 0 < 3, (stretches 3 hn ws).length ≤ 2 := by
  intro d ws
  have htwo : (2 : Word).toNat < 2 ^ 63 := by decide
  have hmost : (0x7fffffffffffffff : Word).toNat < 2 ^ 63 := by decide
  obtain ⟨hwords, hlisting, hstretches⟩ :=
    decodeParallel_eq_decodeWords d .checked ws 0xfffffffffffffff0 htwo
  have hshare : share (2 : Word).toNat ws.length = 3 := by decide
  rw [hshare] at hstretches
  exact ⟨htwo, hmost, hwords, hlisting _ hmost, hstretches (by decide)⟩

end Decoder

end Codeword
