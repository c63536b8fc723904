import Codeword.Proofs.Bitstream.Requests
import Codeword.Proofs.Bitstream.StopBit

namespace Codeword

namespace BitCursor

open Bits

variable {α β : Type} {c : BitCursor} {n : Nat}

def left (c : BitCursor) : List Bool := (ofBytes c.bytes).drop c.position

theorem left_advance (c : BitCursor) (n : Nat) : (c.advance n).left = c.left.drop n := by
  rw [left, left, List.drop_drop]
  rfl

theorem advance_advance (c : BitCursor) (m n : Nat) :
    (c.advance m).advance n = c.advance (m + n) := by
  rw [advance, advance, advance, Nat.add_assoc]

theorem readBit_of_nil (h : c.left = []) : c.readBit = (.error .endOfStream, c) := by
  have hnone : (ofBytes c.bytes)[c.position]? = none := by
    rw [← Nat.add_zero c.position, ← List.getElem?_drop]
    exact congrArg (·[0]?) h
  rw [getElem?_ofBytes, Option.map_eq_none_iff] at hnone
  rw [readBit, hnone]

theorem readBit_of_cons {b : Bool} {bs : List Bool} (h : c.left = b :: bs) :
    c.readBit = (.ok b, c.advance 1) := by
  have hsome : (ofBytes c.bytes)[c.position]? = some b := by
    rw [← Nat.add_zero c.position, ← List.getElem?_drop]
    exact congrArg (·[0]?) h
  rw [getElem?_ofBytes, Option.map_eq_some_iff] at hsome
  obtain ⟨byte, hbyte, rfl⟩ := hsome
  rw [readBit, hbyte]

theorem left_of_cons {b : Bool} {bs : List Bool} (h : c.left = b :: bs) :
    (c.advance 1).left = bs := by
  rw [left_advance, h]
  rfl

theorem readOnto_eq (acc : UInt64) (n : Nat) (c : BitCursor) : readOnto acc n c =
    if c.left.length < n then (.error .endOfStream, c.advance c.left.length)
    else (.ok ((c.left.take n).foldl pushBit acc), c.advance n) := by
  induction n generalizing acc c with
  | zero => rfl
  | succ n ih =>
      rw [readOnto]
      cases h : c.left with
      | nil =>
          rw [readBit_of_nil h]
          rfl
      | cons b bs =>
          rw [readBit_of_cons h]
          dsimp only
          rw [ih, left_of_cons h, advance_advance, advance_advance, Nat.add_comm 1, Nat.add_comm 1]
          simp only [List.length_cons, Nat.succ_lt_succ_iff, List.take_succ_cons, List.foldl_cons]

theorem toNat_pushBit {acc : UInt64} (h : acc.toNat < 2 ^ 63) (b : Bool) :
    (pushBit acc b).toNat = 2 * acc.toNat + b.toNat := by
  have hshift : acc.toNat <<< 1 % 2 ^ 64 = acc.toNat <<< 1 := by
    rw [Nat.shiftLeft_eq]
    omega
  have hbit : b.toUInt64.toNat = b.toNat := by cases b <;> rfl
  have hlt : b.toNat < 2 ^ 1 := Bool.toNat_lt b
  rw [pushBit, UInt64.toNat_or, UInt64.toNat_shiftLeft, hbit]
  change acc.toNat <<< 1 % 2 ^ 64 ||| b.toNat = _
  rw [hshift, ← Nat.shiftLeft_add_eq_or_of_lt hlt, Nat.shiftLeft_eq]
  omega

theorem toNat_foldl_pushBit {acc : UInt64} {bs : List Bool}
    (h : 2 ^ bs.length * (acc.toNat + 1) ≤ 2 ^ 64) :
    (bs.foldl pushBit acc).toNat = 2 ^ bs.length * acc.toNat + Bits.toNat bs := by
  induction bs generalizing acc with
  | nil => simp [Bits.toNat]
  | cons b bs ih =>
      have hpow : 1 ≤ 2 ^ bs.length := Nat.one_le_two_pow
      have hsucc : 2 ^ (b :: bs).length = 2 * 2 ^ bs.length := by
        rw [List.length_cons, Nat.pow_succ, Nat.mul_comm]
      have hacc : acc.toNat < 2 ^ 63 := by
        rw [hsucc] at h
        nlinarith
      have hpush := toNat_pushBit hacc b
      have hb := Bool.toNat_lt b
      rw [List.foldl_cons, ih, hpush, toNat_cons, hsucc]
      · ring
      · rw [hpush]
        rw [hsucc] at h
        nlinarith

def view (c : BitCursor) : BitReader := ⟨c.position, c.left⟩

/-- What a reader gives, and the place among the bytes that it has come to. -/
def follow (c : BitCursor) (r : BitReader.Result α) : Result α :=
  (r.1, { c with position := r.2.position })

theorem follow_exhausted (c : BitCursor) :
    c.follow (c.view.exhausted : BitReader.Result α) = (.error .endOfStream, c.advance c.left.length) :=
  rfl

theorem view_advance (c : BitCursor) (n : Nat) : (c.advance n).view = c.view.skip n := by
  rw [view, left_advance]
  rfl

theorem readBits_eq {n : Nat} (h : n ≤ 64) (c : BitCursor) : ∃ v : UInt64,
    v.toNat = Bits.toNat (c.left.take n) ∧ c.readBits n =
      if c.left.length < n then (.error .endOfStream, c.advance c.left.length)
      else (.ok v, c.advance n) := by
  refine ⟨(c.left.take n).foldl pushBit 0, ?_, readOnto_eq 0 n c⟩
  have hpow : 2 ^ (c.left.take n).length ≤ 2 ^ 64 :=
    Nat.pow_le_pow_right (by decide) (Nat.le_trans (List.length_take_le n c.left) h)
  have hroom : 2 ^ (c.left.take n).length * ((0 : UInt64).toNat + 1) ≤ 2 ^ 64 := by simpa using hpow
  simpa using toNat_foldl_pushBit hroom

theorem u_of_short (h : n ≤ 32) (hshort : c.left.length < n) (v : UInt32) :
    u n v c = (.error .endOfStream, v, c.advance c.left.length) := by
  obtain ⟨value, -, hread⟩ := readBits_eq (n := n) (by omega) c
  rw [u, if_neg (Nat.not_lt.2 h), hread, if_pos hshort]
  rfl

theorem u_of_le (h : n ≤ 32) (hlong : n ≤ c.left.length) (v : UInt32) :
    u n v c = (.ok (), UInt32.ofNat (Bits.toNat (c.left.take n)), c.advance n) := by
  obtain ⟨value, hvalue, hread⟩ := readBits_eq (n := n) (by omega) c
  rw [u, if_neg (Nat.not_lt.2 h), hread, if_neg (Nat.not_lt.2 hlong), ← hvalue]
  rfl

theorem u_eq (bits : Nat) (v : UInt32) (c : BitCursor) :
    u bits v c = store id v (c.follow (c.view.u bits)) := by
  rw [BitReader.u]
  by_cases hwide : 32 < bits
  · rw [u, if_pos hwide, if_pos hwide]
    rfl
  have hbits : bits ≤ 32 := Nat.le_of_not_lt hwide
  rw [if_neg hwide]
  by_cases hshort : c.left.length < bits
  · have hview : c.view.rest.length < bits := hshort
    rw [u_of_short hbits hshort, if_pos hview]
    rfl
  · have hview : ¬c.view.rest.length < bits := hshort
    rw [u_of_le hbits (Nat.le_of_not_lt hshort), if_neg hview]
    rfl

def zeros (c : BitCursor) : Nat := (c.left.takeWhile (!·)).length

theorem readZeros_eq {before : Nat} (h : before ≤ 31) (c : BitCursor) : readZeros before c =
    if 32 ≤ before + c.zeros then (.error .expGolombOverflow, c.advance (32 - before))
    else if c.left.length ≤ c.zeros then (.error .endOfStream, c.advance c.zeros)
    else (.ok (before + c.zeros), c.advance (c.zeros + 1)) := by
  generalize hbs : c.left = bs
  induction bs generalizing before c with
  | nil =>
      have hzeros : c.zeros = 0 := by rw [zeros, hbs]; rfl
      rw [readZeros, readBit_of_nil hbs, hzeros, if_neg (by omega)]
      rfl
  | cons b bs ih =>
      rw [readZeros, readBit_of_cons hbs]
      cases b with
      | true =>
          have hzeros : c.zeros = 0 := by rw [zeros, hbs]; rfl
          rw [hzeros, if_neg (by omega), if_neg (by simp)]
          rfl
      | false =>
          have hrest := left_of_cons hbs
          have hzeros : c.zeros = (c.advance 1).zeros + 1 := by rw [zeros, zeros, hrest, hbs]; rfl
          dsimp only
          by_cases hlast : 31 < before + 1
          · have hbefore : 32 - before = 1 := by omega
            rw [if_pos hlast, if_pos (by omega), hbefore]
          · rw [if_neg hlast, ih (by omega) _ hrest, hzeros]
            simp only [advance_advance, List.length_cons, Nat.succ_le_succ_iff]
            have hsum : before + 1 + (c.advance 1).zeros = before + ((c.advance 1).zeros + 1) := by
              omega
            have hskip : 1 + (32 - (before + 1)) = 32 - before := by omega
            rw [hsum, hskip, Nat.add_comm 1, Nat.add_comm 1]

theorem toUInt32_codeValue {tail : List Bool} (h : tail.length ≤ 31) {rest : UInt64}
    (hrest : rest.toNat = Bits.toNat tail) :
    ((1 <<< tail.length.toUInt64) - 1 + rest).toUInt32 =
      UInt32.ofNat (Bits.toNat (true :: tail) - 1) := by
  have hpow : 2 ^ tail.length ≤ 2 ^ 31 := Nat.pow_le_pow_right (by decide) h
  have hpos := Nat.two_pow_pos tail.length
  have hlt := toNat_lt tail
  have hcount : tail.length.toUInt64.toNat % 64 = tail.length := by
    rw [Nat.toUInt64_eq, UInt64.toNat_ofNat']
    omega
  have hshift : ((1 : UInt64) <<< tail.length.toUInt64).toNat = 2 ^ tail.length := by
    rw [UInt64.toNat_shiftLeft, hcount, Nat.shiftLeft_eq]
    change 1 * 2 ^ tail.length % 2 ^ 64 = _
    omega
  have hle : (1 : UInt64) ≤ 1 <<< tail.length.toUInt64 := by
    rw [UInt64.le_iff_toNat_le, hshift]
    exact hpos
  have hvalue : ((1 <<< tail.length.toUInt64) - 1 + rest).toNat =
      Bits.toNat (true :: tail) - 1 := by
    rw [UInt64.toNat_add, UInt64.toNat_sub_of_le _ _ hle, hshift, hrest, toNat_cons]
    change (2 ^ tail.length - 1 + Bits.toNat tail) % 2 ^ 64 =
      2 ^ tail.length * 1 + Bits.toNat tail - 1
    omega
  change UInt32.ofNat _ = _
  rw [hvalue]

theorem readUe_of_zeros (h : 32 ≤ c.zeros) :
    c.readUe = (.error .expGolombOverflow, c.advance 32) := by
  rw [readUe, readZeros_eq (Nat.zero_le 31), Nat.zero_add, if_pos h]

theorem readUe_of_short (h : c.zeros < 32) (hshort : c.left.length < 2 * c.zeros + 1) :
    c.readUe = (.error .endOfStream, c.advance c.left.length) := by
  rw [readUe, readZeros_eq (Nat.zero_le 31), Nat.zero_add, if_neg (Nat.not_le.2 h)]
  by_cases hall : c.left.length ≤ c.zeros
  · have hlength : c.left.length = c.zeros :=
      Nat.le_antisymm hall (List.takeWhile_sublist _).length_le
    rw [if_pos hall, hlength]
  · obtain ⟨rest, -, hread⟩ := readBits_eq (n := c.zeros) (by omega) (c.advance (c.zeros + 1))
    have hend : c.zeros + 1 + (c.left.length - (c.zeros + 1)) = c.left.length := by omega
    rw [left_advance, List.length_drop, advance_advance, if_pos (by omega), hend] at hread
    rw [if_neg hall]
    dsimp only
    rw [hread]

theorem readUe_of_word {tail rest : List Bool} (h : tail.length ≤ 31)
    (hleft : c.left = List.replicate tail.length false ++ true :: tail ++ rest) :
    c.readUe = (.ok (UInt32.ofNat (Bits.toNat (true :: tail) - 1)),
      c.advance (2 * tail.length + 1)) := by
  have hzeros : c.zeros = tail.length := by rw [zeros, hleft, BitReader.takeWhile_codeWord]
  have hlength : c.left.length = 2 * tail.length + 1 + rest.length := by
    rw [hleft, List.length_append, List.length_append, List.length_replicate, List.length_cons]
    omega
  have hdigits : (c.advance (tail.length + 1)).left.take tail.length = tail := by
    rw [left_advance, hleft]
    simp [List.drop_append]
  obtain ⟨value, hvalue, hread⟩ :=
    readBits_eq (n := tail.length) (by omega) (c.advance (tail.length + 1))
  have hend : tail.length + 1 + tail.length = 2 * tail.length + 1 := by omega
  rw [hdigits] at hvalue
  rw [left_advance, List.length_drop, if_neg (by omega), advance_advance, hend] at hread
  rw [readUe, readZeros_eq (Nat.zero_le 31), Nat.zero_add, hzeros, if_neg (by omega),
    if_neg (by omega)]
  dsimp only
  rw [hread]
  dsimp only
  rw [toUInt32_codeValue h hvalue]

theorem readUe_eq (c : BitCursor) : c.readUe = c.follow c.view.ue := by
  by_cases hmany : 32 ≤ c.zeros
  · have hview : 32 ≤ (c.view.rest.takeWhile (!·)).length := hmany
    rw [readUe_of_zeros hmany, BitReader.ue, if_pos hview]
    rfl
  by_cases hshort : c.left.length < 2 * c.zeros + 1
  · have hview : ¬32 ≤ (c.view.rest.takeWhile (!·)).length := hmany
    have hend : c.view.rest.length < 2 * (c.view.rest.takeWhile (!·)).length + 1 := hshort
    rw [readUe_of_short (Nat.lt_of_not_le hmany) hshort, BitReader.ue, if_neg hview, if_pos hend]
    rfl
  · obtain ⟨tail, rest, hleft⟩ := BitReader.eq_codeWord (Nat.le_of_not_lt hshort)
    have htail : tail.length < 32 := by
      rwa [zeros, hleft, BitReader.takeWhile_codeWord, Nat.not_le] at hmany
    have hue := BitReader.ue_codeWord c.position htail rest
    rw [readUe_of_word (by omega) hleft, view, hleft, hue]
    rfl

theorem ue_eq (v : UInt32) (c : BitCursor) : ue v c = store id v (c.follow c.view.ue) := by
  rw [ue, readUe_eq]

theorem se_eq (v : Int32) (c : BitCursor) : se v c = store id v (c.follow c.view.se) := by
  rw [se, readUe_eq, BitReader.se]
  generalize c.view.ue = result
  obtain ⟨_ | code, r⟩ := result <;> rfl

theorem flag_eq (v : Bool) (c : BitCursor) : flag v c = store id v (c.follow c.view.flag) := by
  rw [flag, u, if_neg (by decide), readBits, readOnto, BitReader.flag]
  cases h : c.left with
  | nil =>
      have hrest : c.view.rest = [] := h
      rw [readBit_of_nil h, hrest]
      dsimp only
      rw [follow_exhausted, h]
      rfl
  | cons b bs =>
      have hrest : c.view.rest = b :: bs := h
      rw [readBit_of_cons h, hrest]
      cases b <;> rfl

theorem readFill_eq (fill : Bool) (c : BitCursor) :
    c.readFill fill = c.follow (c.view.align fill) := by
  rw [BitReader.align]
  change _ = c.follow (BitReader.padding fill ((8 - c.position % 8) % 8) c.view)
  generalize hgap : (8 - c.position % 8) % 8 = gap
  induction gap generalizing c with
  | zero =>
      rw [readFill, if_pos (by omega)]
      rfl
  | succ gap ih =>
      rw [readFill, if_neg (by omega), BitReader.padding]
      cases h : c.left with
      | nil =>
          have hread := readBit_of_nil h
          have hrest : c.view.rest = [] := h
          rw [hrest]
          dsimp only
          rw [follow_exhausted, h]
          split <;> cases hread.symm.trans ‹_›
          rfl
      | cons b bs =>
          have hread := readBit_of_cons h
          have hrest : c.view.rest = b :: bs := h
          rw [hrest]
          split <;> cases hread.symm.trans ‹_›
          dsimp only
          by_cases hb : b = fill
          · have hnext : (8 - (c.advance 1).position % 8) % 8 = gap := by
              simp only [advance]
              omega
            rw [if_pos hb, if_pos hb, ih _ hnext, view_advance]
            rfl
          · rw [if_neg hb, if_neg hb]
            rfl

theorem hasMore_eq (c : BitCursor) : c.hasMore = c.view.hasMore := by
  rw [Bool.eq_iff_iff, BitReader.hasMore_eq_true, hasMore, Option.any_eq_true]
  simp only [decide_eq_true_eq, exists_stopBit_gt_iff, isSet_iff, view, left, List.getElem?_drop]
  constructor
  · rintro ⟨i, hlt, hi⟩
    have hback : c.position + (i - c.position - 1 + 1) = i := by omega
    exact ⟨i - c.position - 1, by rw [hback]; exact hi⟩
  · rintro ⟨i, hi⟩
    exact ⟨c.position + (i + 1), by omega, hi⟩

theorem store_follow (call : Call) (v : call.Value) (c : BitCursor) :
    store id v (c.follow (call.read c.view)) =
      let (result, v, r) := (Request.call call).code.read v c.view
      (result, v, { c with position := r.position }) := by
  rw [Request.code, Code.ofFunctions, follow]
  dsimp only
  generalize call.read c.view = result
  obtain ⟨_ | v, r⟩ := result <;> rfl

/-- The loops over bytes do what a reader of the bits does. -/
theorem visit_eq (q : Request α) (v : α) (c : BitCursor) : q.visit v c =
    let (result, v, r) := q.code.read v c.view
    (result, v, { c with position := r.position }) := by
  cases q with
  | call call =>
      refine Eq.trans ?_ (store_follow call v c)
      cases call with
      | u bits => exact u_eq bits v c
      | ue => exact ue_eq v c
      | se => exact se_eq v c
      | flag => exact flag_eq v c
      | align fill => exact congrArg (store id v) (readFill_eq fill c)
  | infer value => rfl
  | more =>
      change (_, c.hasMore, c) = _
      rw [hasMore_eq]
      rfl

theorem exists_advance (q : Request α) (v : α) (c : BitCursor) :
    ∃ n ≤ c.left.length, (q.visit v c).2.2 = c.advance n := by
  obtain ⟨n, hn, hreader⟩ := q.reaches v c.view
  have hposition := congrArg BitReader.position hreader
  refine ⟨n, hn, ?_⟩
  rw [visit_eq, advance]
  exact congrArg (fun p => { c with position := p }) hposition

/-- The place behind some requests. Whoever made them goes on after each that fails. -/
def after (c : BitCursor) (as : List Asked) : BitCursor :=
  as.foldl (fun c a => (a.request.visit a.value c).2.2) c

theorem exists_advance_after (c : BitCursor) (as : List Asked) :
    ∃ n ≤ c.left.length, c.after as = c.advance n := by
  induction as generalizing c with
  | nil => exact ⟨0, Nat.zero_le _, rfl⟩
  | cons a as ih =>
      obtain ⟨m, hm, hnext⟩ := exists_advance a.request a.value c
      obtain ⟨n, hn, hafter⟩ := ih (c.advance m)
      rw [left_advance, List.length_drop] at hn
      refine ⟨m + n, by omega, ?_⟩
      rw [after, List.foldl_cons, hnext, ← advance_advance]
      exact hafter

end BitCursor

end Codeword
