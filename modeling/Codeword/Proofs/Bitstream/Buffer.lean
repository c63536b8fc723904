import Codeword.Proofs.Bitstream.Requests

namespace Codeword

namespace Bits

variable {bytes bytes' : List UInt8} {bs cs : List Bool}

/-- One bit behind `n` others. It opens a new byte if those fill the bytes that are there, and is
set in the last one. -/
def push (bytes : List UInt8) (n : Nat) (b : Bool) : List UInt8 :=
  let bytes := if n % 8 = 0 then bytes ++ [0] else bytes
  if b then bytes.modifyLast (· ||| 0x80 >>> UInt8.ofNat (n % 8)) else bytes

def grow : List UInt8 → Nat → List Bool → List UInt8
  | bytes, _, [] => bytes
  | bytes, n, b :: bs => grow (push bytes n b) (n + 1) bs

/-- The bytes are the bits and zeros up to the end of the last byte. -/
def Holds (bytes : List UInt8) (bs : List Bool) : Prop :=
  ofBytes bytes = bs ++ List.replicate ((8 - bs.length % 8) % 8) false

theorem holds_toBytes (bs : List Bool) : Holds (toBytes bs) bs := ofBytes_toBytes bs

theorem Holds.length_eq (h : Holds bytes bs) : bytes.length = (bs.length + 7) / 8 := by
  have hlength := congrArg List.length h
  rw [length_ofBytes, List.length_append, List.length_replicate] at hlength
  omega

theorem ofBytes_injective : Function.Injective ofBytes := by
  intro bytes bytes' h
  induction bytes generalizing bytes' with
  | nil =>
      have hlength := congrArg List.length h
      rw [length_ofBytes, length_ofBytes] at hlength
      exact (List.length_eq_zero_iff.1 (by simpa using hlength.symm)).symm
  | cons b bytes ih =>
      cases bytes' with
      | nil =>
          have hlength := congrArg List.length h
          rw [length_ofBytes, length_ofBytes] at hlength
          simp at hlength
      | cons b' bytes' =>
          have hbyte (b : UInt8) : (ofByte b).length = 8 := length_ofNat 8 b.toNat
          have h : ofByte b ++ ofBytes bytes = ofByte b' ++ ofBytes bytes' := h
          obtain ⟨hfirst, hrest⟩ := List.append_inj h ((hbyte b).trans (hbyte b').symm)
          have hnat := congrArg toNat hfirst
          rw [ofByte, ofByte, toNat_ofNat, toNat_ofNat, Nat.mod_eq_of_lt b.toNat_lt,
            Nat.mod_eq_of_lt b'.toNat_lt] at hnat
          rw [UInt8.toNat_inj.1 hnat, ih hrest]

theorem Holds.unique (h : Holds bytes bs) (h' : Holds bytes' bs) : bytes = bytes' :=
  ofBytes_injective (h.trans h'.symm)

theorem toNat_bit {m : Nat} (hm : m < 8) :
    (0x80 >>> UInt8.ofNat m : UInt8).toNat = 2 ^ (7 - m) := by
  interval_cases m <;> rfl

theorem ofByte_or_bit (b : UInt8) {m : Nat} (hm : m < 8) :
    ofByte (b ||| 0x80 >>> UInt8.ofNat m) = (ofByte b).set m true := by
  have hlength : (ofByte b).length = 8 := length_ofNat 8 b.toNat
  refine List.ext_getElem? fun i => ?_
  rw [List.getElem?_set, hlength, if_pos hm, ofByte, ofByte, getElem?_ofNat, getElem?_ofNat,
    UInt8.toNat_or, toNat_bit hm, Nat.testBit_or, Nat.testBit_two_pow]
  by_cases hi : i < 8
  · by_cases heq : m = i
    · simp [heq, hi]
    · have hne : 7 - m ≠ 7 - i := by omega
      simp [heq, hi, hne]
  · have hne : m ≠ i := by omega
    simp [hi, hne]

theorem Holds.push_new (h : Holds bytes bs) (hfull : bs.length % 8 = 0) (b : Bool) :
    Holds (push bytes bs.length b) (bs ++ [b]) := by
  have hpad : (8 - bs.length % 8) % 8 = 0 := by omega
  have hpad' : (8 - (bs ++ [b]).length % 8) % 8 = 7 := by
    rw [List.length_append, List.length_singleton]
    omega
  rw [Holds, hpad, List.replicate_zero, List.append_nil] at h
  have hpush : push bytes bs.length b = bytes ++ [if b then 0x80 else 0] := by
    cases b <;> simp [push, hfull, List.modifyLast_concat]
  rw [Holds, hpush, ofBytes_append, h, hpad', List.append_assoc]
  cases b <;> rfl

theorem Holds.exists_last (h : Holds bytes bs) (hpart : bs.length % 8 ≠ 0) :
    ∃ init last cs, bytes = init ++ [last] ∧ bs = ofBytes init ++ cs ∧
      cs.length = bs.length % 8 ∧ ofByte last = cs ++ List.replicate (8 - cs.length) false := by
  have hlength := h.length_eq
  rcases List.eq_nil_or_concat bytes with rfl | ⟨init, last, hconcat⟩
  · rw [List.length_nil] at hlength
    omega
  obtain rfl := hconcat.trans List.concat_eq_append
  have hinit : (ofBytes init).length = 8 * init.length := length_ofBytes init
  rw [List.length_append, List.length_singleton] at hlength
  rw [Holds, ofBytes_append] at h
  obtain ⟨cs, rfl⟩ : ofBytes init <+: bs :=
    List.prefix_of_prefix_length_le (h ▸ List.prefix_append _ _) (List.prefix_append _ _) (by omega)
  rw [List.append_assoc] at h
  have hlast := List.append_cancel_left h
  rw [List.length_append] at hlength hpart hlast
  have hcs : cs.length = ((ofBytes init).length + cs.length) % 8 := by omega
  have hpad : (8 - ((ofBytes init).length + cs.length) % 8) % 8 = 8 - cs.length := by omega
  refine ⟨init, last, cs, rfl, rfl, by rw [List.length_append]; exact hcs, ?_⟩
  rw [hpad] at hlast
  simpa [ofBytes] using hlast

theorem Holds.push_last (h : Holds bytes bs) (hpart : bs.length % 8 ≠ 0) (b : Bool) :
    Holds (push bytes bs.length b) (bs ++ [b]) := by
  obtain ⟨init, last, cs, rfl, hbs, hcs, hlast⟩ := h.exists_last hpart
  have hpad : (8 - (bs ++ [b]).length % 8) % 8 = 7 - cs.length := by
    rw [List.length_append, List.length_singleton]
    omega
  have hzeros : 8 - cs.length = 7 - cs.length + 1 := by omega
  rw [hzeros, List.replicate_succ] at hlast
  obtain ⟨last', hpush, hlast'⟩ : ∃ last', push (init ++ [last]) bs.length b = init ++ [last'] ∧
      ofByte last' = cs ++ b :: List.replicate (7 - cs.length) false := by
    rw [push, if_neg hpart]
    cases b with
    | false => exact ⟨last, rfl, hlast⟩
    | true =>
        refine ⟨last ||| 0x80 >>> UInt8.ofNat (bs.length % 8), List.modifyLast_concat _ _ _, ?_⟩
        rw [ofByte_or_bit last (by omega), hlast, ← hcs]
        simp
  rw [Holds, hpush, hpad, ofBytes_append, hbs]
  simp [ofBytes, hlast']

theorem Holds.push (h : Holds bytes bs) (b : Bool) :
    Holds (push bytes bs.length b) (bs ++ [b]) := by
  by_cases hfull : bs.length % 8 = 0
  · exact h.push_new hfull b
  · exact h.push_last hfull b

theorem Holds.grow (h : Holds bytes bs) (cs : List Bool) :
    Holds (grow bytes bs.length cs) (bs ++ cs) := by
  induction cs generalizing bytes bs with
  | nil => rwa [List.append_nil]
  | cons c cs ih =>
      have hstep := ih (h.push c)
      rwa [List.length_append, List.length_singleton, List.append_assoc] at hstep

/-- Bytes of more bits are the bytes of the first ones, to which the others were added. -/
theorem toBytes_append (bs cs : List Bool) :
    toBytes (bs ++ cs) = Bits.grow (toBytes bs) bs.length cs :=
  (holds_toBytes (bs ++ cs)).unique ((holds_toBytes bs).grow cs)

end Bits

end Codeword
