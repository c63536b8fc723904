import Codeword.Proofs.Bitstream.Buffer

namespace Codeword

theorem BitWriter.codeBits_of_le {code : Nat} (h : 2 ^ 32 ≤ code + 1) :
    codeBits code = .error .expGolombOverflow :=
  if_pos ((Nat.le_log2 (Nat.succ_ne_zero code)).2 h)

namespace Request

variable {α : Type} {v : α} {e : StreamError} {q : Request α}

/-- Why a writer refuses a value, if it does. -/
def refusal : {α : Type} → Request α → α → Option StreamError
  | _, call (.u n), v =>
    if 32 < n then some .wideField
    else if 2 ^ n ≤ UInt32.toNat v then some (.valueTooWide (UInt32.toNat v) n)
    else none
  | _, call .ue, v => if UInt32.toNat v = 2 ^ 32 - 1 then some .expGolombOverflow else none
  | _, call .se, v => if v = Int32.minValue then some .expGolombOverflow else none
  | _, call .flag, _ | _, call (.align _), _ => none
  | _, infer value, v =>
    if v = value then none else some (.inferMismatch (Number.number value) (Number.number v))
  | _, more, _ => some .moreDataWhileWriting

/-- The bits that a request puts into a stream, if it is not refused. -/
def bits : {α : Type} → Request α → Nat → α → Except StreamError (List Bool)
  | _, call c, position, v => c.bits position v
  | _, infer value, _, v =>
    if v = value then .ok []
    else .error (.inferMismatch (Number.number value) (Number.number v))
  | _, more, _, _ => .error .moreDataWhileWriting

theorem write_eq (q : Request α) (v : α) (w : BitWriter) : q.code.write v w =
    ((w.put (q.bits w.position v)).1, v, (w.put (q.bits w.position v)).2) := by
  cases q with
  | call c =>
      rw [bits, ← Call.write_eq]
      rfl
  | infer value =>
      by_cases hv : v = value
      · have hsame : (⟨w.bits ++ []⟩ : BitWriter) = w := by rw [List.append_nil]
        rw [bits, if_pos hv, BitWriter.put, hsame]
        exact if_pos hv
      · rw [bits, if_neg hv]
        exact if_neg hv
  | more => rfl

theorem fits_of_refusal {c : Call} {v : c.Value} (h : (call c).refusal v = none) :
    Item.Fits ⟨c, v⟩ := by
  cases c with
  | u n =>
      rw [refusal] at h
      split at h
      · cases h
      split at h
      · cases h
      next hn hv => exact ⟨Nat.le_of_not_lt hn, Nat.lt_of_not_le hv⟩
  | ue =>
      rw [refusal] at h
      split at h
      · cases h
      next hv =>
        have hlt := UInt32.toNat_lt v
        change UInt32.toNat v ≤ 2 ^ 32 - 2
        omega
  | se =>
      rw [refusal] at h
      split at h
      · cases h
      next hv =>
        have hle := Int32.minValue_le v
        exact Int32.lt_of_le_of_ne hle (Ne.symm hv)
  | flag | align fill => trivial

theorem call_bits_of_refusal {c : Call} {v : c.Value} (h : (call c).refusal v = some e)
    (position : Nat) : c.bits position v = .error e := by
  cases c with
  | u n =>
      rw [Call.bits, BitWriter.uBits, Nat.one_shiftLeft]
      rw [refusal] at h
      split at h
      next hn =>
        cases h
        exact if_pos hn
      next hn =>
        rw [if_neg hn]
        split at h
        next hv =>
          cases h
          exact if_pos hv
        next => cases h
  | ue =>
      rw [refusal] at h
      split at h
      next hv =>
        cases h
        exact BitWriter.codeBits_of_le (by omega)
      next => cases h
  | se =>
      rw [refusal] at h
      split at h
      next hv =>
        cases h
        subst hv
        have hwide : 2 ^ 32 ≤ ExpGolomb.codeOfInt Int32.minValue.toInt + 1 := by decide
        exact BitWriter.codeBits_of_le hwide
      next => cases h
  | flag | align fill => cases h

theorem bits_of_refusal (h : q.refusal v = some e) (position : Nat) :
    q.bits position v = .error e := by
  cases q with
  | call c => exact call_bits_of_refusal h position
  | infer value =>
      rw [refusal] at h
      split at h
      · cases h
      next hv =>
        cases h
        exact if_neg hv
  | more =>
      cases h
      rfl

theorem exists_bits_of_refusal (h : q.refusal v = none) (position : Nat) :
    ∃ bs, q.bits position v = .ok bs := by
  cases q with
  | call c => exact (fits_of_refusal h).exists_bits position
  | infer value =>
      rw [refusal] at h
      split at h
      next hv => exact ⟨[], if_pos hv⟩
      next => cases h
  | more => cases h

theorem write_of_refusal (h : q.refusal v = some e) (w : BitWriter) :
    q.code.write v w = (.error e, v, w) := by
  rw [write_eq, bits_of_refusal h]
  rfl

theorem exists_write_of_refusal (h : q.refusal v = none) (w : BitWriter) :
    ∃ bs, q.bits w.position v = .ok bs ∧ q.code.write v w = (.ok (), v, ⟨w.bits ++ bs⟩) := by
  obtain ⟨bs, hbits⟩ := exists_bits_of_refusal h w.position
  refine ⟨bs, hbits, ?_⟩
  rw [write_eq, hbits]
  rfl

theorem exists_bits (q : Request α) (v : α) (w : BitWriter) :
    ∃ bs, (q.code.write v w).2.2 = ⟨w.bits ++ bs⟩ := by
  cases h : q.refusal v with
  | some e =>
      rw [write_of_refusal h]
      exact ⟨[], by rw [List.append_nil]⟩
  | none =>
      obtain ⟨bs, -, hwrite⟩ := exists_write_of_refusal h w
      exact ⟨bs, by rw [hwrite]⟩

end Request

namespace BitWriter

theorem exists_bits_after (w : BitWriter) (as : List Asked) :
    ∃ bs, (Direction.encode.after w as).bits = w.bits ++ bs := by
  induction as generalizing w with
  | nil => exact ⟨[], (List.append_nil w.bits).symm⟩
  | cons a as ih =>
      obtain ⟨bs, hbs⟩ := a.request.exists_bits a.value w
      obtain ⟨cs, hcs⟩ := ih (Direction.encode.next w a)
      change (Direction.encode.after (Direction.encode.next w a) as).bits = _ at hcs
      have hnext : (Direction.encode.next w a).bits = w.bits ++ bs := congrArg BitWriter.bits hbs
      exact ⟨bs ++ cs, by rw [← List.append_assoc, ← hnext]; exact hcs⟩

theorem length_finish (w : BitWriter) : w.finish.length = w.position / 8 + 1 := by
  have hlength := congrArg List.length w.ofBytes_finish
  rw [Bits.length_ofBytes, List.length_append, List.length_cons, List.length_replicate] at hlength
  rw [position]
  omega

/-- Whatever was asked of a writer, its bytes are as many as its bits need, and zero behind them.
More bits open new bytes or are set in the last one. What is refused, for the reason given, changes
nothing. The last byte has the set bit that ends the data and zeros. -/
theorem bytes_exact (as : List Asked) :
    let w : BitWriter := Direction.encode.after {} as
    (w.bytes.length = (w.position + 7) / 8 ∧
      Bits.ofBytes w.bytes =
        w.bits ++ List.replicate (8 * w.bytes.length - w.position) false) ∧
    (∀ more, ∃ bs, (Direction.encode.after w more).bits = w.bits ++ bs ∧
      (Direction.encode.after w more).bytes = Bits.grow w.bytes w.position bs) ∧
    (∀ (α : Type) (q : Request α) (v : α),
      (∀ e, q.refusal v = some e → q.code.write v w = (.error e, v, w)) ∧
        (q.refusal v = none → ∃ bs, q.bits w.position v = .ok bs ∧
          q.code.write v w = (.ok (), v, ⟨w.bits ++ bs⟩))) ∧
    w.finish.length = w.position / 8 + 1 ∧
    Bits.ofBytes w.finish = w.bits ++ true :: List.replicate (7 - w.position % 8) false := by
  intro w
  have hholds : Bits.Holds w.bytes w.bits := Bits.holds_toBytes w.bits
  have hlength : w.bytes.length = (w.position + 7) / 8 := hholds.length_eq
  have hzeros : 8 * w.bytes.length - w.position = (8 - w.bits.length % 8) % 8 := by
    rw [hlength, position]
    omega
  refine ⟨⟨hlength, by rw [hzeros]; exact hholds⟩, fun more => ?_, fun α q v =>
    ⟨fun e h => Request.write_of_refusal h w, fun h => Request.exists_write_of_refusal h w⟩,
    w.length_finish, w.ofBytes_finish⟩
  obtain ⟨bs, hbs⟩ := exists_bits_after w more
  refine ⟨bs, hbs, ?_⟩
  rw [bytes, hbs]
  exact Bits.toBytes_append w.bits bs

theorem bytes_exact_refused :
    let w : BitWriter := Direction.encode.after {}
      [⟨.call (.u 3), (5 : UInt32)⟩, ⟨.call .ue, (4294967295 : UInt32)⟩, ⟨.call (.align true), ()⟩,
        ⟨.more, true⟩, ⟨.call (.u 2), (1 : UInt32)⟩]
    w.position = 10 ∧ w.bytes = [191, 64] ∧ w.bytes.length = (10 + 7) / 8 ∧ w.finish = [191, 96] ∧
      (Request.infer (1 : UInt32)).code.write 2 w = (.error (.inferMismatch 1 2), 2, w) ∧
      (Request.call .se).code.write (-2147483647 : Int32) w = (.ok (), (-2147483647 : Int32),
        ⟨w.bits ++ (List.replicate 31 false ++ List.replicate 32 true)⟩) := by
  intro w
  obtain ⟨⟨hlength, -⟩, -, hrequest, -, -⟩ := bytes_exact
    [⟨.call (.u 3), (5 : UInt32)⟩, ⟨.call .ue, (4294967295 : UInt32)⟩, ⟨.call (.align true), ()⟩,
      ⟨.more, true⟩, ⟨.call (.u 2), (1 : UInt32)⟩]
  have hnone : (Request.call .se).refusal (-2147483647 : Int32) = none := by decide
  obtain ⟨bs, hbits, hwrite⟩ := (hrequest _ _ _).2 hnone
  have hlongest : BitWriter.seBits (-2147483647) =
      .ok (List.replicate 31 false ++ List.replicate 32 true) := by decide +kernel
  cases hlongest.symm.trans hbits
  exact ⟨by decide, by decide +kernel, hlength, by decide +kernel,
    (hrequest _ (.infer (1 : UInt32)) 2).1 _ rfl, hwrite⟩

end BitWriter

end Codeword
