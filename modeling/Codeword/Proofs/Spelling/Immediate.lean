import Codeword.Proofs.Text.Numeral

namespace Codeword

namespace Text

def readHex : List Char → Option Nat
  | '0' :: 'x' :: cs => readDigits 16 cs
  | _ => none

/-- The base of a number and its value. What has no mark is decimal. -/
def readMagnitude (cs : List Char) : Option (Nat × Nat) :=
  ((readHex cs).map (16, ·)).or ((readDigits 10 cs).map (10, ·))

def readNumeral : List Char → Option (Nat × Int)
  | '-' :: cs => (readMagnitude cs).map fun x => (x.1, -x.2)
  | cs => (readMagnitude cs).map fun x => (x.1, x.2)

def minus (v : Int) : List Char := if v < 0 then ['-'] else []

variable {base : Nat} {v : Int} {cs : List Char}

theorem readMagnitude_minus (cs : List Char) : readMagnitude ('-' :: cs) = none := by
  rw [readMagnitude, readDigits_eq_none List.mem_cons_self (by decide)]
  rfl

theorem readNumeral_minus_append (h : readMagnitude cs = some (base, v.natAbs)) :
    readNumeral (minus v ++ cs) = some (base, v) := by
  rw [minus]
  split
  next hneg =>
    rw [List.singleton_append, readNumeral, h]
    simp only [Option.map_some, Option.some.injEq, Prod.mk.injEq, true_and]
    omega
  next hpos =>
    rw [List.nil_append, readNumeral.eq_def]
    split
    · rw [readMagnitude_minus] at h
      cases h
    · rw [h]
      simp only [Option.map_some, Option.some.injEq, Prod.mk.injEq, true_and]
      omega

theorem readMagnitude_toDigits_ten (n : Nat) : readMagnitude (Nat.toDigits 10 n) = some (10, n) := by
  have hhex : readHex (Nat.toDigits 10 n) = none := by
    rw [readHex.eq_def]
    split
    next cs hcs =>
      have hread := readDigits_toDigits_ten n
      rw [hcs, readDigits_eq_none (c := 'x') (by simp) (by decide)] at hread
      cases hread
    next => rfl
  rw [readMagnitude, hhex, readDigits_toDigits_ten]
  rfl

theorem toList_toString (v : Int) : (toString v).toList = minus v ++ Nat.toDigits 10 v.natAbs := by
  rw [Int.toString_eq_repr, minus]
  cases v with
  | ofNat n =>
      rw [if_neg (by simp)]
      exact Nat.toList_repr
  | negSucc n =>
      rw [if_pos (Int.negSucc_lt_zero n)]
      change ("-" ++ (n + 1).repr).toList = _
      rw [String.toList_append, Nat.toList_repr]
      rfl

end Text

namespace Spelling

open Text

variable {s : Spelling}

theorem toList_hex (s : Spelling) (n : Nat) :
    (s.hex n).toList = '0' :: 'x' :: hexDigits s.uppercaseHex n := by
  rw [hex, String.toList_append]
  exact congrArg (['0', 'x'] ++ ·) String.toList_ofList

theorem toList_signedHex (s : Spelling) (v : Int) :
    (s.signedHex v).toList = minus v ++ (s.hex v.natAbs).toList := by
  rw [signedHex, minus]
  split
  · rw [String.toList_append]
    rfl
  · rfl

theorem readHex_hex (s : Spelling) (n : Nat) : readHex (s.hex n).toList = some n := by
  rw [toList_hex]
  exact readDigits_hexDigits s.uppercaseHex n

theorem readMagnitude_hex (s : Spelling) (n : Nat) :
    readMagnitude (s.hex n).toList = some (16, n) := by
  rw [readMagnitude, readHex_hex]
  rfl

theorem readNumeral_immediate (s : Spelling) (v : Int) (forceHex : Bool) :
    readNumeral (s.immediate v forceHex).toList =
      some (if forceHex = false ∧ v.natAbs < s.hexThreshold then 10 else 16, v) := by
  rw [immediate]
  split
  · rw [toList_toString]
    exact readNumeral_minus_append (readMagnitude_toDigits_ten _)
  · rw [toList_signedHex]
    exact readNumeral_minus_append (readMagnitude_hex s _)

/-- An immediate is read back as it was, in whatever way it is written: in decimal if it is smaller
than the threshold and nothing forces another base. The texts of two numbers are never the same. -/
theorem immediate_reads (s : Spelling) (v : Int) (forceHex : Bool) :
    (∃ base, readNumeral (s.immediate v forceHex).toList = some (base, v) ∧
      (base = 10 ∨ base = 16) ∧
      (base = 10 ↔ forceHex = false ∧ v.natAbs < s.hexThreshold)) ∧
    ∀ (s' : Spelling) (w : Int) (forceHex' : Bool),
      s'.immediate w forceHex' = s.immediate v forceHex → w = v := by
  have hread := readNumeral_immediate s v forceHex
  refine ⟨⟨_, hread, ?_, ?_⟩, fun s' w forceHex' htext => ?_⟩
  · split
    · exact .inl rfl
    · exact .inr rfl
  · split
    next h => exact iff_of_true rfl h
    next h => exact iff_of_false (by decide) h
  · have hread' := readNumeral_immediate s' w forceHex'
    rw [htext, hread, Option.some.injEq, Prod.mk.injEq] at hread'
    exact hread'.2.symm

theorem immediate_reads_min :
    let s : Spelling := { hexThreshold := 2 ^ 64 - 1, uppercaseHex := true }
    (∃ base, readNumeral (s.immediate (-2 ^ 63) false).toList = some (base, -2 ^ 63) ∧
      base = 10) ∧
    (∃ base, readNumeral (s.immediate (-2 ^ 63) true).toList = some (base, -2 ^ 63) ∧
      base ≠ 10) ∧
    ∀ (s' : Spelling) (w : Int) (forceHex : Bool),
      s'.immediate w forceHex = s.immediate (-2 ^ 63) true → w = -2 ^ 63 := by
  intro s
  obtain ⟨⟨base, hread, -, hbase⟩, -⟩ := immediate_reads s (-2 ^ 63) false
  obtain ⟨⟨base', hread', -, hbase'⟩, hsame⟩ := immediate_reads s (-2 ^ 63) true
  exact ⟨⟨base, hread, hbase.2 (by decide)⟩, ⟨base', hread', fun h => absurd (hbase'.1 h) (by decide)⟩,
    hsame⟩

end Spelling

end Codeword
