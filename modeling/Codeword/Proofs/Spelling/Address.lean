import Codeword.Proofs.Spelling.Immediate

namespace Codeword

def Text.readTerm : List Char → Option Int
  | [] => some 0
  | '+' :: cs => (readHex cs).map fun n : Nat => (n : Int)
  | '-' :: cs => (readHex cs).map fun n : Nat => -(n : Int)
  | cs => (readHex cs).map fun n : Nat => (n : Int)

namespace Text

variable {cs : List Char}

theorem exists_mark_of_readHex {n : Nat} (h : readHex cs = some n) : ∃ ds, cs = '0' :: 'x' :: ds := by
  rw [readHex.eq_def] at h
  split at h
  next ds => exact ⟨ds, rfl⟩
  next => cases h

theorem readTerm_plus {n : Nat} (h : readHex cs = some n) : readTerm ('+' :: cs) = some ↑n := by
  rw [readTerm, h]
  rfl

theorem readTerm_minus_append {v : Int} (h : readHex cs = some v.natAbs) :
    readTerm (minus v ++ cs) = some v := by
  rw [minus]
  split
  next hneg =>
    rw [List.singleton_append, readTerm, h]
    exact congrArg some (show -(v.natAbs : Int) = v by omega)
  next hpos =>
    obtain ⟨ds, rfl⟩ := exists_mark_of_readHex h
    have hterm : readTerm ('0' :: 'x' :: ds) = (readHex ('0' :: 'x' :: ds)).map fun n : Nat => (n : Int) := rfl
    rw [List.nil_append, hterm, h]
    exact congrArg some (show (v.natAbs : Int) = v by omega)

end Text

namespace Spelling

open Text

variable {s : Spelling} {m : MemoryValue}

def registerTexts (s : Spelling) (m : MemoryValue) : List String :=
  ((m.base.toList ++ m.index.toList).filter (· ≠ .zero)).map s.register

/-- Texts with a sign between any two. Empty ones in front are as good as none. -/
def joined (ts : List String) : String := "+".intercalate (ts.dropWhile (· = ""))

theorem foldl_plus {t : String} (ht : t ≠ "") (ts : List String) :
    ts.foldl plus t = "+".intercalate (t :: ts) := by
  induction ts generalizing t with
  | nil => simp
  | cons u ts ih =>
      have hplus : plus t u = t ++ "+" ++ u := if_neg ht
      have hne : t ++ "+" ++ u ≠ "" := by simp
      rw [List.foldl_cons, hplus, ih hne]
      cases ts with
      | nil => simp [String.intercalate_cons_cons]
      | cons w ts => simp [String.intercalate_cons_cons, String.append_assoc]

theorem foldl_plus_empty (ts : List String) : ts.foldl plus "" = joined ts := by
  induction ts with
  | nil => rfl
  | cons t ts ih =>
      have hplus : plus "" t = t := if_pos rfl
      rw [List.foldl_cons, hplus, joined, List.dropWhile_cons]
      split
      next h =>
        rw [of_decide_eq_true h, ih]
        rfl
      next h => exact foldl_plus (by simpa using h) ts

theorem map_addressRegisters (s : Spelling) (m : MemoryValue) :
    (addressRegisters m).map s.register = s.registerTexts m := by
  have hfilter (o : Option RegisterValue) :
      (o.filter (· ≠ .zero)).toList = o.toList.filter (· ≠ .zero) := by
    cases o with
    | none => rfl
    | some r => by_cases h : r = .zero <;> simp [Option.filter, h]
  rw [registerTexts, addressRegisters, List.filter_append, ← hfilter, ← hfilter]
  simp only [List.filterMap_cons, List.filterMap_nil]
  cases m.base.filter (· ≠ .zero) <;> cases m.index.filter (· ≠ .zero) <;> rfl

def displacement (s : Spelling) (registers : String) (d : Int) : String :=
  if registers = "" ∨ d < 0 then s.signedHex d else if d = 0 then "" else "+" ++ s.hex d.natAbs

theorem address_eq (hm : m.symbol = none) :
    s.address m = joined (s.registerTexts m) ++
      s.displacement (joined (s.registerTexts m)) m.displacement := by
  have hregisters : (addressRegisters m).foldl (fun t r => plus t (s.register r)) "" =
      joined (s.registerTexts m) := by
    rw [← foldl_plus_empty, ← map_addressRegisters, List.foldl_map]
  rw [address, hregisters, hm, displacement]
  dsimp only
  split
  · rfl
  · split
    · exact String.append_empty.symm
    next h _ =>
      rw [plus, if_neg fun hempty => h (.inl hempty), String.append_assoc]

theorem signedHex_ne_empty (s : Spelling) (v : Int) : s.signedHex v ≠ "" := by
  intro h
  have hlist := toList_signedHex s v
  rw [h, toList_hex] at hlist
  simp at hlist

theorem address_ne_empty (hm : m.symbol = none) : s.address m ≠ "" := by
  rw [address_eq hm]
  intro h
  obtain ⟨hregisters, hrest⟩ := String.append_eq_empty_iff.1 h
  rw [hregisters, displacement, if_pos (.inl rfl)] at hrest
  exact signedHex_ne_empty s _ hrest

theorem readTerm_displacement (s : Spelling) (registers : String) (d : Int) :
    readTerm (s.displacement registers d).toList = some d := by
  rw [displacement]
  split
  · rw [toList_signedHex]
    exact readTerm_minus_append (readHex_hex s _)
  next h =>
    rw [not_or, Int.not_lt] at h
    split
    next hzero =>
      rw [hzero]
      rfl
    next =>
      rw [String.toList_append]
      refine (readTerm_plus (readHex_hex s _)).trans (congrArg some ?_)
      exact Int.natAbs_of_nonneg h.2

theorem head_displacement (s : Spelling) {registers : String} (h : registers ≠ "") (d : Int) :
    ∀ c ∈ (s.displacement registers d).toList.head?, c = '+' ∨ c = '-' := by
  rw [displacement]
  split
  next hcases =>
    have hneg : d < 0 := hcases.resolve_left h
    rw [toList_signedHex, minus, if_pos hneg]
    rintro c ⟨⟩
    exact .inr rfl
  next =>
    split
    · simp
    · rw [String.toList_append]
      rintro c ⟨⟩
      exact .inl rfl

theorem memory_inj {m m' : MemoryValue} (hspace : m'.space = m.space) (hbank : m'.bank = m.bank) :
    s.memory m' = s.memory m ↔ s.address m' = s.address m := by
  rw [memory, memory, hspace, hbank, String.append_left_inj, String.append_right_inj]

/-- A memory operand without a name shows its registers and its displacement, one of them at the
least, and the displacement can be read. A register without any text adds nothing, not even a sign,
if no other register comes before it. -/
theorem memory_displacement (s : Spelling) (m : MemoryValue) (hm : m.symbol = none) :
    (∃ part, s.memory m = m.space.getD "" ++ m.bank.elim "" toString ++ "[" ++
        (joined (s.registerTexts m) ++ part) ++ "]" ∧
      joined (s.registerTexts m) ++ part ≠ "" ∧
      readTerm part.toList = some m.displacement ∧
      (joined (s.registerTexts m) ≠ "" → ∀ c ∈ part.toList.head?, c = '+' ∨ c = '-')) ∧
    ∀ m' : MemoryValue, m'.symbol = none → m'.space = m.space → m'.bank = m.bank →
      m'.base = m.base → m'.index = m.index →
      (s.memory m' = s.memory m ↔ m'.displacement = m.displacement) := by
  constructor
  · refine ⟨s.displacement (joined (s.registerTexts m)) m.displacement, ?_, ?_,
      readTerm_displacement s _ _, fun h => head_displacement s h _⟩
    · rw [← address_eq hm]
      rfl
    · rw [← address_eq hm]
      exact address_ne_empty hm
  · intro m' hm' hspace hbank hbase hindex
    have htexts : s.registerTexts m' = s.registerTexts m := by
      rw [registerTexts, registerTexts, hbase, hindex]
    rw [memory_inj hspace hbank, address_eq hm, address_eq hm', htexts, String.append_right_inj]
    constructor
    · intro h
      have hread := readTerm_displacement s (joined (s.registerTexts m)) m'.displacement
      rw [h, readTerm_displacement] at hread
      exact (Option.some.inj hread).symm
    · intro h
      rw [h]

theorem memory_displacement_min :
    let m : MemoryValue :=
      { space := some "g", bank := none, base := some .zero, index := some (.numbered "r" 3 "")
        displacement := -2 ^ 63, symbol := none }
    let s : Spelling := { uppercaseHex := true }
    m.symbol = none ∧ s.memory m = "g[$r3-0x8000000000000000]" ∧
      (∃ part, readTerm part.toList = some (-2 ^ 63) ∧
        "g[$r3-0x8000000000000000]" = "g[" ++ ("$r3" ++ part) ++ "]") ∧
      s.memory { m with displacement := 2 ^ 63 - 1 } ≠ s.memory m := by
  intro m s
  have htext : s.memory m = "g[$r3-0x8000000000000000]" := by decide +kernel
  have hregisters : joined (s.registerTexts m) = "$r3" := by decide +kernel
  obtain ⟨⟨part, hpart, -, hread, -⟩, hsame⟩ := memory_displacement s m rfl
  rw [htext, hregisters] at hpart
  refine ⟨rfl, htext, ⟨part, hread, hpart⟩, fun h => ?_⟩
  have hdisplacement := (hsame { m with displacement := 2 ^ 63 - 1 } rfl rfl rfl rfl rfl).1 h
  exact absurd hdisplacement (by decide)

/-- Where names may be empty, a sign between all registers would be one too many. -/
theorem memory_nameless :
    let m : MemoryValue :=
      { space := none, bank := none, base := some (.named ""), index := some (.numbered "r" 1 "")
        displacement := 0x10, symbol := none }
    let s : Spelling := { sigil := "" }
    m.symbol = none ∧ s.memory m = "[r1+0x10]" ∧ s.registerTexts m = ["", "r1"] ∧
      ¬∃ part, s.memory m = m.space.getD "" ++ m.bank.elim "" toString ++ "[" ++
        ("+".intercalate (s.registerTexts m) ++ part) ++ "]" := by
  intro m s
  have htext : s.memory m = "[r1+0x10]" := by decide +kernel
  have hregisters : s.registerTexts m = ["", "r1"] := by decide +kernel
  refine ⟨rfl, htext, hregisters, ?_⟩
  rintro ⟨part, hpart⟩
  rw [htext, hregisters] at hpart
  have hlist := congrArg (fun t => t.toList[1]?) hpart
  simp [m] at hlist

end Spelling

end Codeword
