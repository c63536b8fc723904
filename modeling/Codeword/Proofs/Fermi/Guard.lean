import Codeword.Proofs.Fermi.Decoding
import Codeword.Proofs.Table.Locality
import Codeword.Proofs.Table.Writing

namespace Codeword.Fermi

open Word

variable {s : Site}

def joinTokens (join : Bool) : List Token := if join then [.modifier "join"] else []

/-- The number of a predicate and, in the highest bit, whether it is inverted. The last predicate
is always true. -/
def guardTokens (g : BitVec 4) : List Token :=
  let number := (g.setWidth 3).toNat
  if number = 7 then if g.msb then [.modifier "never"] else []
  else (if g.msb then [.modifier "not"] else []) ++
    [.operand (.register (.numbered "p" number ""))]

def guardBits : Word := 0x3c00

/-- Bit 4, and bit 3, which has no meaning. -/
def joinBits : Word := 0x18

theorem agreeOn_guardBits (word : Word) :
    AgreeOn guardBits word ((word.extractLsb' 10 4).setWidth 64 <<< 10) := by
  have hbits : guardBits = lowBits 4 <<< 10 := rfl
  rw [hbits, agreeOn_iff]
  intro i hi
  simp only [BitVec.getLsbD_shiftLeft, getLsbD_lowBits, Bool.and_eq_true, decide_eq_true_eq,
    Bool.not_eq_true', decide_eq_false_iff_not] at hi
  have hback : 10 + (i - 10) = i := by omega
  simp [hi, hback]

theorem guard_tokens_shifted (g : BitVec 4) (address : Word) (symbols : Symbols) :
    guard.tokens { word := g.setWidth 64 <<< 10, address, symbols } = .ok (guardTokens g) := by
  obtain ⟨g⟩ := g
  fin_cases g <;> cbv

theorem guard_every_ignores : guard.every (Table.ignores (~~~guardBits)) = true := by
  decide +kernel

theorem guard_tokens (s : Site) :
    guard.tokens s = .ok (guardTokens (s.word.extractLsb' 10 4)) := by
  -- No other bits are read, so the sixteen words that have only these stand for all.
  have hagree := agreeOn_guardBits s.word
  have hshifted := guard_tokens_shifted (s.word.extractLsb' 10 4) s.address s.symbols
  rw [← BitVec.not_not (b := guardBits)] at hagree
  exact Table.tokens_of_ignores guard_every_ignores hagree hshifted

theorem root_refers_ops : Table.Refers root ops :=
  Table.mem_references.2 ⟨⟨0x00, 0x10, [guard, ops]⟩, by simp [root], by simp⟩

theorem exists_ops_tokens (s : Site) : ∃ ts, ops.tokens s = .ok ts := by
  refine Table.exists_tokens fun u hu => isSome_find (.head root_refers_ops ?_) _
  exact Relation.ReflTransGen.mono (fun _ _ => Table.Enters.refers) _ _ hu

theorem root_tokens_of_class (h : s.word &&& 7 = 7) : root.tokens s = control.tokens s := by
  obtain ⟨ts, hts⟩ := exists_root_tokens s
  rw [root, Table.tokens, firstRow, if_pos h] at hts ⊢
  obtain ⟨us, vs, hus, hvs, rfl⟩ := atomTokens_cons_eq_ok.1 hts
  cases hvs
  rw [hts, List.append_nil]
  exact hus.symm

theorem root_tokens_of_not_class (h : s.word &&& 7 ≠ 7) {ts : List Token}
    (hts : ops.tokens s = .ok ts) :
    root.tokens s = .ok (joinTokens (s.word.getLsbD 4) ++
      guardTokens (s.word.extractLsb' 10 4) ++ ts) := by
  have hbit : s.word &&& 0x10 = if s.word.getLsbD 4 then 0x10 else 0 := Table.and_bit s.word 4
  have hguarded : atomTokens s [guard, ops] =
      .ok (guardTokens (s.word.extractLsb' 10 4) ++ ts) := by
    refine atomTokens_cons_eq_ok.2 ⟨_, ts, guard_tokens s, ?_, rfl⟩
    exact atomTokens_cons_eq_ok.2 ⟨ts, [], hts, rfl, (List.append_nil ts).symm⟩
  rw [root, Table.tokens, firstRow, if_neg h, firstRow]
  cases hjoin : s.word.getLsbD 4 with
  | false =>
      rw [hjoin, if_neg Bool.false_ne_true] at hbit
      rw [if_pos hbit, hguarded]
      rfl
  | true =>
      rw [hjoin, if_pos rfl] at hbit
      rw [if_neg (by rw [hbit]; decide), firstRow, if_pos hbit]
      exact atomTokens_cons_eq_ok.2 ⟨_, _, rfl, hguarded, rfl⟩

theorem exists_ops_tokens_of_not_class (h : s.word &&& 7 ≠ 7) {ts : List Token}
    (hts : root.tokens s = .ok ts) : ∃ us, ops.tokens s = .ok us ∧
      ts = joinTokens (s.word.getLsbD 4) ++ guardTokens (s.word.extractLsb' 10 4) ++ us := by
  obtain ⟨us, hus⟩ := exists_ops_tokens s
  exact ⟨us, hus, Except.ok.inj (hts.symm.trans (root_tokens_of_not_class h hus))⟩

theorem exists_ops_tokens_of_mem {test : Atom → Bool} {x : Token} {ts : List Token}
    (hcontrol : control.every (Table.excludes test) = true) (htest : Detects test s x)
    (hts : root.tokens s = .ok ts) (hx : x ∈ ts) : ∃ us, ops.tokens s = .ok us ∧
      ts = joinTokens (s.word.getLsbD 4) ++ guardTokens (s.word.extractLsb' 10 4) ++ us := by
  refine exists_ops_tokens_of_not_class (fun hclass => ?_) hts
  rw [root_tokens_of_class hclass] at hts
  exact Table.not_mem_of_every_excludes hcontrol htest hts hx

theorem ops_every_ignores : ops.every (Table.ignores (joinBits ||| guardBits)) = true := by
  decide +kernel

theorem control_every_ignores : control.every (Table.ignores joinBits) = true := by
  decide +kernel

/-- The flag that joins a warp and the guard are written in front of an instruction and make no
other difference to it. Control flow does not know the flag. -/
theorem root_tokens_orthogonal (s : Site) :
    (s.word &&& 7 ≠ 7 → ∃ ts, ops.tokens s = .ok ts ∧
      root.tokens s = .ok (joinTokens (s.word.getLsbD 4) ++
        guardTokens (s.word.extractLsb' 10 4) ++ ts) ∧
      ∀ word, AgreeOn (~~~(joinBits ||| guardBits)) word s.word →
        ops.tokens { s with word } = .ok ts) ∧
    (s.word &&& 7 = 7 → ∃ ts, root.tokens s = .ok ts ∧
      ∀ word, AgreeOn (~~~joinBits) word s.word → root.tokens { s with word } = .ok ts) := by
  constructor
  · intro h
    obtain ⟨ts, hts⟩ := exists_ops_tokens s
    refine ⟨ts, hts, root_tokens_of_not_class h hts, fun word hword => ?_⟩
    exact Table.tokens_of_ignores ops_every_ignores hword hts
  · intro h
    obtain ⟨ts, hts⟩ := exists_root_tokens s
    refine ⟨ts, hts, fun word hword => ?_⟩
    have hclass : word &&& 7 = s.word &&& 7 := hword.of_disjoint rfl
    rw [root_tokens_of_class h] at hts
    rw [root_tokens_of_class (hclass.trans h)]
    exact Table.tokens_of_ignores control_every_ignores hword hts

theorem root_tokens_orthogonal_join :
    (∃ ts, ops.tokens { word := 0x5000000000002410 } = .ok ts ∧
      root.tokens { word := 0x5000000000002410 } = .ok ([.modifier "join", .modifier "not",
        .operand (.register (.numbered "p" 1 ""))] ++ ts) ∧
      ops.tokens { word := 0x5000000000001c08 } = .ok ts) ∧
    ∃ ts, root.tokens { word := 0x8000000000001de7 } = .ok ts ∧
      root.tokens { word := 0x8000000000001dff } = .ok ts := by
  obtain ⟨ts, hops, hroot, hsame⟩ :=
    (root_tokens_orthogonal { word := 0x5000000000002410 }).1 (by decide)
  obtain ⟨us, hus, hexit⟩ := (root_tokens_orthogonal { word := 0x8000000000001de7 }).2 (by decide)
  exact ⟨⟨ts, hops, hroot, hsame _ (by decide)⟩, us, hus, hexit _ (by decide)⟩

end Codeword.Fermi
