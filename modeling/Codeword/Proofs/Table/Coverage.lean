import Codeword.Proofs.Table.Emission
import Codeword.Table.Build

namespace Codeword

mutual

/-- Whether a table passes a test, and every table that it leads to. -/
def Table.every (test : Table → Bool) : Table → Bool
  | ⟨name, rows⟩ => test ⟨name, rows⟩ && rowsEvery test rows

def rowsEvery (test : Table → Bool) : List Row → Bool
  | [] => true
  | ⟨_, _, atoms⟩ :: rows => atomsEvery test atoms && rowsEvery test rows

def atomsEvery (test : Table → Bool) : List Atom → Bool
  | [] => true
  | a :: as => a.every test && atomsEvery test as

def Atom.every (test : Table → Bool) : Atom → Bool
  | .table t => t.every test
  | _ => true

end

variable {test : Table → Bool}

theorem atomsEvery_eq_all (as : List Atom) : atomsEvery test as = as.all (Atom.every test) := by
  induction as with
  | nil => rfl
  | cons a as ih => rw [atomsEvery, List.all_cons, ih]

theorem rowsEvery_eq_all (rows : List Row) :
    rowsEvery test rows = rows.all fun r => r.atoms.all (Atom.every test) := by
  induction rows with
  | nil => rfl
  | cons r rows ih =>
      obtain ⟨value, mask, atoms⟩ := r
      rw [rowsEvery, List.all_cons, ih, atomsEvery_eq_all]

namespace Table

variable {t u : Table}

theorem every_of_refers (h : t.every test = true) (hu : Refers t u) : u.every test = true := by
  obtain ⟨r, hr, ha⟩ := mem_references.1 hu
  obtain ⟨name, rows⟩ := t
  rw [every, Bool.and_eq_true, rowsEvery_eq_all] at h
  exact List.all_eq_true.1 (List.all_eq_true.1 h.2 r hr) _ ha

theorem test_of_every (h : t.every test = true) (hu : Relation.ReflTransGen Refers t u) :
    test u = true := by
  have hu' : u.every test = true := by
    induction hu with
    | refl => exact h
    | tail _ hstep ih => exact every_of_refers ih hstep
  obtain ⟨name, rows⟩ := u
  rw [every, Bool.and_eq_true] at hu'
  exact hu'.1

theorem bit_eq_twoPow (i : Nat) : bit i = BitVec.twoPow 64 i := by
  apply BitVec.eq_of_toNat_eq
  rw [BitVec.toNat_twoPow, bit, Nat.one_shiftLeft]
  exact BitVec.toNat_ofNat _ _

theorem and_bit (word : Word) (i : Nat) : word &&& bit i = if word.getLsbD i then bit i else 0 := by
  rw [bit_eq_twoPow]
  exact BitVec.and_twoPow word i

theorem tokens_choice {s : Site} (name : String) {position : Nat} (off on : List Atom)
    (hposition : position < 64) : (choice name position off on).tokens s =
      atomTokens s (if s.word.getLsbD position then on else off) := by
  have hbit : bit position ≠ 0 := by
    intro hzero
    have hset := BitVec.getLsbD_twoPow (w := 64) position position
    rw [← bit_eq_twoPow, hzero] at hset
    simp [hposition] at hset
  rw [choice, tokens, firstRow, firstRow, and_bit]
  cases s.word.getLsbD position with
  | false => exact if_pos rfl
  | true =>
      rw [if_pos rfl, if_neg hbit]
      exact if_pos rfl

/-- Whether the form of the rows shows that no word is left out: one row asks for nothing, or
two ask for the two values of one bit. -/
def isTotal (t : Table) : Bool :=
  t.rows.any (fun r => r.mask = 0 ∧ r.value = 0) ||
    (List.range 64).any fun i =>
      t.rows.any (fun r => r.mask = bit i ∧ r.value = 0) &&
        t.rows.any fun r => r.mask = bit i ∧ r.value = bit i

theorem exists_row_of_isTotal (h : t.isTotal = true) (word : Word) :
    ∃ r ∈ t.rows, r.Matches word := by
  simp only [isTotal, Bool.or_eq_true, List.any_eq_true, Bool.and_eq_true, decide_eq_true_eq] at h
  rcases h with ⟨r, hr, hmask, hvalue⟩ | ⟨i, -, ⟨r, hr, hmask, hvalue⟩, r', hr', hmask', hvalue'⟩
  · exact ⟨r, hr, by rw [Row.Matches, hmask, hvalue]; exact BitVec.and_zero⟩
  · cases hword : word.getLsbD i with
    | false => exact ⟨r, hr, by rw [Row.Matches, hmask, hvalue, and_bit, hword]; rfl⟩
    | true => exact ⟨r', hr', by rw [Row.Matches, hmask', hvalue', and_bit, hword]; rfl⟩

theorem isSome_find_of_isTotal (h : t.isTotal = true) (word : Word) : (t.find word).isSome := by
  obtain ⟨r, hr, hmatch⟩ := exists_row_of_isTotal h word
  rw [find, List.findIdx?_isSome, List.any_eq_true]
  exact ⟨r, hr, decide_eq_true hmatch⟩

end Table

end Codeword
