import Codeword.Proofs.Table.Audit
import Codeword.Proofs.Table.Descent
import Codeword.Table.Build

namespace Codeword

namespace Table

variable {start width value n k : Nat} {entries : List (Option (List Atom))} {atoms : List Atom}
  {word : Word}

def entryRow (start width value : Nat) (atoms : List Atom) : Row :=
  ⟨BitVec.ofNat 64 value <<< start, Word.lowBits width <<< start, atoms⟩

def entryRows (start width n : Nat) (entries : List (Option (List Atom))) : List Row :=
  (entries.zipIdx n).filterMap fun (entry, value) => entry.map (entryRow start width value)

/-- The number of rows in front of that of an entry. The entries left out have none. -/
def rank (entries : List (Option (List Atom))) (k : Nat) : Nat :=
  (entries.take k).countP Option.isSome

theorem rows_enumerate (name : String) : (enumerate name start width entries).rows =
    entryRows start width 0 entries ++ [.unknown []] := rfl

theorem shiftLeft_lt (hfit : start + width ≤ 64) (hvalue : value < 2 ^ width) :
    value <<< start < 2 ^ 64 := by
  have hpow : 2 ^ width * 2 ^ start ≤ 2 ^ 64 := by
    rw [← Nat.pow_add]
    exact Nat.pow_le_pow_right (by decide) (by omega)
  rw [Nat.shiftLeft_eq]
  exact Nat.lt_of_lt_of_le (Nat.mul_lt_mul_of_pos_right hvalue (Nat.two_pow_pos start)) hpow

theorem toNat_ofNat_shiftLeft (h : value <<< start < 2 ^ 64) :
    (BitVec.ofNat 64 value <<< start).toNat = value <<< start := by
  have hvalue : value < 2 ^ 64 := by
    rw [Nat.shiftLeft_eq] at h
    exact Nat.lt_of_le_of_lt (Nat.le_mul_of_pos_right _ (Nat.two_pow_pos start)) h
  rw [BitVec.toNat_shiftLeft, BitVec.toNat_ofNat, Nat.mod_eq_of_lt hvalue, Nat.mod_eq_of_lt h]

theorem entryRow_matches (hfit : start + width ≤ 64) (h : value <<< start < 2 ^ 64) :
    (entryRow start width value atoms).Matches word ↔
      (word.extractLsb' start width).toNat = value := by
  have hfield : (word >>> start &&& Word.lowBits width).toNat =
      (word.extractLsb' start width).toNat := by
    rw [Word.toNat_and_lowBits, BitVec.toNat_ushiftRight, BitVec.extractLsb'_toNat]
  have hlt := shiftLeft_lt hfit (word.extractLsb' start width).isLt
  rw [Row.Matches, entryRow, Word.and_lowBits_shiftLeft, ← BitVec.toNat_inj,
    toNat_ofNat_shiftLeft h, BitVec.toNat_shiftLeft, hfield, Nat.mod_eq_of_lt hlt,
    Nat.shiftLeft_eq, Nat.shiftLeft_eq]
  exact Nat.mul_left_inj (Nat.two_pow_pos start).ne'

theorem toNat_extractLsb'_shiftLeft (hfit : start + width ≤ 64) (hvalue : value < 2 ^ width) :
    ((BitVec.ofNat 64 value <<< start).extractLsb' start width).toNat = value := by
  rw [BitVec.extractLsb'_toNat, toNat_ofNat_shiftLeft (shiftLeft_lt hfit hvalue),
    Nat.shiftLeft_shiftRight, Nat.mod_eq_of_lt hvalue]

theorem entryRow_matches_self (hfit : start + width ≤ 64) (hvalue : value < 2 ^ width) :
    (entryRow start width value atoms).Matches (BitVec.ofNat 64 value <<< start) :=
  (entryRow_matches hfit (shiftLeft_lt hfit hvalue)).2 (toNat_extractLsb'_shiftLeft hfit hvalue)

theorem not_entryRow_matches (hfit : start + width ≤ 64) (h : value <<< start < 2 ^ 64)
    (hvalue : 2 ^ width ≤ value) : ¬(entryRow start width value atoms).Matches word := by
  rw [entryRow_matches hfit h]
  exact Nat.ne_of_lt (Nat.lt_of_lt_of_le (word.extractLsb' start width).isLt hvalue)

theorem rank_cons (entry : Option (List Atom)) (entries : List (Option (List Atom))) (k : Nat) :
    rank (entry :: entries) (k + 1) = rank entries k + if entry.isSome then 1 else 0 := by
  rw [rank, List.take_succ_cons, List.countP_cons, rank]

theorem entryRows_some : entryRows start width n (some atoms :: entries) =
    entryRow start width n atoms :: entryRows start width (n + 1) entries := rfl

theorem getElem?_entryRows (start width n : Nat) (hk : entries[k]? = some (some atoms)) :
    (entryRows start width n entries)[rank entries k]? =
      some (entryRow start width (n + k) atoms) := by
  induction entries generalizing n k with
  | nil => simp at hk
  | cons entry entries ih =>
      cases k with
      | zero =>
          cases hk
          rfl
      | succ k =>
          have hrow := ih (n + 1) hk
          rw [Nat.add_assoc, Nat.add_comm 1 k] at hrow
          rw [rank_cons]
          cases entry with
          | none => exact hrow
          | some as => exact hrow

theorem mem_entryRows {r : Row} (h : r ∈ entryRows start width n entries) :
    ∃ k atoms, entries[k]? = some (some atoms) ∧ r = entryRow start width (n + k) atoms := by
  obtain ⟨⟨entry, value⟩, hmem, hrow⟩ := List.mem_filterMap.1 h
  obtain ⟨atoms, rfl, rfl⟩ := Option.map_eq_some_iff.1 hrow
  obtain ⟨hle, hentry⟩ := List.mk_mem_zipIdx_iff_le_and_getElem?_sub.1 hmem
  exact ⟨value - n, atoms, hentry, by rw [Nat.add_sub_cancel' hle]⟩

theorem length_entryRows (start width n : Nat) (entries : List (Option (List Atom))) :
    (entryRows start width n entries).length = rank entries entries.length := by
  induction entries generalizing n with
  | nil => rfl
  | cons entry entries ih =>
      rw [List.length_cons, rank_cons]
      cases entry with
      | none => exact ih (n + 1)
      | some as => exact congrArg (· + 1) (ih (n + 1))

theorem findIdx?_entryRows (hfit : start + width ≤ 64)
    (hsmall : ∀ k < entries.length, (n + k) <<< start < 2 ^ 64)
    (hk : entries[k]? = some (some atoms)) (hword : (word.extractLsb' start width).toNat = n + k) :
    (entryRows start width n entries).findIdx? (·.Matches word) = some (rank entries k) := by
  induction entries generalizing n k with
  | nil => simp at hk
  | cons entry entries ih =>
      have hfirst : n <<< start < 2 ^ 64 := hsmall 0 (Nat.succ_pos _)
      cases k with
      | zero =>
          cases hk
          have hmatch : (entryRow start width n atoms).Matches word :=
            (entryRow_matches hfit hfirst).2 hword
          rw [entryRows_some, List.findIdx?_cons, if_pos (decide_eq_true hmatch)]
          rfl
      | succ k =>
          have htail : (entryRows start width (n + 1) entries).findIdx? (·.Matches word) =
              some (rank entries k) := by
            refine ih (fun i hi => ?_) hk (by omega)
            have hnext := hsmall (i + 1) (Nat.succ_lt_succ hi)
            rwa [Nat.add_comm i 1, ← Nat.add_assoc] at hnext
          rw [rank_cons]
          cases entry with
          | none => exact htail
          | some as =>
              have hother : ¬(entryRow start width n as).Matches word := by
                rw [entryRow_matches hfit hfirst]
                omega
              rw [entryRows_some, List.findIdx?_cons, decide_eq_false hother, htail]
              rfl

theorem findIdx?_entryRows_eq_none (hfit : start + width ≤ 64)
    (hsmall : ∀ k < entries.length, k <<< start < 2 ^ 64)
    (hgap : ∀ atoms, entries[(word.extractLsb' start width).toNat]? ≠ some (some atoms)) :
    (entryRows start width 0 entries).findIdx? (·.Matches word) = none := by
  rw [List.findIdx?_eq_none_iff]
  intro r hr
  obtain ⟨k, atoms, hk, rfl⟩ := mem_entryRows hr
  have hlt := (List.getElem?_eq_some_iff.1 hk).1
  rw [decide_eq_false_iff_not, Nat.zero_add, entryRow_matches hfit (hsmall k hlt)]
  rintro rfl
  exact hgap atoms hk

theorem unknown_matches (word : Word) : (Row.unknown []).Matches word := BitVec.and_zero

theorem exists_not_entryRow_matches (hfit : start + width ≤ 64) (hwidth : 1 ≤ width)
    (hvalue : value < 2 ^ width) : ∃ word, ¬(entryRow start width value atoms).Matches word := by
  have htwo : 2 ^ 1 ≤ 2 ^ width := Nat.pow_le_pow_right (by decide) hwidth
  obtain ⟨other, hother, hne⟩ : ∃ other < 2 ^ width, other ≠ value := by
    by_cases hzero : value = 0
    · exact ⟨1, by omega, by omega⟩
    · exact ⟨0, by omega, by omega⟩
  refine ⟨BitVec.ofNat 64 other <<< start, ?_⟩
  rw [entryRow_matches hfit (shiftLeft_lt hfit hvalue), toNat_extractLsb'_shiftLeft hfit hother]
  exact hne

theorem pairwise_entryRows (hfit : start + width ≤ 64) (hlength : entries.length ≤ 2 ^ width) :
    (entryRows start width 0 entries).Pairwise fun earlier later =>
      ∃ word, later.Matches word ∧ ¬earlier.Matches word := by
  have hlt {a : Option (List Atom) × Nat} (ha : a ∈ entries.zipIdx) : a.2 < 2 ^ width :=
    Nat.lt_of_lt_of_le (List.getElem?_eq_some_iff.1 (List.mem_zipIdx_iff_getElem?.1 ha)).1 hlength
  refine List.Pairwise.filterMap _ ?_ ((pairwise_zipIdx entries).imp_of_mem fun ha hb hab =>
    (⟨hlt ha, hlt hb, hab⟩ : _ < 2 ^ width ∧ _ < 2 ^ width ∧ _ < _))
  rintro ⟨_, i⟩ ⟨_, j⟩ ⟨hi, hj, hij⟩ earlier hearlier later hlater
  obtain ⟨as, -, rfl⟩ := Option.map_eq_some_iff.1 hearlier
  obtain ⟨bs, -, rfl⟩ := Option.map_eq_some_iff.1 hlater
  refine ⟨_, entryRow_matches_self hfit hj, ?_⟩
  rw [entryRow_matches hfit (shiftLeft_lt hfit hi), toNat_extractLsb'_shiftLeft hfit hj]
  exact Nat.ne_of_gt hij

theorem find_enumerate (name : String) (hfit : start + width ≤ 64)
    (hsmall : ∀ k < entries.length, k <<< start < 2 ^ 64)
    (hentry : entries[(word.extractLsb' start width).toNat]? = some (some atoms)) :
    (enumerate name start width entries).find word =
      some (rank entries (word.extractLsb' start width).toNat) := by
  have hrows : (entryRows start width 0 entries).findIdx? (·.Matches word) = _ :=
    findIdx?_entryRows hfit (by simpa using hsmall) hentry (Nat.zero_add _).symm
  rw [find, rows_enumerate, List.findIdx?_append, hrows, Option.some_or]

theorem getElem?_rows_enumerate (name : String) (start width : Nat)
    (hk : entries[k]? = some (some atoms)) :
    (enumerate name start width entries).rows[rank entries k]? =
      some (entryRow start width k atoms) := by
  have hrow := getElem?_entryRows start width 0 hk
  rw [Nat.zero_add] at hrow
  rw [rows_enumerate, List.getElem?_append_left (List.getElem?_eq_some_iff.1 hrow).1, hrow]

theorem tokens_enumerate {s : Site} (name : String) (hfit : start + width ≤ 64)
    (hsmall : ∀ k < entries.length, k <<< start < 2 ^ 64)
    (hentry : entries[(s.word.extractLsb' start width).toNat]? = some (some atoms)) :
    (enumerate name start width entries).tokens s = atomTokens s atoms :=
  tokens_of_find (find_enumerate name hfit hsmall hentry)
    (getElem?_rows_enumerate name start width hentry)

theorem find_enumerate_of_gap (name : String) (hfit : start + width ≤ 64)
    (hsmall : ∀ k < entries.length, k <<< start < 2 ^ 64)
    (hgap : ∀ atoms, entries[(word.extractLsb' start width).toNat]? ≠ some (some atoms)) :
    (enumerate name start width entries).find word = some (rank entries entries.length) := by
  have hlast : [Row.unknown []].findIdx? (·.Matches word) = some 0 := by
    rw [List.findIdx?_cons, if_pos (decide_eq_true (unknown_matches word))]
  rw [find, rows_enumerate, List.findIdx?_append, findIdx?_entryRows_eq_none hfit hsmall hgap,
    Option.none_or, hlast, Option.map_some, Nat.zero_add, length_entryRows]

theorem getElem?_rows_enumerate_length (name : String) (start width : Nat)
    (entries : List (Option (List Atom))) :
    (enumerate name start width entries).rows[rank entries entries.length]? =
      some (.unknown []) := by
  rw [rows_enumerate, ← length_entryRows start width 0 entries,
    List.getElem?_append_right (Nat.le_refl _), Nat.sub_self]
  rfl

theorem malformed_enumerate (name : String) (hfit : start + width ≤ 64)
    (hlength : entries.length ≤ 2 ^ width) :
    (enumerate name start width entries).malformed = [] := by
  apply malformed_eq_nil
  intro r hr
  rw [rows_enumerate, List.mem_append, List.mem_singleton] at hr
  rcases hr with hr | rfl
  · obtain ⟨k, atoms, hk, rfl⟩ := mem_entryRows hr
    have hlt := (List.getElem?_eq_some_iff.1 hk).1
    exact ⟨_, entryRow_matches_self hfit (by omega)⟩
  · exact ⟨0, unknown_matches 0⟩

theorem shadowed_enumerate (name : String) (hfit : start + width ≤ 64) (hwidth : 1 ≤ width)
    (hlength : entries.length ≤ 2 ^ width) :
    (enumerate name start width entries).shadowed = [] := by
  apply shadowed_eq_nil
  rw [rows_enumerate, List.pairwise_append]
  refine ⟨pairwise_entryRows hfit hlength, List.pairwise_singleton _ _, ?_⟩
  intro earlier hearlier later hlater
  rw [List.mem_singleton.1 hlater]
  obtain ⟨k, atoms, hk, rfl⟩ := mem_entryRows hearlier
  have hlt := (List.getElem?_eq_some_iff.1 hk).1
  have hvalue : 0 + k < 2 ^ width := by omega
  obtain ⟨word, hword⟩ := exists_not_entryRow_matches hfit hwidth hvalue
  exact ⟨word, unknown_matches word, hword⟩

/-- A word takes the row of the entry for its field and writes the atoms of that entry. Without an
entry it takes the last row and is unknown. Entries that the field cannot hold are never taken, and
where there are none, the audits have nothing to report. -/
theorem enumerate_exact (name : String) (start width : Nat) (entries : List (Option (List Atom)))
    (hfit : start + width ≤ 64) (hsmall : ∀ k < entries.length, k <<< start < 2 ^ 64) :
    let t := enumerate name start width entries
    (∀ s : Site, let v := (s.word.extractLsb' start width).toNat
      (∀ atoms, entries[v]? = some (some atoms) →
        t.find s.word = some (rank entries v) ∧
          t.rows[rank entries v]? = some (entryRow start width v atoms) ∧
          t.tokens s = atomTokens s atoms) ∧
      ((∀ atoms, entries[v]? ≠ some (some atoms)) →
        t.find s.word = some (rank entries entries.length) ∧
          t.rows[rank entries entries.length]? = some (.unknown []) ∧
          t.tokens s = .ok [.unrecognized])) ∧
    (∀ k atoms, entries[k]? = some (some atoms) → 2 ^ width ≤ k →
      t.rows[rank entries k]? = some (entryRow start width k atoms) ∧
        ∀ word, ¬(entryRow start width k atoms).Matches word) ∧
    (1 ≤ width → entries.length ≤ 2 ^ width → t.malformed = [] ∧ t.shadowed = []) := by
  intro t
  refine ⟨fun s => ⟨?_, ?_⟩, ?_, ?_⟩
  · intro atoms hentry
    have hfind := find_enumerate name hfit hsmall hentry
    have hrow := getElem?_rows_enumerate name start width hentry
    exact ⟨hfind, hrow, tokens_of_find hfind hrow⟩
  · intro hgap
    have hfind := find_enumerate_of_gap name hfit hsmall hgap
    have hrow := getElem?_rows_enumerate_length name start width entries
    exact ⟨hfind, hrow, tokens_of_find hfind hrow⟩
  · intro k atoms hk hlarge
    have hlt := (List.getElem?_eq_some_iff.1 hk).1
    refine ⟨getElem?_rows_enumerate name start width hk, fun word => ?_⟩
    exact not_entryRow_matches hfit (hsmall k hlt) hlarge
  · intro hwidth hlength
    exact ⟨malformed_enumerate name hfit hlength, shadowed_enumerate name hfit hwidth hlength⟩

theorem enumerate_exact_gap :
    (∃ t : Table, t = enumerate "scale" 49 2 [none, some [.modifier "mul2"], none] ∧
      t.find (1 <<< 49) = some 0 ∧ t.tokens { word := 1 <<< 49 } = .ok [.modifier "mul2"] ∧
      t.tokens { word := 2 <<< 49 } = .ok [.unrecognized] ∧
      t.tokens { word := 3 <<< 49 } = .ok [.unrecognized] ∧ t.malformed = [] ∧ t.shadowed = []) ∧
    ∀ word, ¬(entryRow 62 1 2 [.modifier "two"]).Matches word := by
  obtain ⟨hrows, -, haudits⟩ := enumerate_exact "scale" 49 2
    [none, some [.modifier "mul2"], none] (by decide) (by decide)
  obtain ⟨-, hspill, -⟩ := enumerate_exact "spill" 62 1
    [none, some [], some [.modifier "two"]] (by decide) (by decide)
  obtain ⟨hfind, -, htokens⟩ := (hrows { word := 1 <<< 49 }).1 [.modifier "mul2"] rfl
  have hgap := (hrows { word := 2 <<< 49 }).2 (by rintro atoms ⟨⟩)
  have hend := (hrows { word := 3 <<< 49 }).2 (by rintro atoms ⟨⟩)
  obtain ⟨hmalformed, hshadowed⟩ := haudits (by decide) (by decide)
  exact ⟨⟨_, rfl, hfind, htokens, hgap.2.2, hend.2.2, hmalformed, hshadowed⟩,
    (hspill 2 [.modifier "two"] rfl (by decide)).2⟩

end Table

end Codeword
