import Codeword.Field.Layout
import Codeword.Proofs.Word

namespace Codeword

namespace Piece

variable {p q : Piece} {word bits : Word}

theorem get_eq (p : Piece) (word : Word) : p.get word = (word &&& p.mask) >>> p.start :=
  Word.and_lowBits_shiftRight word p.width p.start

theorem put_and_not_mask (p : Piece) (word bits : Word) :
    p.put word bits &&& ~~~p.mask = word &&& ~~~p.mask := by
  apply BitVec.eq_of_getLsbD_eq
  intro i hi
  simp only [put, mask, BitVec.getLsbD_or, BitVec.getLsbD_and, BitVec.getLsbD_not,
    BitVec.getLsbD_shiftLeft]
  by_cases hstart : i < p.start
  · simp [hi, hstart]
  · cases (Word.lowBits p.width).getLsbD (i - p.start) <;> simp [hi, hstart]

theorem get_put (h : p.Inside) (word bits : Word) :
    p.get (p.put word bits) = bits &&& Word.lowBits p.width := by
  have hfits := h.2
  apply BitVec.eq_of_getLsbD_eq
  intro i hi
  simp only [get, put, mask, BitVec.getLsbD_or, BitVec.getLsbD_and, BitVec.getLsbD_not,
    BitVec.getLsbD_shiftLeft, BitVec.getLsbD_ushiftRight, Word.getLsbD_lowBits]
  have hback : p.start + i - p.start = i := by omega
  have hle : ¬p.start + i < p.start := by omega
  by_cases hw : i < p.width
  · have hword : p.start + i < 64 := by omega
    simp [hw, hi, hback, hle, hword]
  · simp [hw]

theorem get_and_lowBits (p : Piece) (word : Word) :
    p.get word &&& Word.lowBits p.width = p.get word := by
  rw [get, BitVec.and_assoc, BitVec.and_self]

theorem put_congr {a b : Word} (h : Word.AgreeOn (Word.lowBits p.width) a b) (word : Word) :
    p.put word a = p.put word b := by
  rw [put, put, h]

theorem put_get (p : Piece) (word : Word) : p.put word (p.get word) = word := by
  apply BitVec.eq_of_getLsbD_eq
  intro i hi
  simp only [put, get, mask, BitVec.getLsbD_or, BitVec.getLsbD_and, BitVec.getLsbD_not,
    BitVec.getLsbD_shiftLeft, BitVec.getLsbD_ushiftRight]
  by_cases hstart : i < p.start
  · simp [hi, hstart]
  · have hback : p.start + (i - p.start) = i := by omega
    cases (Word.lowBits p.width).getLsbD (i - p.start) <;> simp [hi, hstart, hback]

theorem getLsbD_put (p : Piece) (word bits : Word) {i : Nat} (hi : i < 64) :
    (p.put word bits).getLsbD i =
      if p.mask.getLsbD i then bits.getLsbD (i - p.start) else word.getLsbD i := by
  simp only [put, mask, BitVec.getLsbD_or, BitVec.getLsbD_and, BitVec.getLsbD_not,
    BitVec.getLsbD_shiftLeft]
  by_cases hstart : i < p.start
  · simp [hi, hstart]
  · cases (Word.lowBits p.width).getLsbD (i - p.start) <;> simp [hi, hstart]

theorem put_agreeOn {m a b : Word} (h : Word.AgreeOn m a b) (bits : Word) :
    Word.AgreeOn (p.mask ||| m) (p.put a bits) (p.put b bits) := by
  rw [Word.agreeOn_iff]
  intro i hi
  have hword : i < 64 := BitVec.lt_of_getLsbD hi
  rw [getLsbD_put p a bits hword, getLsbD_put p b bits hword]
  cases hp : p.mask.getLsbD i with
  | true => rfl
  | false =>
      rw [BitVec.getLsbD_or, hp, Bool.false_or] at hi
      exact Word.agreeOn_iff.1 h i hi

theorem get_put_of_disjoint (h : p.mask &&& q.mask = 0) (word bits : Word) :
    q.get (p.put word bits) = q.get word := by
  have houtside := Word.not_and_of_disjoint h
  rw [get_eq, get_eq, ← houtside, ← BitVec.and_assoc, put_and_not_mask, BitVec.and_assoc]

end Piece

-- A layout folds over its pieces with what was taken so far. Here the first piece stands apart from
-- the others, which is what an induction over the pieces needs.

def gatherPieces : List Piece → Word → Word
  | [], _ => 0
  | p :: ps, word => p.get word <<< totalWidth ps ||| gatherPieces ps word

def scatterPieces : List Piece → Word → Word → Word
  | [], word, _ => word
  | p :: ps, word, bits => p.put (scatterPieces ps word bits) (bits >>> totalWidth ps)

def maskPieces : List Piece → Word
  | [] => 0
  | p :: ps => p.mask ||| maskPieces ps

def pieceBits : (ps : List Piece) → Word → BitVec (totalWidth ps)
  | [], _ => 0#0
  | p :: ps, word => word.extractLsb' p.start p.width ++ pieceBits ps word

section pieces

variable {p : Piece} {ps : List Piece} {word bits : Word}

theorem foldl_gather (ps : List Piece) (word bits : Word) :
    ps.foldl (fun bits p => bits <<< p.width ||| p.get word) bits =
      bits <<< totalWidth ps ||| gatherPieces ps word := by
  induction ps generalizing bits with
  | nil => simp [totalWidth, gatherPieces]
  | cons p ps ih =>
      rw [List.foldl_cons, ih, BitVec.shiftLeft_or_distrib, ← BitVec.shiftLeft_add, BitVec.or_assoc]
      rfl

theorem foldr_scatter (ps : List Piece) (word bits : Word) :
    ps.foldr (fun p s => (p.put s.1 s.2, s.2 >>> p.width)) (word, bits) =
      (scatterPieces ps word bits, bits >>> totalWidth ps) := by
  induction ps with
  | nil => simp [totalWidth, scatterPieces]
  | cons p ps ih =>
      rw [List.foldr_cons, ih, ← BitVec.shiftRight_add, Nat.add_comm]
      rfl

theorem foldl_mask (ps : List Piece) (m : Word) :
    ps.foldl (fun m p => m ||| p.mask) m = m ||| maskPieces ps := by
  induction ps generalizing m with
  | nil => simp [maskPieces]
  | cons p ps ih =>
      rw [List.foldl_cons, ih, BitVec.or_assoc]
      rfl

theorem scatterPieces_and_not_mask (ps : List Piece) (word bits : Word) :
    scatterPieces ps word bits &&& ~~~maskPieces ps = word &&& ~~~maskPieces ps := by
  induction ps with
  | nil => rfl
  | cons p ps ih =>
      rw [scatterPieces, maskPieces, BitVec.not_or, ← BitVec.and_assoc, Piece.put_and_not_mask,
        BitVec.and_assoc, BitVec.and_comm (~~~p.mask), ← BitVec.and_assoc, ih, BitVec.and_assoc]

theorem gatherPieces_put (h : ∀ q ∈ ps, p.mask &&& q.mask = 0) (word bits : Word) :
    gatherPieces ps (p.put word bits) = gatherPieces ps word := by
  induction ps with
  | nil => rfl
  | cons q ps ih =>
      rw [gatherPieces, gatherPieces, Piece.get_put_of_disjoint (h q (by simp)),
        ih fun r hr => h r (by simp [hr])]

theorem gatherPieces_scatterPieces (hinside : ∀ p ∈ ps, p.Inside)
    (hdisjoint : ps.Pairwise fun p q => p.mask &&& q.mask = 0) (word bits : Word) :
    gatherPieces ps (scatterPieces ps word bits) = bits &&& Word.lowBits (totalWidth ps) := by
  induction hdisjoint with
  | nil => simp [gatherPieces, totalWidth, Word.lowBits_zero]
  | @cons p ps hp _ ih =>
      rw [gatherPieces, scatterPieces, Piece.get_put (hinside p (by simp)), gatherPieces_put hp,
        ih fun q hq => hinside q (by simp [hq]), Word.shiftLeft_or_lowBits]
      rfl

theorem scatterPieces_congr {a b : Word} (h : Word.AgreeOn (Word.lowBits (totalWidth ps)) a b)
    (word : Word) : scatterPieces ps word a = scatterPieces ps word b := by
  induction ps with
  | nil => rfl
  | cons p ps ih =>
      rw [totalWidth, Word.lowBits_add, Word.agreeOn_or] at h
      obtain ⟨hp, hps⟩ := h
      have hhigh : Word.AgreeOn (Word.lowBits p.width) (a >>> totalWidth ps)
          (b >>> totalWidth ps) := by
        rw [Word.AgreeOn, Word.and_lowBits_shiftRight, Word.and_lowBits_shiftRight, hp]
      rw [scatterPieces, scatterPieces, ih hps, Piece.put_congr hhigh]

theorem scatterPieces_agreeOn (ps : List Piece) (a b bits : Word) :
    Word.AgreeOn (maskPieces ps) (scatterPieces ps a bits) (scatterPieces ps b bits) := by
  induction ps with
  | nil => simp [Word.AgreeOn, maskPieces]
  | cons p ps ih => exact Piece.put_agreeOn ih _

theorem gatherPieces_and_lowBits (h : totalWidth ps ≤ 64) (word : Word) :
    gatherPieces ps word &&& Word.lowBits (totalWidth ps) = gatherPieces ps word := by
  induction ps with
  | nil => simp [gatherPieces]
  | cons p ps ih =>
      have hrest := ih (Nat.le_trans (Nat.le_add_left _ _) h)
      rw [gatherPieces, totalWidth, ← Word.shiftLeft_or_lowBits,
        Word.shiftLeft_or_shiftRight _ hrest h, Word.shiftLeft_or_and_lowBits _ hrest,
        Piece.get_and_lowBits]

/-- What was gathered is stored where it comes from, also in pieces that overlap. -/
theorem scatterPieces_gatherPieces (h : totalWidth ps ≤ 64) (word : Word) :
    scatterPieces ps word (gatherPieces ps word) = word := by
  induction ps with
  | nil => rfl
  | cons p ps ih =>
      have hps : totalWidth ps ≤ 64 := Nat.le_trans (Nat.le_add_left _ _) h
      have hrest := gatherPieces_and_lowBits hps word
      have hlow : Word.AgreeOn (Word.lowBits (totalWidth ps)) (gatherPieces (p :: ps) word)
          (gatherPieces ps word) := by
        rw [Word.AgreeOn, gatherPieces, Word.shiftLeft_or_and_lowBits _ hrest, hrest]
      have hhigh : Word.AgreeOn (Word.lowBits p.width)
          (gatherPieces (p :: ps) word >>> totalWidth ps) (p.get word) :=
        Word.shiftLeft_or_shiftRight _ hrest h
      rw [scatterPieces, scatterPieces_congr hlow, ih hps, Piece.put_congr hhigh, Piece.put_get]

theorem getLsbD_pieceBits_cons (p : Piece) (ps : List Piece) (word : Word) (i : Nat) :
    (pieceBits (p :: ps) word).getLsbD i =
      if i < totalWidth ps then (pieceBits ps word).getLsbD i
      else (word.extractLsb' p.start p.width).getLsbD (i - totalWidth ps) :=
  BitVec.getLsbD_append

theorem pieceBits_single (p : Piece) (word : Word) :
    pieceBits [p] word = word.extractLsb' p.start p.width := by
  apply BitVec.eq_of_getLsbD_eq
  intro i hi
  rw [getLsbD_pieceBits_cons]
  exact if_neg (Nat.not_lt_zero i)

theorem pieceBits_pair (p q : Piece) (word : Word) : pieceBits [p, q] word =
    word.extractLsb' p.start p.width ++ word.extractLsb' q.start q.width :=
  congrArg (word.extractLsb' p.start p.width ++ ·) (pieceBits_single q word)

theorem gatherPieces_eq_setWidth (h : totalWidth ps ≤ 64) (word : Word) :
    gatherPieces ps word = (pieceBits ps word).setWidth 64 := by
  induction ps with
  | nil => rfl
  | cons p ps ih =>
      have hrest := ih (Nat.le_trans (Nat.le_add_left _ _) h)
      apply BitVec.eq_of_getLsbD_eq
      intro i hi
      rw [gatherPieces, hrest, BitVec.getLsbD_or, BitVec.getLsbD_shiftLeft, Piece.get,
        BitVec.getLsbD_and, BitVec.getLsbD_ushiftRight, Word.getLsbD_lowBits,
        BitVec.getLsbD_setWidth, BitVec.getLsbD_setWidth, getLsbD_pieceBits_cons,
        BitVec.getLsbD_extractLsb']
      by_cases hlow : i < totalWidth ps
      · simp [hi, hlow]
      · have hnone : (pieceBits ps word).getLsbD i = false :=
          BitVec.getLsbD_of_ge _ _ (Nat.le_of_not_lt hlow)
        have hin : i - totalWidth ps < 64 := by omega
        simp [hi, hlow, hnone, hin, Bool.and_comm]

theorem gatherPieces_congr {a b : Word} (h : Word.AgreeOn (maskPieces ps) a b) :
    gatherPieces ps a = gatherPieces ps b := by
  induction ps with
  | nil => rfl
  | cons p ps ih =>
      obtain ⟨hp, hps⟩ := Word.agreeOn_or.1 h
      rw [gatherPieces, gatherPieces, Piece.get_eq, Piece.get_eq, hp, ih hps]

end pieces

namespace Layout

def Disjoint (l : Layout) : Prop := l.pieces.Pairwise fun p q => p.mask &&& q.mask = 0

instance (l : Layout) : Decidable l.Disjoint := inferInstanceAs (Decidable (List.Pairwise _ _))

variable {l : Layout} {ps : List Piece}

theorem misplaced_eq_none (h : ∀ p ∈ ps, p.Inside) : misplaced ps = none := by
  induction ps with
  | nil => rfl
  | cons p ps ih =>
      obtain ⟨hstart, hend⟩ := h p (by simp)
      rw [misplaced, if_neg (Nat.not_le.2 hstart), if_neg (Nat.not_lt.2 hend)]
      exact ih fun q hq => h q (by simp [hq])

theorem ofPieces_eq_ok : ofPieces ps = .ok l ↔ l.pieces = ps := by
  constructor
  · intro h
    rw [ofPieces] at h
    split at h
    · split at h
      · cases h
      · split at h
        · cases h
          rfl
        · cases h
    · cases h
  · rintro rfl
    rw [ofPieces, dif_pos l.few]
    split
    next e he =>
      rw [misplaced_eq_none l.inside] at he
      cases he
    next => rw [dif_pos l.narrow]

theorem gather_eq (l : Layout) (word : Word) : l.gather word = gatherPieces l.pieces word := by
  rw [gather, foldl_gather]
  simp

def bits (l : Layout) (word : Word) : BitVec l.width := pieceBits l.pieces word

theorem setWidth_gather (l : Layout) (word : Word) :
    (l.gather word).setWidth l.width = l.bits word := by
  rw [gather_eq, gatherPieces_eq_setWidth l.narrow]
  exact (BitVec.setWidth_setWidth_of_le _ l.narrow).trans (BitVec.setWidth_eq _)

theorem scatter_eq (l : Layout) (word bits : Word) :
    l.scatter word bits = scatterPieces l.pieces word bits := by
  rw [scatter, foldr_scatter]

theorem mask_eq (l : Layout) : l.mask = maskPieces l.pieces := by
  rw [mask, foldl_mask]
  simp

theorem scatter_and_not_mask (l : Layout) (word bits : Word) :
    l.scatter word bits &&& ~~~l.mask = word &&& ~~~l.mask := by
  rw [scatter_eq, mask_eq, scatterPieces_and_not_mask]

theorem gather_congr {a b : Word} (h : Word.AgreeOn l.mask a b) : l.gather a = l.gather b := by
  rw [mask_eq] at h
  rw [gather_eq, gather_eq, gatherPieces_congr h]

theorem gather_scatter (h : l.Disjoint) (word bits : Word) :
    l.gather (l.scatter word bits) = bits &&& Word.lowBits l.width := by
  rw [gather_eq, scatter_eq, gatherPieces_scatterPieces l.inside h]
  rfl

theorem scatter_congr {a b : Word} (h : Word.AgreeOn (Word.lowBits l.width) a b) (word : Word) :
    l.scatter word a = l.scatter word b := by
  rw [scatter_eq, scatter_eq, scatterPieces_congr h]

theorem scatter_agreeOn (l : Layout) (a b bits : Word) :
    Word.AgreeOn l.mask (l.scatter a bits) (l.scatter b bits) := by
  rw [scatter_eq, scatter_eq, mask_eq]
  exact scatterPieces_agreeOn _ _ _ _

theorem toNat_gather_lt (l : Layout) (word : Word) : (l.gather word).toNat < 2 ^ l.width := by
  rw [gather_eq, ← gatherPieces_and_lowBits l.narrow, Word.toNat_and_lowBits]
  exact Nat.mod_lt _ (Nat.two_pow_pos _)

theorem scatter_gather (l : Layout) (word : Word) : l.scatter word (l.gather word) = word := by
  rw [gather_eq, scatter_eq, scatterPieces_gatherPieces l.narrow]

end Layout

end Codeword
