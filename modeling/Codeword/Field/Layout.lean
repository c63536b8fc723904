import Codeword.Word

namespace Codeword

/-- A run of bits; bit 0 is the least significant of the word. -/
structure Piece where
  start : Nat
  width : Nat
  deriving DecidableEq, Repr

namespace Piece

def mask (p : Piece) : Word := Word.lowBits p.width <<< p.start

def get (p : Piece) (word : Word) : Word := (word >>> p.start) &&& Word.lowBits p.width

def put (p : Piece) (word bits : Word) : Word :=
  (word &&& ~~~p.mask) ||| ((bits &&& Word.lowBits p.width) <<< p.start)

def Inside (p : Piece) : Prop := p.start < 64 ∧ p.start + p.width ≤ 64

instance (p : Piece) : Decidable p.Inside := inferInstanceAs (Decidable (_ ∧ _))

/-- `Inside` as a Boolean, which `Eq.refl true` proves of numbers. -/
def fits (start width : Nat) : Bool := decide (Inside ⟨start, width⟩)

end Piece

def totalWidth : List Piece → Nat
  | [] => 0
  | p :: ps => p.width + totalWidth ps

/-- Where a number lies in a word: at most four pieces, the most significant first. The
pieces may overlap. -/
structure Layout where
  pieces : List Piece
  few : pieces.length ≤ 4 := by decide
  inside : ∀ p ∈ pieces, p.Inside := by decide
  narrow : totalWidth pieces ≤ 64 := by decide
  deriving DecidableEq

inductive LayoutError
  | tooManyPieces
  | startsOutside
  | runsOutside
  | tooWide
  deriving DecidableEq, Repr

def LayoutError.message : LayoutError → String
  | tooManyPieces => "too many bitfield pieces"
  | startsOutside => "piece starts past bit 63"
  | runsOutside => "piece runs past bit 63"
  | tooWide => "bitfield wider than 64 bits"

namespace Layout

def misplaced : List Piece → Option LayoutError
  | [] => none
  | p :: ps =>
    if 64 ≤ p.start then some .startsOutside
    else if 64 < p.start + p.width then some .runsOutside
    else misplaced ps

theorem inside_of_misplaced {ps : List Piece} (h : misplaced ps = none) :
    ∀ p ∈ ps, p.Inside := by
  induction ps with
  | nil => simp
  | cons p ps ih =>
      rw [misplaced] at h
      split at h
      · simp at h
      · split at h
        · simp at h
        · simp only [List.mem_cons, forall_eq_or_imp]
          exact ⟨⟨by omega, by omega⟩, ih h⟩

def ofPieces (ps : List Piece) : Except LayoutError Layout :=
  if few : ps.length ≤ 4 then
    match inside : misplaced ps with
    | some e => .error e
    | none =>
      if narrow : totalWidth ps ≤ 64 then
        .ok ⟨ps, few, inside_of_misplaced inside, narrow⟩
      else .error .tooWide
  else .error .tooManyPieces

def empty : Layout := { pieces := [] }

def single (start width : Nat) (h : Piece.fits start width := by exact Eq.refl true) : Layout where
  pieces := [⟨start, width⟩]
  few := by simp
  inside := by simpa [Piece.fits] using h
  narrow := by
    have inside : Piece.Inside ⟨start, width⟩ := of_decide_eq_true h
    simp only [totalWidth, Nat.add_zero]
    exact Nat.le_trans (Nat.le_add_left _ _) inside.2

def width (l : Layout) : Nat := totalWidth l.pieces

def mask (l : Layout) : Word := l.pieces.foldl (fun m p => m ||| p.mask) 0

def gather (l : Layout) (word : Word) : Word :=
  l.pieces.foldl (fun bits p => bits <<< p.width ||| p.get word) 0

/-- Store the `width` lowest bits. The last piece takes the least significant ones and is
written first. -/
def scatter (l : Layout) (word bits : Word) : Word :=
  (l.pieces.foldr (fun p s => (p.put s.1 s.2, s.2 >>> p.width)) (word, bits)).1

end Layout

end Codeword
