import Codeword.Field.Layout

namespace Codeword

/-- A number inside an instruction word. The bits of the layout, taken as signed or
unsigned, are shifted left by `shift`; `addend` is added and, for a relative field, the
address of the instruction. All of it is modulo 2^64. -/
structure Field where
  layout : Layout
  signed : Bool := false
  shift : Nat := 0
  addend : Int := 0
  /-- Storing keeps the low bits of any value and never fails. -/
  wraps : Bool := false
  relative : Bool := false
  deriving DecidableEq

inductive FieldError
  | overflow (value : Int) (width : Nat) (signed : Bool)
  | misaligned (value : Int) (shift : Nat)
  deriving DecidableEq, Repr

namespace FieldError

def message : FieldError → String
  | overflow value width signed =>
    s!"Field overflow: {value} does not fit in {width} bits (signed: {signed})"
  | misaligned value shift =>
    s!"Misaligned value: {value} is not a multiple of 1 << {shift}"

end FieldError

namespace Field

def bits (start width : Nat) (h : Piece.fits start width := by exact Eq.refl true) : Field :=
  { layout := .single start width h }

def sbits (start width : Nat) (h : Piece.fits start width := by exact Eq.refl true) : Field :=
  { layout := .single start width h, signed := true }

def constant (value : Int) : Field := { layout := .empty, addend := value }

def width (f : Field) : Nat := f.layout.width

def mask (f : Field) : Word := f.layout.mask

/-- Smallest and largest number the bits can stand for, before shift and addend, as far
as they are below 2^63. -/
def range (f : Field) : Int × Int :=
  if f.width = 0 then (0, 0)
  else if f.signed then (-(1 <<< (f.width - 1)), (1 <<< (f.width - 1)) - 1)
  else (0, (1 <<< min f.width 63) - 1)

def offset (f : Field) (address : Word) : Word :=
  BitVec.ofInt 64 f.addend + if f.relative then address else 0

/-- The number that a word holds. `shift` is meant to be below 64: a longer one pushes every bit
out, and the offset alone is left. -/
def extract (f : Field) (word address : Word) : Word :=
  let bits := f.layout.gather word
  let number := if f.signed then (bits.setWidth f.width).signExtend 64 else bits
  number <<< f.shift + f.offset address

def InRange (f : Field) (number : Word) : Prop :=
  (f.signed = false ∧ 64 ≤ f.width) ∨
    (f.range.1 ≤ number.toInt ∧ number.toInt ≤ f.range.2)

instance (f : Field) (number : Word) : Decidable (f.InRange number) :=
  inferInstanceAs (Decidable (_ ∨ _))

def insert (f : Field) (word value address : Word) : Except FieldError Word :=
  let scaled := value - f.offset address
  if scaled &&& Word.lowBits f.shift ≠ 0 ∧ f.wraps = false then
    .error (.misaligned value.toInt f.shift)
  else
    let number := if f.signed then scaled.sshiftRight f.shift else scaled >>> f.shift
    if f.wraps = false ∧ ¬f.InRange number then
      .error (.overflow value.toInt f.width f.signed)
    else .ok (f.layout.scatter word number)

end Field

end Codeword
