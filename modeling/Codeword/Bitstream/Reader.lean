import Codeword.Bitstream.Bits
import Codeword.Bitstream.Error
import Codeword.Bitstream.ExpGolomb

namespace Codeword

/-- A bit stream that is being read: how many bits were taken, and the others. -/
structure BitReader where
  position : Nat
  rest : List Bool
  deriving DecidableEq, Repr

namespace BitReader

/-- What a reading step gives, and the stream after it. The stream moves on even where the
step fails. -/
abbrev Result (α : Type) := Except StreamError α × BitReader

def ofBytes (bytes : List UInt8) : BitReader := ⟨0, Bits.ofBytes bytes⟩

def skip (r : BitReader) (n : Nat) : BitReader := ⟨r.position + n, r.rest.drop n⟩

/-- Where too few bits are left, all of them are taken. -/
def exhausted {α : Type} (r : BitReader) : Result α :=
  (.error .endOfStream, r.skip r.rest.length)

def u (r : BitReader) (bits : Nat) : Result UInt32 :=
  if 32 < bits then (.error .wideField, r)
  else if r.rest.length < bits then r.exhausted
  else (.ok (UInt32.ofNat (Bits.toNat (r.rest.take bits))), r.skip bits)

def flag (r : BitReader) : Result Bool :=
  match r.rest with
  | [] => r.exhausted
  | b :: _ => (.ok b, r.skip 1)

/-- As many zeros as there are digits after the one that follows them; digits, with that
one, of the number plus one. There are at most 31 zeros. -/
def ue (r : BitReader) : Result UInt32 :=
  let zeros := (r.rest.takeWhile (!·)).length
  if 32 ≤ zeros then (.error .expGolombOverflow, r.skip 32)
  else if r.rest.length < 2 * zeros + 1 then r.exhausted
  else
    let code := Bits.toNat (r.rest.take (2 * zeros + 1)) - 1
    (.ok (UInt32.ofNat code), r.skip (2 * zeros + 1))

def se (r : BitReader) : Result Int32 :=
  let (code, r) := r.ue
  (code.map fun c => Int32.ofInt (ExpGolomb.intOfCode c.toNat), r)

def padding (fill : Bool) : Nat → BitReader → Result Unit
  | 0, r => (.ok (), r)
  | n + 1, r =>
    match r.rest with
    | [] => r.exhausted
    | b :: _ =>
      if b = fill then padding fill n (r.skip 1)
      else (.error (.inferMismatch fill.toNat b.toNat), r.skip 1)

def align (r : BitReader) (fill : Bool) : Result Unit :=
  padding fill ((8 - r.position % 8) % 8) r

/-- The last set bit ends the data; before it there is more. -/
def hasMore (r : BitReader) : Bool := (r.rest.drop 1).any id

end BitReader

end Codeword
