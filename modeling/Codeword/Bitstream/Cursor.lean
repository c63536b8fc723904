import Codeword.Bitstream.Code

namespace Codeword

structure BitCursor where
  bytes : List UInt8
  position : Nat := 0
  deriving DecidableEq, Repr

namespace BitCursor

/-- What a loop over bits gives, and where it stands then, also where it fails. -/
abbrev Result (α : Type) := Except StreamError α × BitCursor

def advance (c : BitCursor) (n : Nat) : BitCursor := { c with position := c.position + n }

def readBit (c : BitCursor) : Result Bool :=
  match c.bytes[c.position / 8]? with
  | none => (.error .endOfStream, c)
  | some byte => (.ok (byte.toNat.testBit (7 - c.position % 8)), c.advance 1)

theorem position_of_readBit {c next : BitCursor} {bit : Bool} (h : c.readBit = (.ok bit, next)) :
    next.position = c.position + 1 := by
  rw [readBit] at h
  split at h <;> cases h
  rfl

def pushBit (acc : UInt64) (bit : Bool) : UInt64 := acc <<< 1 ||| bit.toUInt64

/-- The digits of `acc` and `n` more. -/
def readOnto (acc : UInt64) : Nat → BitCursor → Result UInt64
  | 0, c => (.ok acc, c)
  | n + 1, c =>
    match c.readBit with
    | (.error e, c) => (.error e, c)
    | (.ok bit, c) => readOnto (pushBit acc bit) n c

def readBits (c : BitCursor) (n : Nat) : Result UInt64 := readOnto 0 n c

/-- Zeros up to a one, after some zeros. A code word has no more than 31. -/
def readZeros (zeros : Nat) (c : BitCursor) : Result Nat :=
  match c.readBit with
  | (.error e, c) => (.error e, c)
  | (.ok true, c) => (.ok zeros, c)
  | (.ok false, c) =>
    if 31 < zeros + 1 then (.error .expGolombOverflow, c) else readZeros (zeros + 1) c
termination_by 31 - zeros

def readUe (c : BitCursor) : Result UInt32 :=
  match c.readZeros 0 with
  | (.error e, c) => (.error e, c)
  | (.ok zeros, c) =>
    match c.readBits zeros with
    | (.error e, c) => (.error e, c)
    | (.ok rest, c) => (.ok ((1 <<< zeros.toUInt64) - 1 + rest).toUInt32, c)

def readFill (fill : Bool) (c : BitCursor) : Result Unit :=
  if c.position % 8 = 0 then (.ok (), c)
  else
    match _ : c.readBit with
    | (.error e, next) => (.error e, next)
    | (.ok bit, next) =>
      if bit = fill then readFill fill next
      else (.error (.inferMismatch fill.toNat bit.toNat), next)
termination_by (8 - c.position % 8) % 8
decreasing_by
  rw [position_of_readBit ‹_›]
  omega

def store {α β : Type} (f : α → β) (v : β) : Result α → Except StreamError Unit × β × BitCursor
  | (.ok a, c) => (.ok (), f a, c)
  | (.error e, c) => (.error e, v, c)

def u (bits : Nat) : Step BitCursor UInt32 := fun v c =>
  if 32 < bits then (.error .wideField, v, c) else store UInt64.toUInt32 v (c.readBits bits)

def ue : Step BitCursor UInt32 := fun v c => store id v c.readUe

def se : Step BitCursor Int32 := fun v c =>
  store (fun code => Int32.ofInt (ExpGolomb.intOfCode code.toNat)) v c.readUe

def flag : Step BitCursor Bool := fun v c =>
  match u 1 v.toUInt32 c with
  | (.ok (), bit, c) => (.ok (), bit != 0, c)
  | (.error e, _, c) => (.error e, v, c)

def align (fill : Bool) : Step BitCursor Unit := fun v c => store id v (c.readFill fill)

def infer {α : Type} (value : α) : Step BitCursor α := fun _ c => (.ok (), value, c)

def hasMore (c : BitCursor) : Bool := (Bits.stopBit c.bytes).any (c.position < ·)

end BitCursor

end Codeword
