import Codeword.Bitstream.Bits
import Codeword.Bitstream.Error
import Codeword.Bitstream.ExpGolomb

namespace Codeword

structure BitWriter where
  bits : List Bool := []
  deriving DecidableEq, Repr

namespace BitWriter

/-- The stream after a writing step; a step that fails writes nothing. -/
abbrev Result := Except StreamError Unit × BitWriter

def position (w : BitWriter) : Nat := w.bits.length

def put (w : BitWriter) (bits : Except StreamError (List Bool)) : Result :=
  match bits with
  | .error e => (.error e, w)
  | .ok bs => (.ok (), ⟨w.bits ++ bs⟩)

def uBits (bits : Nat) (v : UInt32) : Except StreamError (List Bool) :=
  if 32 < bits then .error .wideField
  else if 1 <<< bits ≤ v.toNat then .error (.valueTooWide v.toNat bits)
  else .ok (Bits.ofNat bits v.toNat)

/-- The code word of a number: the binary digits of the number plus one, after as many
zeros as there are digits but the first. -/
def codeBits (code : Nat) : Except StreamError (List Bool) :=
  let zeros := Nat.log2 (code + 1)
  if 32 ≤ zeros then .error .expGolombOverflow
  else .ok (List.replicate zeros false ++ Bits.ofNat (zeros + 1) (code + 1))

def ueBits (v : UInt32) : Except StreamError (List Bool) := codeBits v.toNat

def seBits (v : Int32) : Except StreamError (List Bool) :=
  codeBits (ExpGolomb.codeOfInt v.toInt)

def u (w : BitWriter) (bits : Nat) (v : UInt32) : Result := w.put (uBits bits v)

def flag (w : BitWriter) (v : Bool) : Result := w.put (.ok [v])

def ue (w : BitWriter) (v : UInt32) : Result := w.put (ueBits v)

def se (w : BitWriter) (v : Int32) : Result := w.put (seBits v)

def align (w : BitWriter) (fill : Bool) : Result :=
  w.put (.ok (List.replicate ((8 - w.position % 8) % 8) fill))

/-- A writer cannot know what comes after. -/
def hasMore (_ : BitWriter) : Except StreamError Bool := .error .moreDataWhileWriting

def bytes (w : BitWriter) : List UInt8 := Bits.toBytes w.bits

def finish (w : BitWriter) : List UInt8 := Bits.toBytes (w.bits ++ [true])

end BitWriter

end Codeword
