namespace Codeword.Bits

/-- The number whose binary digits these are, the most significant first. -/
def toNat (bs : List Bool) : Nat := bs.foldl (fun n b => 2 * n + b.toNat) 0

/-- The `n` lowest binary digits of a number, the most significant first. -/
def ofNat : Nat → Nat → List Bool
  | 0, _ => []
  | n + 1, v => v.testBit n :: ofNat n v

def ofByte (b : UInt8) : List Bool := ofNat 8 b.toNat

def ofBytes (bytes : List UInt8) : List Bool := bytes.flatMap ofByte

def toBytes (bs : List Bool) : List UInt8 :=
  if bs = [] then []
  else
    let byte := bs.take 8
    UInt8.ofNat (toNat byte <<< (8 - byte.length)) :: toBytes (bs.drop 8)
termination_by bs.length
decreasing_by
  have := List.length_pos_iff.2 ‹bs ≠ []›
  simp only [List.length_drop]
  omega

/-- The place of the bit that ends the data: in the last byte that is not zero, in front of the zeros
at its end. -/
def stopBit (bytes : List UInt8) : Option Nat :=
  (bytes.zipIdx.reverse.find? fun (b, _) => b != 0).map fun (b, i) =>
    8 * i + 7 - b.toBitVec.ctz.toNat

end Codeword.Bits
