namespace Codeword.ExpGolomb

/-- The numbers 0, 1, -1, 2, -2, … in this order have the codes 0, 1, 2, 3, 4, … -/
def codeOfInt (v : Int) : Nat := if 0 < v then 2 * v.natAbs - 1 else 2 * v.natAbs

def intOfCode (code : Nat) : Int :=
  if code % 2 = 1 then ((code + 1) / 2 : Nat) else -((code / 2 : Nat) : Int)

end Codeword.ExpGolomb
