namespace Codeword.Text

abbrev CharRange := Nat × Nat

def isIn (ranges : List CharRange) (c : Char) : Bool :=
  ranges.any fun (first, last) => first ≤ c.toNat && c.toNat ≤ last

end Codeword.Text
