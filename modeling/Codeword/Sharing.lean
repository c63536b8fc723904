import Codeword.Word

namespace Codeword

/-- What becomes of a product that does not fit in a word: the program stops, or the lowest 64
bits of it are taken. -/
inductive Overflow
  | checked
  | wrapping
  deriving DecidableEq, Repr

inductive SharingError
  | overflow
  | emptyShare
  deriving DecidableEq, Repr

namespace SharingError

def message : SharingError → String
  | overflow => "attempt to multiply with overflow"
  | emptyShare => "chunk size must be non-zero"

end SharingError

namespace Sharing

def double (o : Overflow) (n : Word) : Except SharingError Word :=
  if o = .checked ∧ 1 <<< 64 ≤ 2 * n.toNat then .error .overflow else .ok (2 * n)

/-- How many of the words each worker gets; the last one may get less. -/
def share (workers words : Nat) : Nat := (words + workers - 1) / workers

def stretches {α : Type} (n : Nat) (hn : 0 < n) : List α → List (List α)
  | [] => []
  | x :: xs => (x :: xs).take n :: stretches n hn ((x :: xs).drop n)
termination_by xs => xs.length
decreasing_by
  simp only [List.length_drop, List.length_cons]
  omega

end Sharing

end Codeword
