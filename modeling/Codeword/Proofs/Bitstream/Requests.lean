import Codeword.Proofs.Bitstream.Positions
import Codeword.Proofs.Bitstream.Sequences

namespace Codeword

structure Asked where
  {Value : Type}
  request : Request Value
  value : Value

namespace Direction

def next (d : Direction) (st : d.Stream) (a : Asked) : d.Stream :=
  (a.request.code.step d a.value st).2.2

/-- The stream after some requests. Whoever made them goes on after each that fails. -/
def after (d : Direction) (st : d.Stream) (as : List Asked) : d.Stream := as.foldl d.next st

end Direction

section OfFunctions

variable {α : Type} {read : BitReader → BitReader.Result α}
  {write : BitWriter → α → BitWriter.Result} {v v' : α} {e : StreamError} {r r' : BitReader}

theorem Code.ofFunctions_reader : ((ofFunctions read write).read v r).2.2 = (read r).2 := by
  rw [ofFunctions]
  dsimp only
  split
  next h => rw [h]
  next h => rw [h]

theorem Code.eq_of_ofFunctions_error (h : (ofFunctions read write).read v r = (.error e, v', r')) :
    v' = v := by
  rw [ofFunctions] at h
  dsimp only at h
  split at h <;> cases h
  rfl

end OfFunctions

namespace Request

variable {α : Type} {v v' : α} {e : StreamError} {r r' : BitReader}

theorem eq_of_read_error (q : Request α) (h : q.code.read v r = (.error e, v', r')) : v' = v := by
  cases q with
  | call c => exact Code.eq_of_ofFunctions_error h
  | infer value | more => cases h

theorem reaches (q : Request α) (v : α) (r : BitReader) : r.Reaches (q.code.read v r).2.2 := by
  cases q with
  | call c =>
      rw [code, Code.ofFunctions_reader]
      exact c.reaches r
  | infer value | more => exact .refl r

end Request

end Codeword
