import Codeword.Bitstream.Code

namespace Codeword

structure Place (σ α : Type) where
  get : σ → α
  set : α → σ → σ

def Place.comp {σ τ α : Type} (p : Place σ τ) (q : Place τ α) : Place σ α where
  get s := q.get (p.get s)
  set v s := p.set (q.set v (p.get s)) s

/-- The fields of a record in the order of a stream. What comes next may depend on the
values before. -/
inductive Format (σ : Type) : Type 1
  | done : Format σ
  | refuse (e : StreamError) : Format σ
  | field {α : Type} (code : Code α) (place : Place σ α) (next : α → Format σ) : Format σ

namespace Format

variable {σ : Type}

/-- Reading changes the record field by field, writing takes the fields from it. A field
that fails ends both. -/
def step (d : Direction) : Format σ → Step d.Stream σ
  | done, s, st => (.ok (), s, st)
  | refuse e, s, st => (.error e, s, st)
  | field code place next, s, st =>
    match code.step d (place.get s) st with
    | (.error e, v, st) => (.error e, place.set v s, st)
    | (.ok (), v, st) => (next v).step d (place.set v s) st

def code (f : Format σ) : Code σ := ⟨f.step .decode, f.step .encode⟩

def decode (f : Format σ) (start : σ) (bytes : List UInt8) : Except StreamError σ :=
  let (result, s, _) := f.step .decode start (.ofBytes bytes)
  result.map fun _ => s

def encode (f : Format σ) (s : σ) : Except StreamError (List UInt8) :=
  let (result, _, w) := f.step .encode s {}
  result.map fun _ => w.finish

end Format

end Codeword
