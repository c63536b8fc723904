import Codeword.Bitstream.Reader
import Codeword.Bitstream.Writer

namespace Codeword

inductive Direction
  | decode
  | encode
  deriving DecidableEq, Repr

namespace Direction

def name : Direction → String
  | decode => "decode"
  | encode => "encode"

abbrev Stream : Direction → Type
  | decode => BitReader
  | encode => BitWriter

end Direction

/-- A step that keeps a value in line with a stream. The value and the stream are those
after the step, also where it fails. -/
abbrev Step (S α : Type) := α → S → Except StreamError Unit × α × S

structure Code (α : Type) where
  read : Step BitReader α
  write : Step BitWriter α

class Number (α : Type) where
  number : α → Int

instance : Number UInt32 := ⟨fun v => v.toNat⟩

instance : Number Int32 := ⟨Int32.toInt⟩

instance : Number Bool := ⟨fun v => v.toNat⟩

namespace Code

variable {α : Type}

def step (c : Code α) : (d : Direction) → Step d.Stream α
  | .decode => c.read
  | .encode => c.write

/-- A value that is replaced only when it was read as a whole. -/
def ofFunctions (read : BitReader → BitReader.Result α)
    (write : BitWriter → α → BitWriter.Result) : Code α where
  read v r :=
    match read r with
    | (.ok v, r) => (.ok (), v, r)
    | (.error e, r) => (.error e, v, r)
  write v w :=
    let (result, w) := write w v
    (result, v, w)

def u (bits : Nat) : Code UInt32 := ofFunctions (·.u bits) (·.u bits)

def ue : Code UInt32 := ofFunctions BitReader.ue BitWriter.ue

def se : Code Int32 := ofFunctions BitReader.se BitWriter.se

def flag : Code Bool := ofFunctions BitReader.flag BitWriter.flag

/-- A value that is not in the stream: reading sets it, and only this one can be written. -/
def infer [DecidableEq α] [Number α] (value : α) : Code α where
  read _ r := (.ok (), value, r)
  write v w :=
    if v = value then (.ok (), v, w)
    else (.error (.inferMismatch (Number.number value) (Number.number v)), v, w)

/-- A list whose length is known from elsewhere. Reading cuts it or fills it up. -/
def sized [Inhabited α] (n : Nat) : Code (List α) where
  read xs r := (.ok (), xs.take n ++ List.replicate (n - xs.length) default, r)
  write xs w :=
    if xs.length = n then (.ok (), xs, w) else (.error (.inferMismatch n xs.length), xs, w)

def eachStep {S : Type} (step : Step S α) : Step S (List α)
  | [], st => (.ok (), [], st)
  | x :: xs, st =>
    match step x st with
    | (.error e, x, st) => (.error e, x :: xs, st)
    | (.ok (), x, st) =>
      let (result, xs, st) := eachStep step xs st
      (result, x :: xs, st)

def each (c : Code α) : Code (List α) := ⟨eachStep c.read, eachStep c.write⟩

end Code

end Codeword
