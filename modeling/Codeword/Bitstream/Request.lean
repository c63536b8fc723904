import Codeword.Bitstream.Cursor

namespace Codeword

/-- What is asked of a stream, without the value. -/
inductive Call
  | u (bits : Nat)
  | ue
  | se
  | flag
  | align (fill : Bool)
  deriving DecidableEq, Repr

namespace Call

abbrev Value : Call → Type
  | u _ => UInt32
  | ue => UInt32
  | se => Int32
  | flag => Bool
  | align _ => Unit

def read : (c : Call) → BitReader → BitReader.Result c.Value
  | u bits, r => r.u bits
  | ue, r => r.ue
  | se, r => r.se
  | flag, r => r.flag
  | align fill, r => r.align fill

def write : (c : Call) → c.Value → BitWriter → BitWriter.Result
  | u bits, v, w => w.u bits v
  | ue, v, w => w.ue v
  | se, v, w => w.se v
  | flag, v, w => w.flag v
  | align fill, _, w => w.align fill

end Call

/-- Whether there is more is told to readers only, who keep the answer in a place of their own. -/
def Code.more : Code Bool where
  read _ r := (.ok (), r.hasMore, r)
  write v w :=
    match w.hasMore with
    | .ok more => (.ok (), more, w)
    | .error e => (.error e, v, w)

/-- All that a stream can be asked about a value of its caller. -/
inductive Request : Type → Type 1
  | call (c : Call) : Request c.Value
  | infer {α : Type} [DecidableEq α] [Number α] (value : α) : Request α
  | more : Request Bool

def Request.code : {α : Type} → Request α → Code α
  | _, call c => .ofFunctions c.read fun w v => c.write v w
  | _, infer value => .infer value
  | _, more => .more

def Request.visit : {α : Type} → Request α → Step BitCursor α
  | _, call (.u bits) => BitCursor.u bits
  | _, call .ue => BitCursor.ue
  | _, call .se => BitCursor.se
  | _, call .flag => BitCursor.flag
  | _, call (.align fill) => BitCursor.align fill
  | _, infer value => BitCursor.infer value
  | _, more => fun _ c => (.ok (), c.hasMore, c)

end Codeword
