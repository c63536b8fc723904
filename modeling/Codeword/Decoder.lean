import Codeword.Sharing
import Codeword.Table.Basic

namespace Codeword

/-- An instruction set: the table that every word is matched against first, and the
measures of its instructions. -/
structure Isa where
  name : String
  root : Table
  /-- Longest instruction, in bytes. -/
  maxLength : Nat := 8
  /-- Bits in one addressable unit of an opcode. -/
  opcodeUnit : Nat := 8
  /-- How far the address moves for each byte. -/
  positionUnit : Nat := 1
  rootTables : Nat := 1

def Isa.stride (isa : Isa) : Nat := isa.maxLength * isa.positionUnit

abbrev Decoded := Except DecodeError Instruction

structure Decoder where
  isa : Isa
  symbols : Symbols := .empty

def Isa.addressAt (isa : Isa) (base : Word) (i : Nat) : Word :=
  base + BitVec.ofNat 64 (i * isa.stride)

namespace Decoder

def decode (d : Decoder) (word address : Word) : Decoded := do
  let tokens ← d.isa.root.tokens { word, address, symbols := d.symbols }
  let instruction : Instruction := { address, word, tokens }
  if instruction.isUnrecognized then
    throw (.unrecognized word address (instruction.render {}))
  return instruction

def decodeWords (d : Decoder) (words : List Word) (base : Word) : List Decoded :=
  words.mapIdx fun i word => d.decode word (d.isa.addressAt base i)

def splitBytes (n : Nat) (hn : 0 < n) (bytes : List UInt8) : List Word × List UInt8 :=
  if n ≤ bytes.length then
    let (words, tail) := splitBytes n hn (bytes.drop n)
    (Word.ofLittleEndian (bytes.take n) :: words, tail)
  else ([], bytes)
termination_by bytes.length
decreasing_by
  simp only [List.length_drop]
  omega

/-- A byte sequence that ends inside a word ends in an error. An instruction has a length. -/
def decodeBytes (d : Decoder) (bytes : List UInt8) (base : Word)
    (hlength : 0 < d.isa.maxLength := by omega) : List Decoded :=
  let (words, tail) := splitBytes d.isa.maxLength hlength bytes
  let rest := if tail = [] then []
    else [.error (.truncated (d.isa.addressAt base words.length) tail.length)]
  d.decodeWords words base ++ rest

/-- The words on up to `threads` workers, each with a stretch of them. Few words are not worth
it. -/
def decodeParallel (d : Decoder) (o : Overflow) (words : List Word) (base threads : Word) :
    Except SharingError (List Decoded) := do
  let workers := if threads = 0 then 1 else threads
  if workers = 1 then
    return d.decodeWords words base
  else
    let least ← Sharing.double o workers
    if words.length < least.toNat then
      return d.decodeWords words base
    else
      let n := Sharing.share workers.toNat words.length
      if hn : 0 < n then
        let tasks := (Sharing.stretches n hn words).mapIdx fun i part =>
          Task.spawn fun _ => d.decodeWords part (d.isa.addressAt base (i * n))
        return tasks.flatMap Task.get
      else
        throw .emptyShare

end Decoder

end Codeword
