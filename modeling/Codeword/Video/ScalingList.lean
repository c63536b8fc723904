import Codeword.Bitstream.Code

namespace Codeword

/-- A list of quantiser weights. It is coded as the differences of neighbouring entries
modulo 256, the first one from 8. A difference that leads to zero says that the rest is
like the entry before; if it comes first, the list is the default one. -/
structure ScalingList (n : Nat) where
  present : Bool := false
  useDefault : Bool := false
  entries : List UInt32
  length_entries : entries.length = n
  deriving DecidableEq

namespace ScalingList

variable {n : Nat}

def zero : ScalingList n where
  entries := List.replicate n 0
  length_entries := List.length_replicate

instance : Inhabited (ScalingList n) := ⟨zero⟩

def defaultList (present : Bool) : ScalingList n where
  present
  useDefault := true
  entries := List.replicate n 8
  length_entries := List.length_replicate

def next (last : UInt32) (delta : Int32) : UInt32 :=
  UInt32.ofNat ((last.toNat + delta.toInt) % 256).toNat

/-- The difference of neighbours, from -128 to 127. -/
def delta (last entry : UInt32) : Int32 :=
  Int32.ofInt (Int.bmod (entry.toNat - last.toNat) 256)

/-- The entries from the second on. Those that were not reached stay as they were. -/
def readEntries : UInt32 → Step BitReader (List UInt32)
  | _, [], r => (.ok (), [], r)
  | last, x :: xs, r =>
    match r.se with
    | (.error e, r) => (.error e, x :: xs, r)
    | (.ok d, r) =>
      let y := next last d
      if y = 0 then (.ok (), List.replicate (xs.length + 1) last, r)
      else
        let (result, ys, r) := readEntries y xs r
        (result, y :: ys, r)

theorem length_readEntries (last : UInt32) (xs : List UInt32) (r : BitReader) :
    (readEntries last xs r).2.1.length = xs.length := by
  induction xs generalizing last r with
  | nil => rfl
  | cons x xs ih =>
      rw [readEntries]
      split
      · rfl
      · dsimp only
        split
        · simp
        · simp [ih]

def read : Step BitReader (ScalingList n)
  | ⟨present, useDefault, [], h⟩, r => (.ok (), ⟨present, useDefault, [], h⟩, r)
  | ⟨present, useDefault, x :: xs, h⟩, r =>
    match r.se with
    | (.error e, r) => (.error e, ⟨present, useDefault, x :: xs, h⟩, r)
    | (.ok d, r) =>
      let y := next 8 d
      if y = 0 then (.ok (), defaultList present, r)
      else
        let rest := readEntries y xs r
        (rest.1, ⟨present, false, y :: rest.2.1, by
          simpa [rest, length_readEntries] using h⟩, rest.2.2)

def withoutTail : List UInt32 → List UInt32
  | [] => []
  | x :: xs => if xs.all (· = x) then [x] else x :: withoutTail xs

def deltas : UInt32 → List UInt32 → List Int32
  | _, [] => []
  | last, x :: xs => delta last x :: deltas x xs

def kept (l : ScalingList n) : List UInt32 :=
  if l.useDefault then [] else withoutTail l.entries

/-- The differences that are written, with the one that leads to zero if the list is cut. -/
def written (l : ScalingList n) : List Int32 :=
  deltas 8 l.kept ++ if l.kept.length = n then [] else [delta (l.kept.getLastD 8) 0]

def write : Step BitWriter (ScalingList n) := fun l w =>
  let (result, w) := w.put ((l.written.mapM BitWriter.seBits).map List.flatten)
  (result, l, w)

def code : Code (ScalingList n) := ⟨read, write⟩

end ScalingList

end Codeword
