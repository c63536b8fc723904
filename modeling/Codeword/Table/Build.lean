import Codeword.Table.Basic

namespace Codeword

namespace Row

def otherwise (atoms : List Atom) : Row := ⟨0, 0, atoms⟩

def unknown (atoms : List Atom) : Row := otherwise (.unrecognized :: atoms)

end Row

namespace Table

def bit (n : Nat) : Word := 1 <<< n

def choice (name : String) (position : Nat) (off on : List Atom) : Table where
  name
  rows := [⟨0, bit position, off⟩, ⟨bit position, bit position, on⟩]

def flag (name : String) (position : Nat) (atoms : List Atom) : Table :=
  choice name position [] atoms

/-- One row for each value of a field that has an entry, in order. The other values are
unknown. `start` is meant to be below 64: from there on no row looks at any bit. -/
def enumerate (name : String) (start width : Nat) (entries : List (Option (List Atom))) :
    Table where
  name
  rows :=
    let mask := Word.lowBits width <<< start
    (entries.zipIdx.filterMap fun (entry, value) =>
      entry.map fun atoms => ⟨BitVec.ofNat 64 value <<< start, mask, atoms⟩) ++
      [.unknown []]

end Table

end Codeword
