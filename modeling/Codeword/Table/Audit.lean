import Codeword.Table.Basic

namespace Codeword.Table

/-- The rows that ask for a bit outside their mask; no word has it. -/
def malformed (t : Table) : List Nat :=
  (t.rows.zipIdx.filter fun (r, _) => r.value &&& ~~~r.mask != 0).map Prod.snd

def covers (earlier later : Row) : Bool :=
  earlier.mask &&& ~~~later.mask == 0 && later.value &&& earlier.mask == earlier.value

/-- The rows that never have their turn, each with the first earlier row that covers it. -/
def shadowed (t : Table) : List (Nat × Nat) :=
  t.rows.zipIdx.filterMap fun (later, j) =>
    ((t.rows.take j).findIdx? (covers · later)).map (j, ·)

end Codeword.Table
