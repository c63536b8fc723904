import Codeword.Decoder

namespace Codeword

structure Line where
  address : Word
  word : Word
  result : Decoded

/-- The code addresses that a listing gives a label, each kind in ascending order. -/
structure Labels where
  branches : List Word
  calls : List Word
  deriving DecidableEq

namespace Labels

def ascending (xs : List Word) : List Word := xs.eraseDups.mergeSort (· ≤ ·)

def addresses (kind : TargetKind) (results : List Decoded) : List Word :=
  results.flatMap fun
    | .ok i => i.targets.filterMap fun (k, address) => if k = kind then some address else none
    | .error _ => []

def ofResults (results : List Decoded) : Labels where
  branches := ascending (addresses .branch results)
  calls := ascending (addresses .call results)

/-- An address that is called is a `C` even if it is also branched to. -/
def label (l : Labels) (address : Word) : Option String :=
  if address ∈ l.calls then some ("C" ++ Text.hex address.toNat)
  else if address ∈ l.branches then some ("B" ++ Text.hex address.toNat)
  else none

def target (l : Labels) (address : Word) : TargetKind → Option String
  | .number => none
  | .branch | .call => l.label address

def symbols (l : Labels) : Symbols := { Symbols.empty with target := l.target }

def nameToken (l : Labels) : Token → Token
  | .operand (.target kind address none) =>
    .operand (.target kind address (l.target address kind))
  | t => t

def nameTargets (l : Labels) (i : Instruction) : Instruction :=
  { i with tokens := i.tokens.map l.nameToken }

end Labels

structure Listing where
  lines : List Line
  labels : Labels

namespace Listing

def ofResults (isa : Isa) (words : List Word) (base : Word) (results : List Decoded) : Listing :=
  let labels := Labels.ofResults results
  let lines := (words.zip results).mapIdx fun i (word, result) =>
    { address := isa.addressAt base i, word, result := result.map labels.nameTargets }
  { lines, labels }

def build (d : Decoder) (o : Overflow) (words : List Word) (base threads : Word) :
    Except SharingError Listing :=
  (d.decodeParallel o words base threads).map (ofResults d.isa words base)

/-- A line that failed shows what was made of it, or why nothing was. -/
def lineText (s : Spelling) (line : Line) : String :=
  match line.result with
  | .ok i => i.render s
  | .error (.unrecognized _ _ rendering) => rendering
  | .error e => "??? # " ++ e.message

def renderLine (l : Listing) (s : Spelling) (showEncoding : Bool) (line : Line) : String :=
  let label := match l.labels.label line.address with
    | some label => label ++ ":\n"
    | none => ""
  let encoding := if showEncoding then Text.hexPadded 16 line.word.toNat ++ "  " else ""
  label ++ Text.hexPadded 8 line.address.toNat ++ ": " ++ encoding ++ lineText s line ++ "\n"

def render (l : Listing) (s : Spelling) (showEncoding : Bool) : String :=
  String.join (l.lines.map (l.renderLine s showEncoding))

end Listing

end Codeword
