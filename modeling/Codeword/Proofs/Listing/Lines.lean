import Codeword.Proofs.Fermi.Decoding
import Codeword.Proofs.Listing.Build
import Codeword.Proofs.Text.Numeral

namespace Codeword

def Text.cut : List Char → Option (List Char × List Char)
  | [] => none
  | ':' :: ' ' :: cs => some ([], cs)
  | c :: cs => (cut cs).map fun x => (c :: x.1, x.2)

namespace Labels

variable {l : Labels} {c : Char}

end Labels

namespace Listing

variable {l : Listing} {s : Spelling} {line : Line} {address : Word}

/-- The address and the word that a line shows: the one before the first colon, in at least eight
digits, and the other right after it, in sixteen. -/
def readLine (text : List Char) : Option (Word × Word) :=
  match Text.cut text with
  | none => none
  | some (place, rest) =>
    match WordList.digits 0 place, WordList.digits 0 (rest.take 16) with
    | .ok address, .ok word =>
      if 8 ≤ place.length ∧ 16 ≤ rest.length then
        some (BitVec.ofNat 64 address, BitVec.ofNat 64 word)
      else none
    | _, _ => none

/-- The lines before that of an address: its label if it has one, and nothing that could be taken
for the line itself. An address that is called is a `C` even if it is branched to. -/
structure Labelled (l : Listing) (address : Word) (texts : List (List Char)) : Prop where
  eq_label : texts = (l.labels.label address).toList.map fun name => (name ++ ":").toList
  of_call : l.RefersTo .call address → texts = [("C" ++ Text.hex address.toNat ++ ":").toList]
  of_branch : ¬l.RefersTo .call address → l.RefersTo .branch address →
    texts = [("B" ++ Text.hex address.toNat ++ ":").toList]
  of_neither : ¬l.RefersTo .call address → ¬l.RefersTo .branch address → texts = []
  unread : ∀ text ∈ texts, readLine text = none

section Serial

variable {d : Decoder} {words : List Word} {base : Word}

end Serial

end Listing

namespace Fermi

open Listing

variable {s : Spelling}

/-- Every word has a line of its own and every label has one, and nothing else is printed. The words
and their addresses can be read back. -/
structure Shows (l : Listing) (s : Spelling) (words : List Word) (base : Word) : Prop where
  blocks : ∃ blocks : List (List (List Char)),
    (l.render s true).toList.splitOn '\n' = blocks.flatten ++ [[]] ∧
      blocks.length = words.length ∧
      ∀ n word, words[n]? = some word → ∃ labels text, blocks[n]? = some (labels ++ [text]) ∧
        Labelled l (base + BitVec.ofNat 64 (n * 8)) labels ∧
        readLine text = some (base + BitVec.ofNat 64 (n * 8), word)
  read : ((l.render s true).toList.splitOn '\n').filterMap readLine =
    words.mapIdx fun n word => (base + BitVec.ofNat 64 (n * 8), word)

end Fermi

end Codeword
