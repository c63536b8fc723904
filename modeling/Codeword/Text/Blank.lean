import Codeword.Text.CharRange

namespace Codeword.Text

def blankRanges : List CharRange :=
  [(0x09, 0x0d), (0x20, 0x20), (0x85, 0x85), (0xa0, 0xa0), (0x1680, 0x1680),
   (0x2000, 0x200a), (0x2028, 0x2029), (0x202f, 0x202f), (0x205f, 0x205f),
   (0x3000, 0x3000)]

def isBlank (c : Char) : Bool := isIn blankRanges c

def consWord (w : List Char) (ws : List (List Char)) : List (List Char) :=
  if w = [] then ws else w :: ws

/-- What stands before the first white space, and the words after it. -/
def split : List Char → List Char × List (List Char)
  | [] => ([], [])
  | c :: cs =>
    let (w, ws) := split cs
    if isBlank c then ([], consWord w ws) else (c :: w, ws)

def words (cs : List Char) : List (List Char) :=
  let (w, ws) := split cs
  consWord w ws

end Codeword.Text
