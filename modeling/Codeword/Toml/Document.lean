import Codeword.Toml.Scalar

namespace Codeword.Toml

def arrayItems (item : Reader Value) : Nat → Reader (List Value)
  | 0, _ => none
  | fuel + 1, cs =>
    match skipLines false cs with
    | ']' :: cs => some ([], cs)
    | cs => do
      let (v, cs) ← item cs
      match skipLines false cs with
      | ',' :: cs => do
        let (vs, cs) ← arrayItems item fuel cs
        return (v :: vs, cs)
      | ']' :: cs => return ([v], cs)
      | _ => none

def keyValue (item : Reader Value) (es : Entries) : Reader Entries := fun cs => do
  let ((path, k), cs) ← key cs
  let cs ← expect '=' cs
  let (v, cs) ← item (skipBlanks cs)
  return (← es.addDotted k v path, cs)

def bracedEntries (item : Reader Value) : Nat → Entries → Reader Entries
  | 0, _, _ => none
  | fuel + 1, es, cs => do
    let (es, cs) ← keyValue item es cs
    match skipBlanks cs with
    | ',' :: cs => bracedEntries item fuel es cs
    | '}' :: cs => return (es, cs)
    | _ => none

/-- A value in which brackets and braces are nested at most `depth` deep. -/
def value (depth : Nat) : Reader Value := fun cs =>
  match cs with
  | '"' :: _ | '\'' :: _ => (string? cs).map fun (s, cs) => (.string (String.ofList s), cs)
  | '[' :: cs =>
    match depth with
    | 0 => none
    | depth + 1 => (arrayItems (value depth) (cs.length + 1) cs).map fun (vs, cs) => (.array vs, cs)
  | '{' :: cs =>
    match depth with
    | 0 => none
    | depth + 1 =>
      match skipBlanks cs with
      | '}' :: cs => some (.table .sealed [], cs)
      | _ =>
        (bracedEntries (value depth) cs.length [] cs).map fun (es, cs) =>
          (.table .sealed es, cs)
  | _ => scalar? cs

structure Progress where
  path : List String := []
  entries : Entries := []

def headerKey (close : List Char) (cs : List Char) :
    Option ((List String × String) × List Char) := do
  let (k, cs) ← key cs
  let cs ← close.foldlM (fun cs c => expect c cs) cs
  return (k, ← endOfLine cs)

def line (p : Progress) : Reader Progress := fun cs =>
  match cs with
  | '[' :: '[' :: cs => do
    let ((path, k), cs) ← headerKey [']', ']'] cs
    return (⟨path ++ [k], ← Entries.enter (·.openElement k) path p.entries⟩, cs)
  | '[' :: cs => do
    let ((path, k), cs) ← headerKey [']'] cs
    return (⟨path ++ [k], ← Entries.enter (·.openTable k) path p.entries⟩, cs)
  | cs =>
    match endOfLine cs with
    | some cs => some (p, cs)
    | none => do
      let ((path, k), cs) ← key cs
      let (v, cs) ← value depthLimit (skipBlanks (← expect '=' cs))
      let entries ← Entries.enter (·.addDotted k v path) p.path p.entries
      return (⟨p.path, entries⟩, ← endOfLine cs)

def lines : Nat → Progress → List Char → Option Entries
  | 0, _, _ => none
  | fuel + 1, p, cs =>
    match skipBlanks cs with
    | [] => some p.entries
    | cs => do
      let (p, cs) ← line p cs
      lines fuel p cs

/-- The entries of a document. A byte order mark at its start is not part of it. -/
def parse (text : String) : Option Entries :=
  let cs := match text.toList with
    | '\uFEFF' :: cs => cs
    | cs => cs
  lines (cs.length + 1) {} cs

end Codeword.Toml
