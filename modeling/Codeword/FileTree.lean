import Std.Data.HashMap

namespace Codeword

/-- The names from the root of a tree down. The root itself is the empty list, and a list of two
dots for each step is a location above it. -/
abbrev Location := List String

namespace Location

def IsAbove (p : Location) : Prop := ∀ name ∈ p, name = ".."

instance (p : Location) : Decidable p.IsAbove := inferInstanceAs (Decidable (∀ _ ∈ _, _))

def parent (p : Location) : Location := if p.IsAbove then ".." :: p else p.dropLast

/-- Where a name leads from a directory. Two dots lead back, a dot and nothing stay. -/
def enter (p : Location) (name : String) : Option Location :=
  if name = "" ∨ name = "." then some p
  else if name = ".." then some p.parent
  else if name.utf8ByteSize ≤ 255 then some (p ++ [name])
  else none

end Location

abbrev Path := List String

namespace Path

def ofString (s : String) : Path := s.splitOn "/"

/-- Some texts are no path at all: one with a null, and one that is too long. -/
def IsValid (path : Path) : Prop :=
  (∀ name ∈ path, '\x00' ∉ name.toList) ∧
    path.foldr (fun name size => name.utf8ByteSize + 1 + size) 0 ≤ 4096

instance (path : Path) : Decidable path.IsValid := inferInstanceAs (Decidable (_ ∧ _))

def steps (path : Path) : Path := path.filter fun name => name ≠ "" ∧ name ≠ "."

def parent (path : Path) : Path := path.steps.dropLast

def EndsInDot (path : Path) : Prop := (path.filter (· ≠ "")).getLast? = some "."

instance (path : Path) : Decidable path.EndsInDot := inferInstanceAs (Decidable (_ = _))

end Path

inductive FileEntry
  | directory
  | file (text : String)
  deriving DecidableEq, Repr

/-- Directories and text files. The root is always there, and so is what it stands in. -/
structure FileTree where
  entries : Std.HashMap Location FileEntry := {}

namespace FileTree

def lookup (t : FileTree) (p : Location) : Option FileEntry :=
  if p.IsAbove then some .directory else t.entries[p]?

def put (t : FileTree) (p : Location) (e : FileEntry) : FileTree :=
  ⟨t.entries.insert p e⟩

/-- Each name is looked for in a directory that is there. The last one may be missing. -/
def follow (t : FileTree) (p : Location) : Path → Option Location
  | [] => some p
  | name :: names =>
    if t.lookup p = some .directory then (p.enter name).bind fun q => t.follow q names
    else none

def locate (t : FileTree) (path : Path) : Option Location :=
  if path.IsValid then t.follow [] path else none

def find (t : FileTree) (path : Path) : Option FileEntry := (t.locate path).bind t.lookup

def read (t : FileTree) (path : Path) : Option String :=
  match t.find path with
  | some (.file text) => some text
  | _ => none

/-- Directories one below the other. What was made before an obstacle stays. -/
def makeBelow (p : Location) : Path → FileTree → Bool × FileTree
  | [], t => (true, t)
  | name :: names, t =>
    match p.enter name with
    | none => (false, t)
    | some q =>
      match t.lookup q with
      | some .directory => makeBelow q names t
      | some (.file _) => (false, t)
      | none => makeBelow q names (t.put q .directory)

/-- A directory and those above it. A dot at the end asks for a directory that is there. -/
def makeDirectories (t : FileTree) (path : Path) : Bool × FileTree :=
  if path.IsValid then
    let (made, t) := makeBelow [] (if path.EndsInDot then path.parent else path.steps) t
    (made && t.find path = some .directory, t)
  else (false, t)

def write (t : FileTree) (path : Path) (text : String) : Option FileTree :=
  match t.locate path with
  | none => none
  | some p => if t.lookup p = some .directory then none else some (t.put p (.file text))

end FileTree

end Codeword
