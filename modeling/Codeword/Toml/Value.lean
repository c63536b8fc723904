namespace Codeword.Toml

/-- How a table came to be, which decides what may be added to it. -/
inductive Shape
  /-- Written in braces: complete. -/
  | sealed
  /-- Named by a header of its own. -/
  | header
  /-- Passed through by the header of another table. -/
  | implied
  /-- Made by a dotted key. -/
  | dotted
  deriving DecidableEq, Repr

inductive Value
  | string (s : String)
  | integer (n : Int)
  | float
  | boolean (b : Bool)
  | date
  | array (items : List Value)
  | table (shape : Shape) (entries : List (String × Value))
  /-- Tables that share a header in double brackets. -/
  | tables (items : List (List (String × Value)))
  deriving Repr

abbrev Entries := List (String × Value)

namespace Entries

def add (key : String) (v : Value) (es : Entries) : Option Entries :=
  match es.lookup key with
  | none => some (es ++ [(key, v)])
  | some _ => none

def replace (key : String) (v : Value) (es : Entries) : Entries :=
  es.map fun e => if e.1 = key then (key, v) else e

def modifyLast (f : Entries → Option Entries) : List Entries → Option (List Entries)
  | [] => none
  | [e] => (f e).map ([·])
  | e :: es => (modifyLast f es).map (e :: ·)

/-- Change the table at the end of a header's path. The tables on the way are made if they
are missing; of tables that share a header the last one is meant. -/
def enter (f : Entries → Option Entries) : List String → Entries → Option Entries
  | [], es => f es
  | k :: ks, es =>
    match es.lookup k with
    | none => do return es ++ [(k, .table .implied (← enter f ks []))]
    | some (.table .sealed _) => none
    | some (.table shape inner) => do return es.replace k (.table shape (← enter f ks inner))
    | some (.tables items) => do
      return es.replace k (.tables (← modifyLast (enter f ks) items))
    | some _ => none

/-- Only tables that dotted keys have made can be filled through them. -/
def addDotted (key : String) (v : Value) : List String → Entries → Option Entries
  | [], es => es.add key v
  | k :: ks, es =>
    match es.lookup k with
    | none => do return es ++ [(k, .table .dotted (← addDotted key v ks []))]
    | some (.table .dotted inner) => do
      return es.replace k (.table .dotted (← addDotted key v ks inner))
    | some (.table .implied inner) =>
      if ks = [] then none
      else do return es.replace k (.table .implied (← addDotted key v ks inner))
    | some (.tables items) =>
      if ks = [] then none
      else do return es.replace k (.tables (← modifyLast (addDotted key v ks) items))
    | some _ => none

/-- A header may name a table that was only passed through so far. -/
def openTable (key : String) (es : Entries) : Option Entries :=
  match es.lookup key with
  | none => some (es ++ [(key, .table .header [])])
  | some (.table .implied inner) => some (es.replace key (.table .header inner))
  | some _ => none

/-- A header in double brackets starts another table each time. -/
def openElement (key : String) (es : Entries) : Option Entries :=
  match es.lookup key with
  | none => some (es ++ [(key, .tables [[]])])
  | some (.tables items) => some (es.replace key (.tables (items ++ [[]])))
  | some _ => none

end Entries

end Codeword.Toml
