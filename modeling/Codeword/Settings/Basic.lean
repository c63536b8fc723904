import Codeword.Spelling
import Codeword.Toml.Document
import Codeword.Toml.Quoted

namespace Codeword

inductive LogLevel
  | off
  | error
  | warn
  | info
  | debug
  | trace
  deriving DecidableEq, Repr

namespace LogLevel

def all : List LogLevel := [off, error, warn, info, debug, trace]

def name : LogLevel → String
  | off => "Off"
  | error => "Error"
  | warn => "Warn"
  | info => "Info"
  | debug => "Debug"
  | trace => "Trace"

def ofName? (s : String) : Option LogLevel := all.find? (·.name = s)

def directive : LogLevel → String
  | off => "off"
  | error => "error"
  | warn => "warn"
  | info => "info"
  | debug => "debug"
  | trace => "trace"

end LogLevel

structure Settings where
  baseAddress : Nat := 0
  showEncoding : Bool := true
  spelling : Spelling := {}
  threads : Nat := 1
  logLevel : LogLevel := .info
  traceDecode : Bool := false
  deriving DecidableEq, Repr

inductive SettingsError
  | malformed
  | unrepresentable
  | storage
  deriving DecidableEq, Repr

namespace Settings

open Toml (Value Entries)

/-- The fields of a section. They may also be listed in their order; a date is a section
that has none of them. -/
def fields (names : List String) : Value → Option (List (Option Value))
  | .table _ es => some (names.map fun name => es.lookup name)
  | .array vs => some ((List.range names.length).map (vs[·]?))
  | .tables ts =>
    some ((List.range names.length).map fun i => ts[i]?.map (.table .header))
  | .date => some (names.map fun _ => none)
  | _ => none

def fieldsOf (section? : Option Value) (names : List String) : Option (List (Option Value)) :=
  match section? with
  | none => some (names.map fun _ => none)
  | some v => fields names v

def orDefault {α : Type} (read : Value → Option α) (value : α) :
    Option (Option Value) → Option α
  | some (some v) => read v
  | _ => some value

def natural : Value → Option Nat
  | .integer n => if 0 ≤ n then some n.toNat else none
  | _ => none

def boolean : Value → Option Bool
  | .boolean b => some b
  | _ => none

def string : Value → Option String
  | .string s => some s
  | _ => none

def isEmpty : Value → Bool
  | .table _ [] | .array [] => true
  | _ => false

/-- A level is its name, or a table with nothing but an empty entry of this name. -/
def logLevelOf : Value → Option LogLevel
  | .string s => LogLevel.ofName? s
  | .table _ [(name, v)] => if isEmpty v then LogLevel.ofName? name else none
  | _ => none

def ofEntries (es : Entries) : Option Settings := do
  let default : Settings := {}
  let general ← fieldsOf (es.lookup "general") ["base_address", "show_encoding"]
  let spelling ← fieldsOf (es.lookup "syntax")
    ["register_sigil", "hex_threshold", "uppercase_hex"]
  let decoder ← fieldsOf (es.lookup "decoder") ["threads"]
  let debug ← fieldsOf (es.lookup "debug") ["log_level", "trace_decode"]
  return {
    baseAddress := ← orDefault natural default.baseAddress general[0]?
    showEncoding := ← orDefault boolean default.showEncoding general[1]?
    spelling := {
      sigil := ← orDefault string default.spelling.sigil spelling[0]?
      hexThreshold := ← orDefault natural default.spelling.hexThreshold spelling[1]?
      uppercaseHex := ← orDefault boolean default.spelling.uppercaseHex spelling[2]? }
    threads := ← orDefault natural default.threads decoder[0]?
    logLevel := ← orDefault logLevelOf default.logLevel debug[0]?
    traceDecode := ← orDefault boolean default.traceDecode debug[1]? }

def parse (text : String) : Except SettingsError Settings :=
  match (Toml.parse text).bind ofEntries with
  | some s => .ok s
  | none => .error .malformed

/-- The numbers of a file are below 2^63. -/
def Representable (s : Settings) : Prop :=
  s.baseAddress < 1 <<< 63 ∧ s.spelling.hexThreshold < 1 <<< 63 ∧ s.threads < 1 <<< 63

instance (s : Settings) : Decidable s.Representable := inferInstanceAs (Decidable (_ ∧ _))

def text (s : Settings) : String :=
  "[general]\n" ++
  "base_address = " ++ toString s.baseAddress ++ "\n" ++
  "show_encoding = " ++ toString s.showEncoding ++ "\n\n" ++
  "[syntax]\n" ++
  "register_sigil = " ++ Toml.quote s.spelling.sigil ++ "\n" ++
  "hex_threshold = " ++ toString s.spelling.hexThreshold ++ "\n" ++
  "uppercase_hex = " ++ toString s.spelling.uppercaseHex ++ "\n\n" ++
  "[decoder]\n" ++
  "threads = " ++ toString s.threads ++ "\n\n" ++
  "[debug]\n" ++
  "log_level = " ++ Toml.quote s.logLevel.name ++ "\n" ++
  "trace_decode = " ++ toString s.traceDecode ++ "\n"

def render (s : Settings) : Except SettingsError String :=
  if s.Representable then .ok s.text else .error .unrepresentable

end Settings

end Codeword
