import Codeword.Fermi.Isa
import Codeword.Listing
import Codeword.Settings.Storage
import Codeword.WordList

namespace Codeword

structure Outcome where
  exitCode : UInt32
  stdout : String
  stderr : String

namespace CommandLine

inductive Failure
  | notText
  | word (e : WordError)
  deriving DecidableEq, Repr

namespace Failure

def message : Failure → String
  | notText => "Failed to read instruction words from stdin"
  | word e => e.message

def cause : Failure → String
  | notText => "stream did not contain valid UTF-8"
  | word e => e.cause.message

def report (f : Failure) : String :=
  "Error: " ++ f.message ++ "\n\nCaused by:\n    " ++ f.cause ++ "\n"

end Failure

def decoder : Decoder := { isa := Fermi.isa }

def listing (o : Overflow) (s : Settings) (words : List Word) : Except SharingError Listing :=
  Listing.build decoder o words (BitVec.ofNat 64 s.baseAddress) (BitVec.ofNat 64 s.threads)

def readWords (input : ByteArray) : Except Failure (List Word) := do
  let some text := String.fromUTF8? input | throw .notText
  (WordList.parse text).mapError .word

/-- Settings that cannot be read are the defaults. -/
def run (o : Overflow) (settings : Except SettingsError Settings) (input : ByteArray) :
    Except SharingError Outcome := do
  let s := match settings with
    | .ok s => s
    | .error _ => {}
  match readWords input with
  | .ok words =>
    let l ← listing o s words
    return { exitCode := 0, stdout := l.render s.spelling s.showEncoding, stderr := "" }
  | .error f => return { exitCode := 1, stdout := "", stderr := f.report }

end CommandLine

end Codeword
