import Codeword.Text.Blank
import Codeword.Text.Numeral
import Codeword.Word

namespace Codeword

inductive NumberError
  | empty
  | invalidDigit
  | tooLarge
  deriving DecidableEq, Repr

def NumberError.message : NumberError → String
  | empty => "cannot parse integer from empty string"
  | invalidDigit => "invalid digit found in string"
  | tooLarge => "number too large to fit in target type"

structure WordError where
  token : String
  cause : NumberError
  deriving DecidableEq, Repr

def WordError.message (e : WordError) : String :=
  "Invalid instruction word '" ++ e.token ++ "'"

namespace WordList

/-- The value of hexadecimal digits after those worth `value`. -/
def digits (value : Nat) : List Char → Except NumberError Nat
  | [] => .ok value
  | c :: cs =>
    match Text.hexDigit? c with
    | none => .error .invalidDigit
    | some d =>
      let next := 16 * value + d
      if next < 2 ^ 64 then digits next cs else .error .tooLarge

def number : List Char → Except NumberError Nat
  | [] => .error .empty
  | ['+'] => .error .invalidDigit
  | '+' :: cs => digits 0 cs
  | cs => digits 0 cs

def unmarked : List Char → List Char
  | '0' :: 'x' :: cs => cs
  | '0' :: 'X' :: cs => cs
  | cs => cs

def word (token : List Char) : Except WordError Word :=
  match number (unmarked token) with
  | .ok n => .ok (BitVec.ofNat 64 n)
  | .error cause => .error ⟨String.ofList token, cause⟩

def parse (text : String) : Except WordError (List Word) :=
  (Text.words text.toList).mapM word

end WordList

end Codeword
