import Codeword.Bitstream.Error
import Codeword.DecodeError
import Codeword.Field.Basic

namespace Codeword

inductive Error
  | decode (e : DecodeError)
  | field (e : FieldError)
  | stream (e : StreamError)
  | settings (text : String)
  | invalidInput (text : String)
  deriving DecidableEq, Repr

def Error.message : Error → String
  | decode e => "Decode error: " ++ e.message
  | field e => "Field error: " ++ e.message
  | stream e => "Bitstream error: " ++ e.message
  | settings text => "Config error: " ++ text
  | invalidInput text => "Invalid input: " ++ text

end Codeword
