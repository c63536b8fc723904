namespace Codeword

inductive StreamError
  | endOfStream
  | expGolombOverflow
  | inferMismatch (expected actual : Int)
  | valueTooWide (value bits : Nat)
  | unsupported (what : String)
  | unknownProfile (profile : Nat)
  deriving DecidableEq, Repr

namespace StreamError

def message : StreamError → String
  | endOfStream => "End of stream"
  | expGolombOverflow => "Exp-Golomb code too long"
  | inferMismatch expected actual =>
    s!"Inferred value mismatch: expected {expected}, got {actual}"
  | valueTooWide value bits => s!"Value {value} does not fit in {bits} bits"
  | unsupported what => "Unsupported syntax: " ++ what
  | unknownProfile profile => s!"Unknown profile_idc: {profile}"

def wideField : StreamError := unsupported "fixed-width field over 32 bits"

def moreDataWhileWriting : StreamError := unsupported "has_more_data while encoding"

def vuiParameters : StreamError := unsupported "VUI parameters"

end StreamError

end Codeword
