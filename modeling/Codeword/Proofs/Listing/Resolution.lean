import Codeword.Fermi.Isa
import Codeword.Proofs.Listing.Build
import Codeword.Proofs.Table.Translation

namespace Codeword

variable {isa : Isa} {l : Labels} {word address base : Word} {words : List Word}
  {ts : List Token}

namespace Labels

end Labels

namespace Listing

end Listing

end Codeword
