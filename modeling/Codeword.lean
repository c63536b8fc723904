import Codeword.Error
import Codeword.Main
import Codeword.Table.Audit
import Codeword.Table.Build
import Codeword.Table.Reach
import Codeword.Table.Summary
import Codeword.Video.SequenceParameters
import Codeword.Video.WeightTable
import Codeword.Proofs.Word
import Codeword.Proofs.Field.Layout
import Codeword.Proofs.Field.Storage
import Codeword.Proofs.Table.Coverage
import Codeword.Proofs.Decoder.Streams
import Codeword.Proofs.Fermi.Decoding
import Codeword.Proofs.Bitstream.Bits
import Codeword.Proofs.Bitstream.Numbers
import Codeword.Proofs.Bitstream.Code
import Codeword.Proofs.Bitstream.Format
import Codeword.Proofs.Bitstream.Restore
import Codeword.Proofs.Bitstream.Calls
import Codeword.Proofs.Bitstream.Sequences
import Codeword.Proofs.Video.ScalingList
import Codeword.Proofs.Video.ScalingMatrix
import Codeword.Proofs.Video.Frames
import Codeword.Proofs.Video.SequenceParameters
import Codeword.Proofs.Video.RoundTrip
import Codeword.Proofs.Table.Locality
import Codeword.Proofs.Fermi.Guard
import Codeword.Proofs.Listing.Build
import Codeword.Proofs.Bitstream.Exact
import Codeword.Proofs.Listing.Resolution
import Codeword.Proofs.Video.WeightTable
import Codeword.Proofs.Decoder.Symbols
import Codeword.Proofs.Decoder.Bytes
import Codeword.Proofs.Operand.Fields
import Codeword.Proofs.Table.Relocation
import Codeword.Proofs.Fermi.Relocation
import Codeword.Proofs.Bitstream.Truncation
import Codeword.Proofs.Video.Truncation
import Codeword.Proofs.Field.Range
import Codeword.Proofs.Field.Outcome
import Codeword.Proofs.Bitstream.Overwriting
import Codeword.Proofs.Video.Overwriting
import Codeword.Proofs.Table.Enumeration
import Codeword.Proofs.Table.Reach
import Codeword.Proofs.Bitstream.StopBit
import Codeword.Proofs.Video.ScalingDifferences
import Codeword.Proofs.Fermi.Mnemonics
import Codeword.Proofs.Fermi.DualLoad
import Codeword.Proofs.Listing.Lines
import Codeword.Proofs.Listing.Spelled
import Codeword.Proofs.WordList
import Codeword.Proofs.Spelling.Address
import Codeword.Proofs.Fermi.Vectors
import Codeword.Proofs.Fermi.AccessWidth
import Codeword.Proofs.Fermi.ConversionTypes
import Codeword.Proofs.Fermi.HardWired
import Codeword.Proofs.Bitstream.ReadErrors
import Codeword.Proofs.Bitstream.Refusals
import Codeword.Proofs.Video.ReadOnly
import Codeword.Proofs.Table.Support
import Codeword.Proofs.Table.Inlining
