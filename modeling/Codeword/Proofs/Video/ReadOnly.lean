import Codeword.Proofs.Bitstream.ReadOnly
import Codeword.Proofs.Video.Fields

namespace Codeword

open Code

theorem ScalingList.readOnly_code (n : Nat) : ReadOnly (code : Code (ScalingList n)) where
  write_value _ _ := rfl

theorem SequenceParameters.readOnly_format : ReadOnly format.code :=
  (format_every readOnly_elementary ScalingList.readOnly_code).readOnly

theorem Weight.readOnly_format (luma chroma : Int32) : ReadOnly (format luma chroma).code :=
  (format_every readOnly_elementary luma chroma).readOnly

theorem WeightTable.readOnly_format (refs0 refs1 : Nat) : ReadOnly (format refs0 refs1).code :=
  (format_every readOnly_elementary Weight.readOnly_format refs0 refs1).readOnly

/-- Encoding is a reading of the record: whether it succeeds or fails somewhere, and whatever was
written before, the record is as it was. So are its lists, which no writer cuts or fills up. -/
theorem encode_preserves :
    (∀ (s : SequenceParameters) (w : BitWriter),
      (SequenceParameters.format.step .encode s w).2.1 = s) ∧
    (∀ (refs0 refs1 : Nat) (t : WeightTable) (w : BitWriter),
      ((WeightTable.format refs0 refs1).step .encode t w).2.1 = t) ∧
    ∀ (n : Nat) (l : ScalingList n) (w : BitWriter), (ScalingList.code.step .encode l w).2.1 = l :=
  ⟨SequenceParameters.readOnly_format.write_value,
    fun refs0 refs1 => (WeightTable.readOnly_format refs0 refs1).write_value,
    fun n => (ScalingList.readOnly_code n).write_value⟩

end Codeword
