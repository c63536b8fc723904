import Codeword.Bitstream.Format

namespace Codeword

structure Weight where
  lumaExplicit : Bool := false
  lumaWeight : Int32 := 0
  lumaOffset : Int32 := 0
  chromaExplicit : Bool := false
  cbWeight : Int32 := 0
  cbOffset : Int32 := 0
  crWeight : Int32 := 0
  crOffset : Int32 := 0
  deriving DecidableEq, Repr

instance : Inhabited Weight := ⟨{}⟩

namespace Weight

open Format Code

/-- What is not explicit has the default weight and no offset. -/
def format (luma chroma : Int32) : Format Weight :=
  field flag ⟨lumaExplicit, fun v w => { w with lumaExplicit := v }⟩ fun explicit =>
  let coded (value : Int32) : Code Int32 := if explicit then se else infer value
  field (coded luma) ⟨lumaWeight, fun v w => { w with lumaWeight := v }⟩ fun _ =>
  field (coded 0) ⟨lumaOffset, fun v w => { w with lumaOffset := v }⟩ fun _ =>
  field flag ⟨chromaExplicit, fun v w => { w with chromaExplicit := v }⟩ fun explicit =>
  let coded (value : Int32) : Code Int32 := if explicit then se else infer value
  field (coded chroma) ⟨cbWeight, fun v w => { w with cbWeight := v }⟩ fun _ =>
  field (coded 0) ⟨cbOffset, fun v w => { w with cbOffset := v }⟩ fun _ =>
  field (coded chroma) ⟨crWeight, fun v w => { w with crWeight := v }⟩ fun _ =>
  field (coded 0) ⟨crOffset, fun v w => { w with crOffset := v }⟩ fun _ =>
  done

end Weight

structure WeightTable where
  lumaDenominator : UInt32 := 0
  chromaDenominator : UInt32 := 0
  list0 : List Weight := []
  list1 : List Weight := []
  deriving DecidableEq, Repr

namespace WeightTable

open Format Code

def defaultWeight (denominator : UInt32) : Int32 := Int32.ofNat (1 <<< denominator.toNat)

def list0Place : Place WeightTable (List Weight) :=
  ⟨list0, fun v t => { t with list0 := v }⟩

def list1Place : Place WeightTable (List Weight) :=
  ⟨list1, fun v t => { t with list1 := v }⟩

def weights (refs0 refs1 : Nat) (luma chroma : UInt32) : Format WeightTable :=
  let weight := (Weight.format (defaultWeight luma) (defaultWeight chroma)).code
  field (sized refs0) list0Place fun _ =>
  field (sized refs1) list1Place fun _ =>
  field (each weight) list0Place fun _ =>
  field (each weight) list1Place fun _ =>
  done

/-- The table for given numbers of reference pictures. The second one is zero unless the
slice is predicted from both lists. A denominator is the logarithm of the default weight and
at most 7. -/
def format (refs0 refs1 : Nat) : Format WeightTable :=
  field ue ⟨lumaDenominator, fun v t => { t with lumaDenominator := v }⟩ fun luma =>
  field ue ⟨chromaDenominator, fun v t => { t with chromaDenominator := v }⟩ fun chroma =>
  if 7 < luma then refuse (.valueTooWide luma.toNat 3)
  else if 7 < chroma then refuse (.valueTooWide chroma.toNat 3)
  else weights refs0 refs1 luma chroma

end WeightTable

end Codeword
