import Codeword.Bitstream.Format
import Codeword.Video.ScalingList

namespace Codeword

/-- Six lists for blocks of 4x4 and six for blocks of 8x8. -/
structure ScalingMatrix where
  small : Vector (ScalingList 16) 6 := .replicate 6 .zero
  large : Vector (ScalingList 64) 6 := .replicate 6 .zero
  deriving DecidableEq

structure SequenceParameters where
  profileIdc : UInt32 := 0
  constraintSet : UInt32 := 0
  levelIdc : UInt32 := 0
  id : UInt32 := 0
  chromaFormatIdc : UInt32 := 0
  separateColourPlane : Bool := false
  bitDepthLumaMinus8 : UInt32 := 0
  bitDepthChromaMinus8 : UInt32 := 0
  zeroTransformBypass : Bool := false
  scalingMatrixPresent : Bool := false
  scaling : ScalingMatrix := {}
  log2MaxFrameNumMinus4 : UInt32 := 0
  picOrderCntType : UInt32 := 0
  log2MaxPicOrderCntLsbMinus4 : UInt32 := 0
  deltaPicOrderAlwaysZero : Bool := false
  offsetForNonRefPic : Int32 := 0
  offsetForTopToBottomField : Int32 := 0
  numRefFramesInCycle : UInt32 := 0
  offsetForRefFrame : List Int32 := []
  maxNumRefFrames : UInt32 := 0
  gapsInFrameNumAllowed : Bool := false
  picWidthInMbsMinus1 : UInt32 := 0
  picHeightInMapUnitsMinus1 : UInt32 := 0
  frameMbsOnly : Bool := false
  mbAdaptiveFrameField : Bool := false
  direct8x8Inference : Bool := false
  frameCropping : Bool := false
  cropLeft : UInt32 := 0
  cropRight : UInt32 := 0
  cropTop : UInt32 := 0
  cropBottom : UInt32 := 0
  vuiParametersPresent : Bool := false
  deriving DecidableEq

instance : Inhabited SequenceParameters := ⟨{}⟩

/-- Only the high profiles code what concerns chroma, depth and scaling. -/
inductive ProfileFamily
  | basic
  | high
  deriving DecidableEq, Repr

def ProfileFamily.ofIdc? (idc : UInt32) : Option ProfileFamily :=
  -- Baseline, Main and Extended
  if idc ∈ [66, 77, 88] then some .basic
  -- High in all its forms, CAVLC 4:4:4, Scalable, Multiview and Stereo
  else if idc ∈ [100, 110, 122, 244, 44, 83, 86, 118, 128] then some .high
  else none

namespace SequenceParameters

open Format Code

def smallList (i : Fin 6) : Place SequenceParameters (ScalingList 16) where
  get s := s.scaling.small[i]
  set v s := { s with scaling := { s.scaling with small := s.scaling.small.set i v } }

def largeList (i : Fin 6) : Place SequenceParameters (ScalingList 64) where
  get s := s.scaling.large[i]
  set v s := { s with scaling := { s.scaling with large := s.scaling.large.set i v } }

def present {n : Nat} : Place (ScalingList n) Bool :=
  ⟨ScalingList.present, fun v l => { l with present := v }⟩

def optionalList {n : Nat} (place : Place SequenceParameters (ScalingList n))
    (next : Format SequenceParameters) : Format SequenceParameters :=
  field flag (place.comp present) fun there =>
    if there then field ScalingList.code place fun _ => next else next

/-- Only with chroma at full resolution do the last four lists exist. -/
def largeLists (chromaFormatIdc : UInt32) : List (Fin 6) :=
  if chromaFormatIdc = 3 then List.finRange 6 else [0, 1]

def scalingLists (chromaFormatIdc : UInt32) (next : Format SequenceParameters) :
    Format SequenceParameters :=
  (List.finRange 6).foldr (fun i next => optionalList (smallList i) next) <|
    (largeLists chromaFormatIdc).foldr (fun i next => optionalList (largeList i) next) next

def profileFormat (family : ProfileFamily) (next : Format SequenceParameters) :
    Format SequenceParameters :=
  let high := family = .high
  field (if high then ue else infer 1)
    ⟨chromaFormatIdc, fun v s => { s with chromaFormatIdc := v }⟩ fun chroma =>
  field (if high ∧ chroma = 3 then flag else infer false)
    ⟨separateColourPlane, fun v s => { s with separateColourPlane := v }⟩ fun _ =>
  field (if high then ue else infer 0)
    ⟨bitDepthLumaMinus8, fun v s => { s with bitDepthLumaMinus8 := v }⟩ fun _ =>
  field (if high then ue else infer 0)
    ⟨bitDepthChromaMinus8, fun v s => { s with bitDepthChromaMinus8 := v }⟩ fun _ =>
  field (if high then flag else infer false)
    ⟨zeroTransformBypass, fun v s => { s with zeroTransformBypass := v }⟩ fun _ =>
  field (if high then flag else infer false)
    ⟨scalingMatrixPresent, fun v s => { s with scalingMatrixPresent := v }⟩ fun matrix =>
  if matrix then scalingLists chroma next else next

/-- The offsets of a cycle of at most 255 frames. -/
def cycleFormat (next : Format SequenceParameters) : Format SequenceParameters :=
  field flag
    ⟨deltaPicOrderAlwaysZero, fun v s => { s with deltaPicOrderAlwaysZero := v }⟩ fun _ =>
  field se ⟨offsetForNonRefPic, fun v s => { s with offsetForNonRefPic := v }⟩ fun _ =>
  field se
    ⟨offsetForTopToBottomField, fun v s => { s with offsetForTopToBottomField := v }⟩ fun _ =>
  field ue ⟨numRefFramesInCycle, fun v s => { s with numRefFramesInCycle := v }⟩ fun count =>
  if 255 < count then refuse (.valueTooWide count.toNat 8)
  else
    let offsets : Place SequenceParameters (List Int32) :=
      ⟨offsetForRefFrame, fun v s => { s with offsetForRefFrame := v }⟩
    field (sized count.toNat) offsets fun _ => field (each se) offsets fun _ => next

def orderFormat (next : Format SequenceParameters) : Format SequenceParameters :=
  field ue ⟨picOrderCntType, fun v s => { s with picOrderCntType := v }⟩ fun type =>
  if type = 0 then
    field ue ⟨log2MaxPicOrderCntLsbMinus4,
      fun v s => { s with log2MaxPicOrderCntLsbMinus4 := v }⟩ fun _ => next
  else if type = 1 then cycleFormat next
  else next

def cropFormat (next : Format SequenceParameters) : Format SequenceParameters :=
  field flag ⟨frameCropping, fun v s => { s with frameCropping := v }⟩ fun cropping =>
  let offset : Code UInt32 := if cropping then ue else infer 0
  field offset ⟨cropLeft, fun v s => { s with cropLeft := v }⟩ fun _ =>
  field offset ⟨cropRight, fun v s => { s with cropRight := v }⟩ fun _ =>
  field offset ⟨cropTop, fun v s => { s with cropTop := v }⟩ fun _ =>
  field offset ⟨cropBottom, fun v s => { s with cropBottom := v }⟩ fun _ => next

def pictureFormat : Format SequenceParameters :=
  field ue ⟨maxNumRefFrames, fun v s => { s with maxNumRefFrames := v }⟩ fun _ =>
  field flag ⟨gapsInFrameNumAllowed, fun v s => { s with gapsInFrameNumAllowed := v }⟩ fun _ =>
  field ue ⟨picWidthInMbsMinus1, fun v s => { s with picWidthInMbsMinus1 := v }⟩ fun _ =>
  field ue
    ⟨picHeightInMapUnitsMinus1, fun v s => { s with picHeightInMapUnitsMinus1 := v }⟩ fun _ =>
  field flag ⟨frameMbsOnly, fun v s => { s with frameMbsOnly := v }⟩ fun framesOnly =>
  field (if framesOnly then infer false else flag)
    ⟨mbAdaptiveFrameField, fun v s => { s with mbAdaptiveFrameField := v }⟩ fun _ =>
  field flag ⟨direct8x8Inference, fun v s => { s with direct8x8Inference := v }⟩ fun _ =>
  cropFormat <|
  field flag
    ⟨vuiParametersPresent, fun v s => { s with vuiParametersPresent := v }⟩ fun vui =>
  if vui then refuse .vuiParameters else done

def format : Format SequenceParameters :=
  field (u 8) ⟨profileIdc, fun v s => { s with profileIdc := v }⟩ fun profile =>
  field (u 8) ⟨constraintSet, fun v s => { s with constraintSet := v }⟩ fun _ =>
  field (u 8) ⟨levelIdc, fun v s => { s with levelIdc := v }⟩ fun _ =>
  field ue ⟨id, fun v s => { s with id := v }⟩ fun _ =>
  match ProfileFamily.ofIdc? profile with
  | none => refuse (.unknownProfile profile.toNat)
  | some family =>
    profileFormat family <|
    field ue ⟨log2MaxFrameNumMinus4, fun v s => { s with log2MaxFrameNumMinus4 := v }⟩ fun _ =>
    orderFormat pictureFormat

def decode (bytes : List UInt8) : Except StreamError SequenceParameters :=
  format.decode {} bytes

def encode (s : SequenceParameters) : Except StreamError (List UInt8) := format.encode s

/-- Planes that are coded apart are as if there were no chroma. -/
def chromaArrayType (s : SequenceParameters) : UInt32 :=
  if s.separateColourPlane then 0 else s.chromaFormatIdc

end SequenceParameters

end Codeword
