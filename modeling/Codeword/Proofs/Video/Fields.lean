import Codeword.Proofs.Bitstream.Fields
import Codeword.Proofs.Video.ScalingMatrix
import Codeword.Video.WeightTable

namespace Codeword

open Format Code

variable {P : (α : Type) → Code α → Prop}

theorem Code.of_ite {α : Type} {p : Prop} [Decidable p] {c d : Code α} (hc : P α c) (hd : P α d) :
    P α (if p then c else d) := by
  split
  · exact hc
  · exact hd

namespace SequenceParameters

variable {next : Format SequenceParameters}

theorem optionalList_every {n : Nat} {place : Place SequenceParameters (ScalingList n)}
    (hP : Elementary P) (hlist : P _ (ScalingList.code (n := n)))
    (hplace : ∀ s, place.set (place.get s) s = s) (h : next.Every P) :
    (optionalList place next).Every P := by
  refine .field hP.flag hplace fun there => ?_
  split
  · exact .field hlist hplace fun _ => h
  · exact h

theorem entries_every {n k : Nat} {p : Place SequenceParameters (Vector (ScalingList n) k)}
    (hP : Elementary P) (hlist : P _ (ScalingList.code (n := n))) (hp : p.Lawful)
    (is : List (Fin k)) (h : next.Every P) : (entries p is next).Every P := by
  induction is with
  | nil => exact h
  | cons i is ih => exact optionalList_every hP hlist (entry_lawful hp i).set_get ih

theorem scalingLists_every (hP : Elementary P) (hlist : ∀ n, P _ (ScalingList.code (n := n)))
    (chroma : UInt32) (h : next.Every P) : (scalingLists chroma next).Every P :=
  entries_every hP (hlist 16) small_lawful _ (entries_every hP (hlist 64) large_lawful _ h)

theorem profileFormat_every (hP : Elementary P) (hlist : ∀ n, P _ (ScalingList.code (n := n)))
    (family : ProfileFamily) (h : next.Every P) : (profileFormat family next).Every P := by
  refine .field (of_ite hP.ue (hP.infer 1)) (fun _ => rfl) fun chroma => ?_
  refine .field (of_ite hP.flag (hP.infer false)) (fun _ => rfl) fun _ => ?_
  iterate 2 refine .field (of_ite hP.ue (hP.infer 0)) (fun _ => rfl) fun _ => ?_
  iterate 2 refine .field (of_ite hP.flag (hP.infer false)) (fun _ => rfl) fun _ => ?_
  split
  · exact scalingLists_every hP hlist chroma h
  · exact h

theorem cycleFormat_every (hP : Elementary P) (h : next.Every P) : (cycleFormat next).Every P := by
  refine .field hP.flag (fun _ => rfl) fun _ => ?_
  iterate 2 refine .field hP.se (fun _ => rfl) fun _ => ?_
  refine .field hP.ue (fun _ => rfl) fun count => ?_
  split
  · exact .refuse
  · refine .field (hP.sized _) (fun _ => rfl) fun _ => ?_
    exact .field (hP.each hP.se) (fun _ => rfl) fun _ => h

theorem orderFormat_every (hP : Elementary P) (h : next.Every P) : (orderFormat next).Every P := by
  refine .field hP.ue (fun _ => rfl) fun type => ?_
  split
  · exact .field hP.ue (fun _ => rfl) fun _ => h
  split
  · exact cycleFormat_every hP h
  · exact h

theorem cropFormat_every (hP : Elementary P) (h : next.Every P) : (cropFormat next).Every P := by
  refine .field hP.flag (fun _ => rfl) fun cropping => ?_
  iterate 4 refine .field (of_ite hP.ue (hP.infer 0)) (fun _ => rfl) fun _ => ?_
  exact h

theorem pictureFormat_every (hP : Elementary P) : pictureFormat.Every P := by
  refine .field hP.ue (fun _ => rfl) fun _ => .field hP.flag (fun _ => rfl) fun _ => ?_
  iterate 2 refine .field hP.ue (fun _ => rfl) fun _ => ?_
  refine .field hP.flag (fun _ => rfl) fun framesOnly => ?_
  refine .field (of_ite (hP.infer false) hP.flag) (fun _ => rfl) fun _ => ?_
  refine .field hP.flag (fun _ => rfl) fun _ => ?_
  refine cropFormat_every hP (.field hP.flag (fun _ => rfl) fun vui => ?_)
  split
  · exact .refuse
  · exact .done

/-- What holds of every kind of code holds of each field of a parameter set. -/
theorem format_every (hP : Elementary P) (hlist : ∀ n, P _ (ScalingList.code (n := n))) :
    format.Every P := by
  iterate 3 refine .field (hP.u 8) (fun _ => rfl) fun _ => ?_
  refine .field hP.ue (fun _ => rfl) fun _ => ?_
  split
  · exact .refuse
  · refine profileFormat_every hP hlist _ (.field hP.ue (fun _ => rfl) fun _ => ?_)
    exact orderFormat_every hP (pictureFormat_every hP)

end SequenceParameters

theorem Weight.format_every (hP : Elementary P) (luma chroma : Int32) :
    (Weight.format luma chroma).Every P := by
  have coded {p : Prop} [Decidable p] (value : Int32) : P _ (if p then se else infer value) :=
    of_ite hP.se (hP.infer value)
  refine .field hP.flag (fun _ => rfl) fun explicit => ?_
  iterate 2 refine .field (coded _) (fun _ => rfl) fun _ => ?_
  refine .field hP.flag (fun _ => rfl) fun explicit => ?_
  iterate 4 refine .field (coded _) (fun _ => rfl) fun _ => ?_
  exact .done

theorem WeightTable.format_every (hP : Elementary P)
    (hweight : ∀ luma chroma, P _ (Weight.format luma chroma).code) (refs0 refs1 : Nat) :
    (WeightTable.format refs0 refs1).Every P := by
  iterate 2 refine .field hP.ue (fun _ => rfl) fun _ => ?_
  split
  · exact .refuse
  split
  · exact .refuse
  iterate 2 refine .field (hP.sized _) (fun _ => rfl) fun _ => ?_
  iterate 2 refine .field (hP.each (hweight _ _)) (fun _ => rfl) fun _ => ?_
  exact .done

end Codeword
