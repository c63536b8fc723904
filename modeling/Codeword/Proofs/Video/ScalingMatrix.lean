import Codeword.Proofs.Bitstream.Restore
import Codeword.Proofs.Video.ScalingList
import Codeword.Video.SequenceParameters

namespace Codeword

open Format Code

structure Place.Lawful {σ α : Type} (p : Place σ α) : Prop where
  get_set : ∀ v s, p.get (p.set v s) = v
  set_get : ∀ s, p.set (p.get s) s = s
  set_set : ∀ v w s, p.set v (p.set w s) = p.set v s

namespace ScalingList

variable {n : Nat}

def normalized (l : ScalingList n) : ScalingList n := if l.present then l.filled else zero

/-- Whether a stream can hold the list: no entry of a list that is coded one by one is zero
or more than a byte. -/
def Expressible (l : ScalingList n) : Prop :=
  l.present = true → l.useDefault = false → InRange l.entries

instance (l : ScalingList n) : Decidable l.Expressible :=
  inferInstanceAs (Decidable (_ → _ → _))

structure Agrees (l m : ScalingList n) : Prop where
  present : m.present = l.present
  entries : l.present = true → l.useDefault = false → m.entries = l.entries

theorem filled_present (l : ScalingList n) : l.filled.present = l.present := by
  rw [filled]
  split <;> rfl

theorem normalized_agrees (l : ScalingList n) : l.Agrees l.normalized := by
  rw [normalized]
  cases hpresent : l.present with
  | false => exact ⟨hpresent.symm, fun h => by simp [hpresent] at h⟩
  | true =>
      refine ⟨l.filled_present, fun _ hdefault => ?_⟩
      simp [filled, hdefault]

theorem Agrees.expressible {l m : ScalingList n} (h : l.Agrees m)
    (hrange : m.present = true → InRange m.entries) : l.Expressible := by
  intro hpresent hdefault
  rw [← h.entries hpresent hdefault]
  exact hrange (h.present.trans hpresent)

end ScalingList

namespace ScalingMatrix

def normalized (chromaFormatIdc : UInt32) (m : ScalingMatrix) : ScalingMatrix where
  small := .ofFn fun i => (m.small.get i).normalized
  large := .ofFn fun i =>
    if i ∈ SequenceParameters.largeLists chromaFormatIdc then (m.large.get i).normalized else .zero

structure Expressible (chromaFormatIdc : UInt32) (m : ScalingMatrix) : Prop where
  small : ∀ i : Fin 6, (m.small.get i).Expressible
  large : ∀ i ∈ SequenceParameters.largeLists chromaFormatIdc, (m.large.get i).Expressible

instance (chromaFormatIdc : UInt32) (m : ScalingMatrix) :
    Decidable (m.Expressible chromaFormatIdc) :=
  decidable_of_iff ((∀ i : Fin 6, (m.small.get i).Expressible) ∧
      ∀ i ∈ SequenceParameters.largeLists chromaFormatIdc, (m.large.get i).Expressible)
    ⟨fun h => ⟨h.1, h.2⟩, fun h => ⟨h.1, h.2⟩⟩

structure InRange (m : ScalingMatrix) : Prop where
  small : ∀ i : Fin 6, (m.small.get i).present = true → ScalingList.InRange (m.small.get i).entries
  large : ∀ i : Fin 6, (m.large.get i).present = true → ScalingList.InRange (m.large.get i).entries

theorem inRange_default : ({} : ScalingMatrix).InRange where
  small i h := by simp [ScalingList.zero] at h
  large i h := by simp [ScalingList.zero] at h

theorem InRange.expressible {m : ScalingMatrix} (h : m.InRange) (chromaFormatIdc : UInt32) :
    m.Expressible chromaFormatIdc where
  small i hpresent _ := h.small i hpresent
  large i _ hpresent _ := h.large i hpresent

end ScalingMatrix

namespace SequenceParameters

open ScalingList

section OptionalList

variable {n : Nat} {place : Place SequenceParameters (ScalingList n)}
  {next : Format SequenceParameters} {s s₀ m : SequenceParameters} {bs : List Bool}

theorem restores_optionalList (hplace : place.Lawful) (hn : 0 < n) (hzero : place.get s₀ = zero)
    (hexpressible : (place.get s).Expressible)
    (h : next.Restores s (place.set (place.get s).normalized s₀) m) :
    (optionalList place next).Restores s s₀ m := by
  have hget : (place.comp present).get s = (place.get s).present := rfl
  have hset (b : Bool) : (place.comp present).set b s₀ =
      place.set { (zero : ScalingList n) with present := b } s₀ := by
    rw [← hzero]
    rfl
  rw [normalized] at h
  apply Restores.field
  rw [hset, hget]
  cases hpresent : (place.get s).present with
  | false =>
      rw [hpresent] at h
      exact h
  | true =>
      rw [hpresent, if_pos rfl] at h
      refine Restores.field_of (v := (place.get s).filled) (fun bs hbs => ?_) ?_
      · refine reads_filled hn ?_ (hexpressible hpresent) hbs
        rw [hplace.get_set, hpresent]
      · rw [hplace.set_set]
        exact h

theorem reads_optionalList (hplace : place.Lawful) (hzero : place.get s₀ = zero)
    (h : (optionalList place next).Reads s₀ bs s) :
    ∃ l b₁ b₂, bs = b₁ ++ b₂ ∧ next.Reads (place.set l s₀) b₂ s ∧ l.normalized = l ∧
      (l.present = true → InRange l.entries) := by
  obtain ⟨there, b₁, b₂, rfl, -, hrest⟩ := h
  simp only [Place.comp, present, hzero] at hrest
  cases there with
  | false =>
      refine ⟨zero, b₁, b₂, rfl, hrest, rfl, fun hpresent => ?_⟩
      simp [zero] at hpresent
  | true =>
      obtain ⟨l, b₃, b₄, rfl, hl, hnext⟩ := hrest
      rw [hplace.get_set] at hl
      rw [hplace.set_set] at hnext
      obtain ⟨hpresent, hrange, hfilled⟩ := reads_code hl
      refine ⟨l, b₁ ++ b₃, b₄, by rw [List.append_assoc], hnext, ?_, fun _ => hrange⟩
      rw [normalized, hpresent, if_pos rfl, hfilled]

theorem exists_writes_optionalList (h : next.Writes s bs) :
    ∃ bs, (optionalList place next).Writes s bs := by
  have hflag := writes_flag.2 (rfl : [(place.get s).present] = _)
  cases hpresent : (place.get s).present with
  | false =>
      refine ⟨[(place.get s).present] ++ bs, _, bs, rfl, hflag, ?_⟩
      simp only [Place.comp, present, hpresent]
      exact h
  | true =>
      obtain ⟨b, hb⟩ := exists_writes (place.get s)
      refine ⟨[(place.get s).present] ++ (b ++ bs), _, b ++ bs, rfl, hflag, ?_⟩
      simp only [Place.comp, present, hpresent]
      exact ⟨b, bs, rfl, hb, h⟩

end OptionalList

section Entries

def entry {α : Type} {k : Nat} (p : Place SequenceParameters (Vector α k)) (i : Fin k) :
    Place SequenceParameters α where
  get s := (p.get s).get i
  set v s := p.set ((p.get s).set i v) s

theorem get_set_self {α : Type} {k : Nat} {v : Vector α k} {i : Fin k} (x : α) :
    (v.set i x).get i = x := by
  simp [Vector.get_eq_getElem]

theorem get_set_of_ne {α : Type} {k : Nat} {v : Vector α k} {i j : Fin k} (x : α) (h : j ≠ i) :
    (v.set i x).get j = v.get j := by
  have hval : i.val ≠ j.val := fun heq => h (Fin.ext heq.symm)
  simp [Vector.get_eq_getElem, hval]

theorem entry_lawful {α : Type} {k : Nat} {p : Place SequenceParameters (Vector α k)}
    (hp : p.Lawful) (i : Fin k) : (entry p i).Lawful where
  get_set v s := by simp [entry, hp.get_set, get_set_self]
  set_get s := by simp [entry, hp.set_get, Vector.get_eq_getElem]
  set_set v w s := by simp [entry, hp.get_set, hp.set_set]

variable {n k : Nat} {p : Place SequenceParameters (Vector (ScalingList n) k)}
  {next : Format SequenceParameters} {s s₀ m : SequenceParameters} {bs : List Bool}
  {is : List (Fin k)}

def entries (p : Place SequenceParameters (Vector (ScalingList n) k)) (is : List (Fin k))
    (next : Format SequenceParameters) : Format SequenceParameters :=
  is.foldr (fun i next => optionalList (entry p i) next) next

theorem restores_entries (hp : p.Lawful) (hn : 0 < n) (hnodup : is.Nodup)
    (hzero : ∀ i ∈ is, (p.get s₀).get i = zero)
    (hexpressible : ∀ i ∈ is, ((p.get s).get i).Expressible)
    {v : Vector (ScalingList n) k}
    (hv : ∀ i : Fin k, v.get i = if i ∈ is then ((p.get s).get i).normalized else (p.get s₀).get i)
    (h : next.Restores s (p.set v s₀) m) : (entries p is next).Restores s s₀ m := by
  induction is generalizing s₀ with
  | nil =>
      have heq : v = p.get s₀ := by
        ext i hi
        exact hv ⟨i, hi⟩
      rw [heq, hp.set_get] at h
      exact h
  | cons i is ih =>
      obtain ⟨hi, hnodup⟩ := List.nodup_cons.1 hnodup
      have hne : ∀ j ∈ is, j ≠ i := fun j hj heq => hi (heq ▸ hj)
      refine restores_optionalList (entry_lawful hp i) hn (hzero i List.mem_cons_self)
        (hexpressible i List.mem_cons_self) ?_
      refine ih hnodup ?_ ?_ ?_ ?_
      · intro j hj
        rw [entry, hp.get_set, get_set_of_ne _ (hne j hj)]
        exact hzero j (List.mem_cons_of_mem i hj)
      · intro j hj
        exact hexpressible j (List.mem_cons_of_mem i hj)
      · intro j
        rw [hv j, entry, hp.get_set]
        by_cases hj : j = i
        · subst hj
          simp [get_set_self]
        · simp only [List.mem_cons, hj, false_or, get_set_of_ne _ hj]
      · rw [entry, hp.set_set]
        exact h

theorem reads_entries (hp : p.Lawful) (hnodup : is.Nodup)
    (hzero : ∀ i ∈ is, (p.get s₀).get i = zero)
    (h : (entries p is next).Reads s₀ bs s) :
    ∃ v b₁ b₂, bs = b₁ ++ b₂ ∧ next.Reads (p.set v s₀) b₂ s ∧
      ∀ i : Fin k, (i ∈ is → (v.get i).normalized = v.get i ∧
        ((v.get i).present = true → InRange (v.get i).entries)) ∧
        (i ∉ is → v.get i = (p.get s₀).get i) := by
  induction is generalizing s₀ bs with
  | nil =>
      refine ⟨p.get s₀, [], bs, rfl, ?_, fun i => ⟨fun hi => by simp at hi, fun _ => rfl⟩⟩
      rw [hp.set_get]
      exact h
  | cons i is ih =>
      obtain ⟨hi, hnodup⟩ := List.nodup_cons.1 hnodup
      have hne : ∀ j ∈ is, j ≠ i := fun j hj heq => hi (heq ▸ hj)
      obtain ⟨l, b₁, bs, rfl, hrest, hl⟩ :=
        reads_optionalList (entry_lawful hp i) (hzero i List.mem_cons_self) h
      obtain ⟨v, b₂, b₃, rfl, hnext, hv⟩ := ih hnodup (by
        intro j hj
        rw [entry, hp.get_set, get_set_of_ne _ (hne j hj)]
        exact hzero j (List.mem_cons_of_mem i hj)) hrest
      simp only [entry, hp.get_set, hp.set_set] at hnext hv
      refine ⟨v, b₁ ++ b₂, b₃, by rw [List.append_assoc], hnext, fun j => ?_⟩
      refine ⟨fun hj => ?_, fun hj => ?_⟩
      · by_cases hji : j = i
        · subst hji
          have hvj := (hv j).2 hi
          rw [get_set_self] at hvj
          rw [hvj]
          exact hl
        · exact (hv j).1 (List.mem_of_ne_of_mem hji hj)
      · have hji : j ≠ i := fun heq => hj (heq ▸ List.mem_cons_self)
        have hmem : j ∉ is := fun hmem => hj (List.mem_cons_of_mem i hmem)
        rw [(hv j).2 hmem, get_set_of_ne _ hji]

theorem exists_writes_entries (is : List (Fin k)) (h : next.Writes s bs) :
    ∃ bs, (entries p is next).Writes s bs := by
  induction is with
  | nil => exact ⟨bs, h⟩
  | cons i is ih =>
      obtain ⟨bs, hbs⟩ := ih
      exact exists_writes_optionalList hbs

end Entries

section Matrix

variable {next : Format SequenceParameters} {s s₀ m : SequenceParameters} {bs : List Bool}
  {chroma : UInt32}

def small : Place SequenceParameters (Vector (ScalingList 16) 6) :=
  ⟨fun s => s.scaling.small, fun v s => { s with scaling := { s.scaling with small := v } }⟩

def large : Place SequenceParameters (Vector (ScalingList 64) 6) :=
  ⟨fun s => s.scaling.large, fun v s => { s with scaling := { s.scaling with large := v } }⟩

theorem small_lawful : small.Lawful := ⟨fun _ _ => rfl, fun _ => rfl, fun _ _ _ => rfl⟩

theorem large_lawful : large.Lawful := ⟨fun _ _ => rfl, fun _ => rfl, fun _ _ _ => rfl⟩

theorem scalingLists_eq (chroma : UInt32) (next : Format SequenceParameters) :
    scalingLists chroma next =
      entries small (List.finRange 6) (entries large (largeLists chroma) next) := rfl

theorem nodup_largeLists (chroma : UInt32) : (largeLists chroma).Nodup := by
  rw [largeLists]
  split
  · exact List.nodup_finRange 6
  · decide

theorem small_default (h : s.scaling = {}) (i : Fin 6) : (small.get s).get i = zero := by
  simp [small, h]

theorem large_default (h : s.scaling = {}) (v : Vector (ScalingList 16) 6) (i : Fin 6) :
    (large.get (small.set v s)).get i = zero := by
  simp [large, small, h]

theorem restores_scalingLists (hdefault : s₀.scaling = {})
    (hexpressible : s.scaling.Expressible chroma)
    (h : next.Restores s { s₀ with scaling := s.scaling.normalized chroma } m) :
    (scalingLists chroma next).Restores s s₀ m := by
  rw [scalingLists_eq]
  refine restores_entries small_lawful (by decide) (List.nodup_finRange 6)
    (fun i _ => small_default hdefault i) (fun i _ => hexpressible.small i)
    (v := (s.scaling.normalized chroma).small) (fun i => ?_) ?_
  · simp [small, ScalingMatrix.normalized]
  refine restores_entries large_lawful (by decide) (nodup_largeLists chroma)
    (fun i _ => large_default hdefault _ i) hexpressible.large
    (v := (s.scaling.normalized chroma).large) (fun i => ?_) h
  rw [large_default hdefault]
  simp [large, ScalingMatrix.normalized]

theorem reads_scalingLists (h : (scalingLists chroma next).Reads s₀ bs s)
    (hdefault : s₀.scaling = {}) :
    ∃ scaling b₁ b₂, bs = b₁ ++ b₂ ∧ next.Reads { s₀ with scaling } b₂ s ∧
      scaling.normalized chroma = scaling ∧ scaling.InRange := by
  rw [scalingLists_eq] at h
  obtain ⟨v, b₁, bs, rfl, hrest, hv⟩ := reads_entries small_lawful (List.nodup_finRange 6)
    (fun i _ => small_default hdefault i) h
  obtain ⟨w, b₂, b₃, rfl, hnext, hw⟩ := reads_entries large_lawful (nodup_largeLists chroma)
    (fun i _ => large_default hdefault _ i) hrest
  have hsmall (i : Fin 6) := (hv i).1 (List.mem_finRange i)
  have hlarge (i : Fin 6) (hi : i ∉ largeLists chroma) : w.get i = zero := by
    rw [(hw i).2 hi, large_default hdefault]
  refine ⟨⟨v, w⟩, b₁ ++ b₂, b₃, by rw [List.append_assoc], hnext, ?_, ?_, ?_⟩
  · have hv' : (ScalingMatrix.normalized chroma ⟨v, w⟩).small = v := by
      ext i hi
      simpa [ScalingMatrix.normalized, Vector.get_eq_getElem] using (hsmall ⟨i, hi⟩).1
    have hw' : (ScalingMatrix.normalized chroma ⟨v, w⟩).large = w := by
      ext i hi
      by_cases hmem : (⟨i, hi⟩ : Fin 6) ∈ largeLists chroma
      · simpa [ScalingMatrix.normalized, hmem, Vector.get_eq_getElem] using ((hw ⟨i, hi⟩).1 hmem).1
      · have hzero := (hlarge ⟨i, hi⟩ hmem).symm
        simpa [ScalingMatrix.normalized, hmem, Vector.get_eq_getElem] using hzero
    exact (ScalingMatrix.mk.injEq _ _ _ _).mpr ⟨hv', hw'⟩
  · exact fun i => (hsmall i).2
  · intro i hpresent
    by_cases hmem : i ∈ largeLists chroma
    · exact ((hw i).1 hmem).2 hpresent
    · have hzero : w.get i = zero := hlarge i hmem
      change (w.get i).present = true at hpresent
      rw [hzero] at hpresent
      simp [zero] at hpresent

theorem exists_writes_scalingLists (chroma : UInt32) (h : next.Writes s bs) :
    ∃ bs, (scalingLists chroma next).Writes s bs := by
  obtain ⟨bs, hbs⟩ := exists_writes_entries (p := large) (largeLists chroma) h
  exact exists_writes_entries (p := small) (List.finRange 6) hbs

end Matrix

end SequenceParameters

end Codeword
