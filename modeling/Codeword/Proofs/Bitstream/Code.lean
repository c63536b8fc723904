import Codeword.Bitstream.Code
import Codeword.Proofs.Bitstream.Numbers

namespace Codeword.Code

variable {α : Type}

/-- Reading takes the bits `bs`, whatever comes after them, and makes `v` of `old`. -/
def Reads (c : Code α) (old : α) (bs : List Bool) (v : α) : Prop :=
  ∀ position rest, c.read old ⟨position, bs ++ rest⟩ = (.ok (), v, ⟨position + bs.length, rest⟩)

def Writes (c : Code α) (v : α) (bs : List Bool) : Prop :=
  ∀ w : BitWriter, c.write v w = (.ok (), v, ⟨w.bits ++ bs⟩)

/-- A code that looks at no bits but those it takes. -/
class Lawful (c : Code α) : Prop where
  exists_reads : ∀ {old v} {r r' : BitReader}, c.read old r = (.ok (), v, r') →
    ∃ bs, r.rest = bs ++ r'.rest ∧ c.Reads old bs v
  exists_writes : ∀ {v v'} {w w' : BitWriter}, c.write v w = (.ok (), v', w') →
    ∃ bs, c.Writes v bs

/-- A code in which a value has one spelling. -/
class Exact (c : Code α) : Prop extends Lawful c where
  reads_iff : ∀ {old bs v}, c.Reads old bs v ↔ c.Writes v bs

section

variable {c : Code α} {old v v' : α} {bs bs' : List Bool}

theorem Reads.read_self (h : c.Reads old bs v) :
    c.read old ⟨0, bs⟩ = (.ok (), v, ⟨bs.length, []⟩) := by
  simpa using h 0 []

theorem Reads.inj (h : c.Reads old bs v) (h' : c.Reads old bs v') : v = v' := by
  have heq := h.read_self.symm.trans h'.read_self
  simpa using heq

theorem Writes.write_empty (h : c.Writes v bs) : c.write v {} = (.ok (), v, ⟨bs⟩) := by
  simpa using h {}

theorem Writes.inj (h : c.Writes v bs) (h' : c.Writes v bs') : bs = bs' := by
  have heq := h.write_empty.symm.trans h'.write_empty
  simpa using heq

theorem Writes.reads [Exact c] (h : c.Writes v bs) (old : α) : c.Reads old bs v :=
  Exact.reads_iff.2 h

theorem Reads.writes [Exact c] (h : c.Reads old bs v) : c.Writes v bs :=
  Exact.reads_iff.1 h

end

section OfFunctions

variable {read : BitReader → BitReader.Result α} {bits : α → Except StreamError (List Bool)}
  {old v : α} {bs : List Bool}

theorem reads_ofFunctions {write : BitWriter → α → BitWriter.Result}
    (h : BitReader.Inverts read bits) :
    (ofFunctions read write).Reads old bs v ↔ bits v = .ok bs := by
  constructor
  · intro hreads
    have hself := hreads.read_self
    cases hread : read ⟨0, bs⟩ with
    | mk result r =>
        cases result with
        | error e => simp [ofFunctions, hread] at hself
        | ok x =>
            simp only [ofFunctions, hread, Prod.mk.injEq, true_and] at hself
            obtain ⟨rfl, rfl⟩ := hself
            obtain ⟨bs', hbits, hrest⟩ := h.eq_append hread
            have heq : bs = bs' := by simpa using hrest
            rw [heq, hbits]
  · intro hbits position rest
    simp only [ofFunctions, h.read_append hbits]

theorem writes_ofFunctions :
    (ofFunctions read fun w v => w.put (bits v)).Writes v bs ↔ bits v = .ok bs := by
  constructor
  · intro hwrites
    have hself := hwrites.write_empty
    cases hbits : bits v with
    | error e => simp [ofFunctions, BitWriter.put, hbits] at hself
    | ok bs' => simpa [ofFunctions, BitWriter.put, hbits] using hself
  · intro hbits w
    simp [ofFunctions, BitWriter.put, hbits]

theorem exact_ofFunctions (h : BitReader.Inverts read bits) :
    Exact (ofFunctions read fun w v => w.put (bits v)) where
  exists_reads := by
    intro old v r r' hread
    cases hresult : read r with
    | mk result r₁ =>
        cases result with
        | error e => simp [ofFunctions, hresult] at hread
        | ok x =>
            simp only [ofFunctions, hresult, Prod.mk.injEq, true_and] at hread
            obtain ⟨rfl, rfl⟩ := hread
            obtain ⟨bs, hbits, hrest⟩ := h.eq_append hresult
            exact ⟨bs, hrest, (reads_ofFunctions h).2 hbits⟩
  exists_writes := by
    intro v v' w w' hwrite
    cases hbits : bits v with
    | error e => simp [ofFunctions, BitWriter.put, hbits] at hwrite
    | ok bs => exact ⟨bs, writes_ofFunctions.2 hbits⟩
  reads_iff := by
    intro old bs v
    rw [reads_ofFunctions h, writes_ofFunctions]

end OfFunctions

instance (n : Nat) : Exact (u n) := exact_ofFunctions (BitReader.u_inverts n)

instance : Exact ue := exact_ofFunctions BitReader.ue_inverts

instance : Exact se := exact_ofFunctions BitReader.se_inverts

instance : Exact flag := exact_ofFunctions BitReader.flag_inverts

theorem writes_flag {v : Bool} {bs : List Bool} : flag.Writes v bs ↔ bs = [v] := by
  have h := @writes_ofFunctions Bool BitReader.flag (fun v => .ok [v]) v bs
  rw [Except.ok.injEq, eq_comm] at h
  exact h

section Infer

variable [DecidableEq α] [Number α] {value old v : α} {bs : List Bool}

theorem reads_infer : (infer value).Reads old bs v ↔ v = value ∧ bs = [] := by
  constructor
  · intro h
    have hself := h.read_self
    simp only [infer, Prod.mk.injEq, true_and, BitReader.mk.injEq] at hself
    exact ⟨hself.1.symm, hself.2.2⟩
  · rintro ⟨rfl, rfl⟩ position rest
    rfl

theorem writes_infer : (infer value).Writes v bs ↔ v = value ∧ bs = [] := by
  constructor
  · intro h
    have hself := h.write_empty
    by_cases hv : v = value
    · simp only [infer, hv, if_true, Prod.mk.injEq, true_and, BitWriter.mk.injEq] at hself
      exact ⟨hv, hself.symm⟩
    · simp [infer, hv] at hself
  · rintro ⟨rfl, rfl⟩ w
    simp [infer]

instance : Exact (infer value) where
  exists_reads := by
    intro old v r r' h
    simp only [infer, Prod.mk.injEq, true_and] at h
    obtain ⟨rfl, rfl⟩ := h
    exact ⟨[], rfl, reads_infer.2 ⟨rfl, rfl⟩⟩
  exists_writes := by
    intro v v' w w' h
    by_cases hv : v = value
    · exact ⟨[], writes_infer.2 ⟨hv, rfl⟩⟩
    · simp [infer, hv] at h
  reads_iff := by
    intro old bs v
    rw [reads_infer, writes_infer]

end Infer

instance {p : Prop} [Decidable p] {c d : Code α} [Exact c] [Exact d] :
    Exact (if p then c else d) := by
  split <;> infer_instance

section Sized

variable [Inhabited α] {n : Nat} {xs ys : List α} {bs : List Bool}

theorem reads_sized : (sized n).Reads xs bs ys ↔
    ys = xs.take n ++ List.replicate (n - xs.length) default ∧ bs = [] := by
  constructor
  · intro h
    have hself := h.read_self
    simp only [sized, Prod.mk.injEq, true_and, BitReader.mk.injEq] at hself
    exact ⟨hself.1.symm, hself.2.2⟩
  · rintro ⟨rfl, rfl⟩ position rest
    rfl

theorem Reads.length_sized (h : (sized n).Reads xs bs ys) : ys.length = n := by
  rw [(reads_sized.1 h).1, List.length_append, List.length_take, List.length_replicate]
  omega

theorem writes_sized : (sized n).Writes xs bs ↔ xs.length = n ∧ bs = [] := by
  constructor
  · intro h
    have hself := h.write_empty
    by_cases hn : xs.length = n
    · simp only [sized, hn, if_true, Prod.mk.injEq, true_and, BitWriter.mk.injEq] at hself
      exact ⟨hn, hself.symm⟩
    · simp [sized, hn] at hself
  · rintro ⟨hn, rfl⟩ w
    simp [sized, hn]

instance : Lawful (sized n : Code (List α)) where
  exists_reads := by
    intro xs ys r r' h
    simp only [sized, Prod.mk.injEq, true_and] at h
    obtain ⟨rfl, rfl⟩ := h
    exact ⟨[], rfl, reads_sized.2 ⟨rfl, rfl⟩⟩
  exists_writes := by
    intro xs xs' w w' h
    by_cases hn : xs.length = n
    · exact ⟨[], writes_sized.2 ⟨hn, rfl⟩⟩
    · simp [sized, hn] at h

end Sized

section Each

variable {c : Code α} {x y : α} {xs ys zs : List α} {bs b₁ b₂ : List Bool}

theorem eachStep_cons {S : Type} {step : Step S α} {st st' : S} :
    eachStep step (x :: xs) st = (.ok (), zs, st') ↔
      ∃ y st₁ ys, step x st = (.ok (), y, st₁) ∧ eachStep step xs st₁ = (.ok (), ys, st') ∧
        zs = y :: ys := by
  cases hstep : step x st with
  | mk result p =>
      obtain ⟨y, st₁⟩ := p
      cases result with
      | error e => simp [eachStep, hstep]
      | ok u =>
          cases htail : eachStep step xs st₁ with
          | mk result q =>
              obtain ⟨ys, st₂⟩ := q
              simp only [eachStep, hstep, htail, Prod.mk.injEq]
              constructor
              · rintro ⟨rfl, rfl, rfl⟩
                exact ⟨y, st₁, ys, ⟨trivial, rfl, rfl⟩, htail, rfl⟩
              · rintro ⟨y', st₁', ys', ⟨-, rfl, rfl⟩, htail', rfl⟩
                rw [htail] at htail'
                simp only [Prod.mk.injEq] at htail'
                obtain ⟨rfl, rfl, rfl⟩ := htail'
                exact ⟨rfl, rfl, rfl⟩

theorem reads_each_nil : (each c).Reads [] bs ys ↔ ys = [] ∧ bs = [] := by
  constructor
  · intro h
    have hself := h.read_self
    simp only [each, eachStep, Prod.mk.injEq, true_and, BitReader.mk.injEq] at hself
    exact ⟨hself.1.symm, hself.2.2⟩
  · rintro ⟨rfl, rfl⟩ position rest
    rfl

theorem writes_each_nil : (each c).Writes [] bs ↔ bs = [] := by
  constructor
  · intro h
    have hself := h.write_empty
    simp only [each, eachStep, Prod.mk.injEq, true_and, BitWriter.mk.injEq] at hself
    exact hself.symm
  · rintro rfl w
    simp [each, eachStep]

theorem Reads.each_cons (hx : c.Reads x b₁ y) (hxs : (each c).Reads xs b₂ ys) :
    (each c).Reads (x :: xs) (b₁ ++ b₂) (y :: ys) := by
  intro position rest
  refine eachStep_cons.2 ⟨y, _, ys, ?_, hxs (position + b₁.length) rest, rfl⟩ |>.trans ?_
  · rw [List.append_assoc]
    exact hx position (b₂ ++ rest)
  · rw [List.length_append, Nat.add_assoc]

theorem Writes.each_cons (hx : c.Writes x b₁) (hxs : (each c).Writes xs b₂) :
    (each c).Writes (x :: xs) (b₁ ++ b₂) := by
  intro w
  refine eachStep_cons.2 ⟨x, _, xs, hx w, hxs _, rfl⟩ |>.trans ?_
  rw [List.append_assoc]

instance [Lawful c] : Lawful (each c) where
  exists_reads := by
    intro xs
    induction xs with
    | nil =>
        intro ys r r' h
        simp only [each, eachStep, Prod.mk.injEq, true_and] at h
        obtain ⟨rfl, rfl⟩ := h
        exact ⟨[], rfl, reads_each_nil.2 ⟨rfl, rfl⟩⟩
    | cons x xs ih =>
        intro zs r r' h
        obtain ⟨y, r₁, ys, hx, hxs, rfl⟩ := eachStep_cons.1 h
        obtain ⟨b₁, hr, hy⟩ := Lawful.exists_reads hx
        obtain ⟨b₂, hr₁, hys⟩ := ih hxs
        refine ⟨b₁ ++ b₂, ?_, hy.each_cons hys⟩
        rw [hr, hr₁, List.append_assoc]
  exists_writes := by
    intro xs
    induction xs with
    | nil =>
        intro ys w w' _
        exact ⟨[], writes_each_nil.2 rfl⟩
    | cons x xs ih =>
        intro zs w w' h
        obtain ⟨y, w₁, ys, hx, hxs, rfl⟩ := eachStep_cons.1 h
        obtain ⟨b₁, hy⟩ := Lawful.exists_writes hx
        obtain ⟨b₂, hys⟩ := ih hxs
        exact ⟨b₁ ++ b₂, hy.each_cons hys⟩

theorem reads_each_cons [Lawful c] : (each c).Reads (x :: xs) bs zs ↔
    ∃ y ys b₁ b₂, bs = b₁ ++ b₂ ∧ c.Reads x b₁ y ∧ (each c).Reads xs b₂ ys ∧ zs = y :: ys := by
  constructor
  · intro h
    obtain ⟨y, r₁, ys, hx, hxs, rfl⟩ := eachStep_cons.1 h.read_self
    obtain ⟨b₁, hr, hy⟩ := Lawful.exists_reads hx
    obtain ⟨b₂, hr₁, hys⟩ := Lawful.exists_reads (c := each c) hxs
    refine ⟨y, ys, b₁, b₂, ?_, hy, hys, rfl⟩
    rw [← List.append_nil b₂, ← hr₁]
    exact hr
  · rintro ⟨y, ys, b₁, b₂, rfl, hx, hxs, rfl⟩
    exact hx.each_cons hxs

theorem writes_each_cons [Lawful c] : (each c).Writes (x :: xs) bs ↔
    ∃ b₁ b₂, bs = b₁ ++ b₂ ∧ c.Writes x b₁ ∧ (each c).Writes xs b₂ := by
  constructor
  · intro h
    obtain ⟨y, w₁, ys, hx, hxs, -⟩ := eachStep_cons.1 h.write_empty
    obtain ⟨b₁, hy⟩ := Lawful.exists_writes hx
    obtain ⟨b₂, hys⟩ := Lawful.exists_writes (c := each c) hxs
    exact ⟨b₁, b₂, h.inj (hy.each_cons hys), hy, hys⟩
  · rintro ⟨b₁, b₂, rfl, hx, hxs⟩
    exact hx.each_cons hxs

theorem reads_each [Exact c] :
    (each c).Reads xs bs ys ↔ ys.length = xs.length ∧ (each c).Writes ys bs := by
  induction xs generalizing ys bs with
  | nil =>
      rw [reads_each_nil, List.length_nil, List.length_eq_zero_iff]
      constructor
      · rintro ⟨rfl, rfl⟩
        exact ⟨rfl, writes_each_nil.2 rfl⟩
      · rintro ⟨rfl, h⟩
        exact ⟨rfl, writes_each_nil.1 h⟩
  | cons x xs ih =>
      rw [reads_each_cons]
      constructor
      · rintro ⟨y, ys, b₁, b₂, rfl, hy, hys, rfl⟩
        obtain ⟨hlen, hwrites⟩ := ih.1 hys
        exact ⟨by simp [hlen], hy.writes.each_cons hwrites⟩
      · rintro ⟨hlen, hwrites⟩
        cases ys with
        | nil => simp at hlen
        | cons y ys =>
            obtain ⟨b₁, b₂, rfl, hy, hys⟩ := writes_each_cons.1 hwrites
            exact ⟨y, ys, b₁, b₂, rfl, hy.reads x, ih.2 ⟨by simpa using hlen, hys⟩, rfl⟩

end Each

end Codeword.Code
