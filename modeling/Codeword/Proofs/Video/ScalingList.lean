import Codeword.Proofs.Bitstream.Format
import Codeword.Video.ScalingList

namespace Codeword.ScalingList

open Code

theorem toNat_next (last : UInt32) (d : Int32) :
    ((next last d).toNat : Int) = (last.toNat + d.toInt) % 256 := by
  have hnonneg := Int.emod_nonneg (last.toNat + d.toInt) (show (256 : Int) ≠ 0 by decide)
  have hlt := Int.emod_lt_of_pos (last.toNat + d.toInt) (show (0 : Int) < 256 by decide)
  rw [next, UInt32.toNat_ofNat', Nat.mod_eq_of_lt (by omega)]
  omega

theorem next_lt (last : UInt32) (d : Int32) : (next last d).toNat < 256 := by
  have hval := toNat_next last d
  omega

theorem toInt_delta (last entry : UInt32) :
    (delta last entry).toInt = Int.bmod (entry.toNat - last.toNat) 256 := by
  have hle := @Int.le_bmod (entry.toNat - last.toNat) 256 (by decide)
  have hlt := @Int.bmod_lt (entry.toNat - last.toNat) 256 (by decide)
  exact Int32.toInt_ofInt_of_le (by omega) (by omega)

theorem next_delta {last entry : UInt32} (h : entry.toNat < 256) :
    next last (delta last entry) = entry := by
  have hval := toNat_next last (delta last entry)
  rw [toInt_delta, Int.bmod_eq_emod] at hval
  apply UInt32.toNat_inj.1
  split at hval <;> omega

theorem delta_bounds (last entry : UInt32) :
    -128 ≤ (delta last entry).toInt ∧ (delta last entry).toInt ≤ 127 := by
  have hle := @Int.le_bmod (entry.toNat - last.toNat) 256 (by decide)
  have hlt := @Int.bmod_lt (entry.toNat - last.toNat) 256 (by decide)
  rw [← toInt_delta] at hle hlt
  omega

theorem exists_writes_delta (last entry : UInt32) : ∃ bs, se.Writes (delta last entry) bs := by
  have hbounds := delta_bounds last entry
  have hcode : ExpGolomb.codeOfInt (delta last entry).toInt + 1 < 2 ^ 32 := by
    rw [ExpGolomb.codeOfInt]
    split <;> omega
  obtain ⟨bs, hbits⟩ := BitWriter.exists_codeBits hcode
  exact ⟨bs, writes_ofFunctions.2 hbits⟩

theorem read_se {d : Int32} {bs : List Bool} (h : se.Writes d bs) (position : Nat) (rest : List Bool) :
    BitReader.se ⟨position, bs ++ rest⟩ = (.ok d, ⟨position + bs.length, rest⟩) :=
  BitReader.se_inverts.read_append (writes_ofFunctions.1 h) position rest

theorem exists_writes_se {d : Int32} {r r' : BitReader} (h : r.se = (.ok d, r')) :
    ∃ bs, r.rest = bs ++ r'.rest ∧ se.Writes d bs := by
  obtain ⟨bs, hbits, hrest⟩ := BitReader.se_inverts.eq_append h
  exact ⟨bs, hrest, writes_ofFunctions.2 hbits⟩

/-- What the bits make of the `n` entries that follow `last`. -/
inductive Unfolds : UInt32 → Nat → List Bool → List UInt32 → Prop
  | nil {last} : Unfolds last 0 [] []
  | stop {last n d bs} :
      se.Writes d bs → next last d = 0 → Unfolds last (n + 1) bs (List.replicate (n + 1) last)
  | cons {last n d b₁ b₂ ys} :
      se.Writes d b₁ → next last d ≠ 0 → Unfolds (next last d) n b₂ ys →
        Unfolds last (n + 1) (b₁ ++ b₂) (next last d :: ys)

def InRange (xs : List UInt32) : Prop := ∀ x ∈ xs, 0 < x.toNat ∧ x.toNat < 256

instance (xs : List UInt32) : Decidable (InRange xs) := List.decidableBAll _ xs

theorem inRange_cons {x : UInt32} {xs : List UInt32} :
    InRange (x :: xs) ↔ (0 < x.toNat ∧ x.toNat < 256) ∧ InRange xs := by
  simp [InRange]

theorem inRange_replicate {x : UInt32} (n : Nat) (h : 0 < x.toNat ∧ x.toNat < 256) :
    InRange (List.replicate n x) := by
  intro y hy
  rw [List.eq_of_mem_replicate hy]
  exact h

theorem next_pos {last : UInt32} {d : Int32} (h : next last d ≠ 0) :
    0 < (next last d).toNat ∧ (next last d).toNat < 256 := by
  refine ⟨Nat.pos_of_ne_zero fun hzero => h ?_, next_lt last d⟩
  exact UInt32.toNat_inj.1 hzero

theorem next_delta_ne_zero {last x : UInt32} (hx : 0 < x.toNat ∧ x.toNat < 256) :
    next last (delta last x) ≠ 0 := by
  rw [next_delta hx.2]
  rintro rfl
  exact absurd hx.1 (by decide)

namespace Unfolds

variable {last : UInt32} {n : Nat} {bs : List Bool} {xs ys : List UInt32}

theorem length_eq (h : Unfolds last n bs ys) : ys.length = n := by
  induction h with
  | nil => rfl
  | stop _ _ => exact List.length_replicate
  | cons _ _ _ ih => rw [List.length_cons, ih]

theorem inRange (h : Unfolds last n bs ys) (hlast : 0 < last.toNat ∧ last.toNat < 256) :
    InRange ys := by
  induction h with
  | nil => exact List.forall_mem_nil _
  | stop _ _ => exact inRange_replicate _ hlast
  | cons _ hd _ ih => exact inRange_cons.2 ⟨next_pos hd, ih (next_pos hd)⟩

theorem cons_delta {x : UInt32} {b₁ b₂ : List Bool} (hx : 0 < x.toNat ∧ x.toNat < 256)
    (hd : se.Writes (delta last x) b₁) (h : Unfolds x n b₂ xs) :
    Unfolds last (n + 1) (b₁ ++ b₂) (x :: xs) := by
  have hnext : next last (delta last x) = x := next_delta hx.2
  rw [← hnext] at h
  have hcons := cons hd (next_delta_ne_zero hx) h
  rw [hnext] at hcons
  exact hcons

theorem readEntries_eq (h : Unfolds last n bs ys) (hn : xs.length = n) (position : Nat)
    (rest : List Bool) :
    readEntries last xs ⟨position, bs ++ rest⟩ = (.ok (), ys, ⟨position + bs.length, rest⟩) := by
  induction h generalizing xs position with
  | nil =>
      rw [List.length_eq_zero_iff.1 hn]
      rfl
  | stop hd hzero =>
      cases xs with
      | nil => simp at hn
      | cons x xs => simp [readEntries, read_se hd, hzero, ← hn]
  | @cons last n d b₁ b₂ ys hd hne _ ih =>
      cases xs with
      | nil => simp at hn
      | cons x xs =>
          have htail := ih (Nat.succ.inj hn) (position + b₁.length)
          rw [List.append_assoc]
          simp [readEntries, read_se hd, hne, htail, Nat.add_assoc]

end Unfolds

theorem exists_unfolds {last : UInt32} {xs ys : List UInt32} {r r' : BitReader}
    (h : readEntries last xs r = (.ok (), ys, r')) :
    ∃ bs, r.rest = bs ++ r'.rest ∧ Unfolds last xs.length bs ys := by
  induction xs generalizing last r ys with
  | nil =>
      simp only [readEntries, Prod.mk.injEq, true_and] at h
      obtain ⟨rfl, rfl⟩ := h
      exact ⟨[], rfl, .nil⟩
  | cons x xs ih =>
      cases hse : r.se with
      | mk result r₁ =>
          cases result with
          | error e => simp [readEntries, hse] at h
          | ok d =>
              obtain ⟨b₁, hr, hd⟩ := exists_writes_se hse
              by_cases hzero : next last d = 0
              · simp only [readEntries, hse, hzero, if_true, Prod.mk.injEq, true_and] at h
                obtain ⟨rfl, rfl⟩ := h
                exact ⟨b₁, hr, .stop hd hzero⟩
              · cases htail : readEntries (next last d) xs r₁ with
                | mk result p =>
                    simp only [readEntries, hse, hzero, if_false, htail, Prod.mk.injEq] at h
                    obtain ⟨rfl, rfl, rfl⟩ := h
                    obtain ⟨b₂, hr₁, hys⟩ := ih htail
                    refine ⟨b₁ ++ b₂, ?_, .cons hd hzero hys⟩
                    rw [hr, hr₁, List.append_assoc]

def tailDeltas : UInt32 → List UInt32 → List Int32
  | _, [] => []
  | last, x :: xs =>
      if (x :: xs).all (· = last) then [delta last 0] else delta last x :: tailDeltas x xs

def tailKept (last : UInt32) (xs : List UInt32) : List UInt32 :=
  if xs.all (· = last) then [] else withoutTail xs

theorem withoutTail_cons (x : UInt32) (xs : List UInt32) :
    withoutTail (x :: xs) = x :: tailKept x xs := by
  rw [withoutTail, tailKept]
  split <;> rfl

theorem tailDeltas_eq (last : UInt32) (xs : List UInt32) :
    deltas last (tailKept last xs) ++
        (if (tailKept last xs).length = xs.length then []
          else [delta ((tailKept last xs).getLastD last) 0]) =
      tailDeltas last xs := by
  induction xs generalizing last with
  | nil => rfl
  | cons x xs ih =>
      rw [tailDeltas, tailKept]
      by_cases hall : (x :: xs).all (· = last)
      · simp [hall, deltas]
      · rw [if_neg hall, if_neg hall, withoutTail_cons, deltas, ← ih x]
        simp [List.getLast?_cons]

variable {n : Nat}

theorem written_explicit {l : ScalingList n} (hl : l.useDefault = false) {x : UInt32}
    {xs : List UInt32} (hentries : l.entries = x :: xs) :
    l.written = delta 8 x :: tailDeltas x xs := by
  have hlen := l.length_entries
  rw [hentries] at hlen
  rw [written, kept, hl, hentries, withoutTail_cons, ← tailDeltas_eq x xs, ← hlen]
  simp [deltas, List.getLast?_cons]

theorem written_default {l : ScalingList n} (hl : l.useDefault = true) (hn : 0 < n) :
    l.written = [delta 8 0] := by
  simp [written, kept, hl, deltas, Nat.ne_of_lt hn]

theorem mapM_seBits {ds : List Int32} {bs : List Bool} :
    (ds.mapM BitWriter.seBits).map List.flatten = .ok bs ↔ (each se).Writes ds bs := by
  induction ds generalizing bs with
  | nil =>
      rw [writes_each_nil]
      simp [pure, Except.pure, Except.map, eq_comm]
  | cons d ds ih =>
      have hd : ∀ b, se.Writes d b ↔ BitWriter.seBits d = .ok b := fun b => writes_ofFunctions
      simp only [writes_each_cons, hd, ← ih, List.mapM_cons]
      cases BitWriter.seBits d with
      | error e => simp [bind, Except.bind, Except.map]
      | ok b =>
          cases ds.mapM BitWriter.seBits with
          | error e => simp [bind, Except.bind, Except.map]
          | ok bss => simp [bind, Except.bind, Except.map, pure, Except.pure, eq_comm]

theorem writes_code {l : ScalingList n} {bs : List Bool} :
    code.Writes l bs ↔ (each se).Writes l.written bs := by
  rw [← mapM_seBits]
  constructor
  · intro h
    have hself := h.write_empty
    cases hbits : (l.written.mapM BitWriter.seBits).map List.flatten with
    | error e => simp [code, write, BitWriter.put, hbits] at hself
    | ok bs' => simpa [code, write, BitWriter.put, hbits] using hself
  · intro h w
    simp [code, write, BitWriter.put, h]

theorem mem_deltas {last : UInt32} {xs : List UInt32} {d : Int32} (h : d ∈ deltas last xs) :
    ∃ a b, d = delta a b := by
  induction xs generalizing last with
  | nil => simp [deltas] at h
  | cons x xs ih =>
      rw [deltas, List.mem_cons] at h
      rcases h with rfl | h
      · exact ⟨last, x, rfl⟩
      · exact ih h

theorem exists_writes_each {ds : List Int32} (h : ∀ d ∈ ds, ∃ a b, d = delta a b) :
    ∃ bs, (each se).Writes ds bs := by
  induction ds with
  | nil => exact ⟨[], writes_each_nil.2 rfl⟩
  | cons d ds ih =>
      obtain ⟨a, b, rfl⟩ := h _ List.mem_cons_self
      obtain ⟨b₁, hd⟩ := exists_writes_delta a b
      obtain ⟨b₂, hds⟩ := ih fun d hd => h d (List.mem_cons_of_mem _ hd)
      exact ⟨b₁ ++ b₂, hd.each_cons hds⟩

theorem mem_written {l : ScalingList n} {d : Int32} (h : d ∈ l.written) : ∃ a b, d = delta a b := by
  rw [written, List.mem_append] at h
  rcases h with h | h
  · exact mem_deltas h
  · split at h
    · simp at h
    · exact ⟨_, _, List.mem_singleton.1 h⟩

/-- Every list is written, also one that no stream can express. -/
theorem exists_writes (l : ScalingList n) : ∃ bs, code.Writes l bs := by
  obtain ⟨bs, h⟩ := exists_writes_each fun _ hd => mem_written (l := l) hd
  exact ⟨bs, writes_code.2 h⟩

theorem Unfolds.of_deltas {last : UInt32} {bs : List Bool} {ys : List UInt32}
    (h : (each se).Writes (tailDeltas last ys) bs) (hys : InRange ys) :
    Unfolds last ys.length bs ys := by
  induction ys generalizing last bs with
  | nil =>
      rw [writes_each_nil.1 h]
      exact .nil
  | cons x xs ih =>
      obtain ⟨hx, hxs⟩ := inRange_cons.1 hys
      rw [tailDeltas] at h
      by_cases hall : (x :: xs).all (· = last)
      · rw [if_pos hall, writes_each_cons] at h
        obtain ⟨b₁, b₂, rfl, hd, hnil⟩ := h
        rw [writes_each_nil.1 hnil, List.append_nil]
        have heq : x :: xs = List.replicate (xs.length + 1) last := by
          rw [List.eq_replicate_iff]
          refine ⟨rfl, fun y hy => ?_⟩
          simpa using List.all_eq_true.1 hall y hy
        rw [heq, List.length_replicate]
        exact .stop hd (next_delta (by decide))
      · rw [if_neg hall, writes_each_cons] at h
        obtain ⟨b₁, b₂, rfl, hd, hrest⟩ := h
        exact .cons_delta hx hd (ih hrest hxs)

/-! What is read of a list: it is cut at once, or it has entries of its own. -/

theorem reads_stop {l₀ : ScalingList n} {d : Int32} {bs : List Bool} (hn : 0 < n)
    (hd : se.Writes d bs) (hzero : next 8 d = 0) :
    code.Reads l₀ bs (defaultList l₀.present) := by
  obtain ⟨present, useDefault, entries, hlen⟩ := l₀
  intro position rest
  cases entries with
  | nil => exact absurd hlen (Nat.ne_of_lt hn)
  | cons x xs => simp [code, read, read_se hd, hzero]

theorem reads_cons {l₀ : ScalingList n} {d : Int32} {b₁ b₂ : List Bool} {ys : List UInt32}
    (hd : se.Writes d b₁) (hne : next 8 d ≠ 0) (hlen : (next 8 d :: ys).length = n)
    (hys : Unfolds (next 8 d) ys.length b₂ ys) :
    code.Reads l₀ (b₁ ++ b₂) ⟨l₀.present, false, next 8 d :: ys, hlen⟩ := by
  obtain ⟨present, useDefault, entries, hentries⟩ := l₀
  intro position rest
  cases entries with
  | nil => simp [← hentries] at hlen
  | cons x xs =>
      have hxs : xs.length = ys.length := by
        rw [← hentries] at hlen
        simpa using hlen.symm
      rw [List.append_assoc]
      simp [code, read, read_se hd, hne, hys.readEntries_eq hxs, Nat.add_assoc]

/-- The list as it is read back: a default list has the default entries. -/
def filled (l : ScalingList n) : ScalingList n :=
  if l.useDefault then defaultList l.present else l

theorem reads_filled {l l₀ : ScalingList n} {bs : List Bool} (hn : 0 < n)
    (hpresent : l₀.present = l.present) (hrange : l.useDefault = false → InRange l.entries)
    (h : code.Writes l bs) : code.Reads l₀ bs l.filled := by
  rw [writes_code] at h
  cases hdefault : l.useDefault with
  | true =>
      rw [written_default hdefault hn, writes_each_cons] at h
      obtain ⟨b₁, b₂, rfl, hd, hnil⟩ := h
      rw [writes_each_nil.1 hnil, List.append_nil, filled, if_pos hdefault, ← hpresent]
      exact reads_stop hn hd (next_delta (by decide))
  | false =>
      obtain ⟨present, useDefault, entries, hlen⟩ := l
      cases entries with
      | nil => exact absurd hlen (Nat.ne_of_lt hn)
      | cons x xs =>
          obtain ⟨hx, hxs⟩ := inRange_cons.1 (hrange hdefault)
          rw [written_explicit hdefault rfl, writes_each_cons] at h
          obtain ⟨b₁, b₂, rfl, hd, hrest⟩ := h
          have hnext : next 8 (delta 8 x) = x := next_delta hx.2
          have hunfolds := Unfolds.of_deltas hrest hxs
          rw [← hnext] at hunfolds
          have hreads : code.Reads l₀ _ _ :=
            reads_cons hd (next_delta_ne_zero hx) (by simpa using hlen) hunfolds
          change useDefault = false at hdefault
          change l₀.present = present at hpresent
          subst hdefault hpresent
          simpa [filled, hnext] using hreads

/-- What a list was read from: one difference that leads to zero, or a first entry and the others. -/
theorem read_cases {l l₀ : ScalingList n} {r r' : BitReader} (hn : 0 < n)
    (h : read l₀ r = (.ok (), l, r')) :
    ∃ d r₁, r.se = (.ok d, r₁) ∧
      (next 8 d = 0 ∧ l = defaultList l₀.present ∧ r' = r₁ ∨
        next 8 d ≠ 0 ∧ ∃ xs ys hlen, l = ⟨l₀.present, false, next 8 d :: ys, hlen⟩ ∧
          readEntries (next 8 d) xs r₁ = (.ok (), ys, r')) := by
  obtain ⟨present, useDefault, entries, hlen⟩ := l₀
  cases entries with
  | nil => exact absurd hlen (Nat.ne_of_lt hn)
  | cons x xs =>
      cases hse : r.se with
      | mk result r₁ =>
          cases result with
          | error e => simp [read, hse] at h
          | ok d =>
              refine ⟨d, r₁, rfl, ?_⟩
              by_cases hzero : next 8 d = 0
              · simp only [read, hse, hzero, if_true, Prod.mk.injEq, true_and] at h
                exact .inl ⟨hzero, h.1.symm, h.2.symm⟩
              · cases htail : readEntries (next 8 d) xs r₁ with
                | mk result p =>
                    simp only [read, hse, hzero, if_false, htail, Prod.mk.injEq] at h
                    obtain ⟨rfl, rfl, rfl⟩ := h
                    exact .inr ⟨hzero, xs, p.1, _, rfl, htail⟩

theorem read_eq_ok {l l₀ : ScalingList n} {r r' : BitReader} (h : read l₀ r = (.ok (), l, r')) :
    ∃ bs, r.rest = bs ++ r'.rest ∧ code.Reads l₀ bs l ∧ l.present = l₀.present ∧
      InRange l.entries ∧ l.filled = l := by
  rcases Nat.eq_zero_or_pos n with rfl | hn
  · obtain ⟨present, useDefault, entries, hlen⟩ := l₀
    obtain rfl : entries = [] := List.length_eq_zero_iff.1 hlen
    simp only [read, Prod.mk.injEq, true_and] at h
    obtain ⟨rfl, rfl⟩ := h
    refine ⟨[], rfl, ?_, rfl, List.forall_mem_nil _, ?_⟩
    · intro position rest
      rfl
    · cases useDefault <;> rfl
  · obtain ⟨d, r₁, hse, hcases⟩ := read_cases hn h
    obtain ⟨b₁, hr, hd⟩ := exists_writes_se hse
    rcases hcases with ⟨hzero, rfl, rfl⟩ | ⟨hne, xs, ys, hlen, rfl, htail⟩
    · exact ⟨b₁, hr, reads_stop hn hd hzero, rfl, inRange_replicate _ (by decide), rfl⟩
    · obtain ⟨b₂, hr₁, hys⟩ := exists_unfolds htail
      have hrange := hys.inRange (next_pos hne)
      rw [← hys.length_eq] at hys
      refine ⟨b₁ ++ b₂, ?_, reads_cons hd hne hlen hys, rfl,
        inRange_cons.2 ⟨next_pos hne, hrange⟩, rfl⟩
      rw [hr, hr₁, List.append_assoc]

instance : Lawful (code : Code (ScalingList n)) where
  exists_reads h := by
    obtain ⟨bs, hrest, hreads, -⟩ := read_eq_ok h
    exact ⟨bs, hrest, hreads⟩
  exists_writes {l _ _ _} _ := exists_writes l

theorem reads_code {l l₀ : ScalingList n} {bs : List Bool} (h : code.Reads l₀ bs l) :
    l.present = l₀.present ∧ InRange l.entries ∧ l.filled = l := by
  obtain ⟨bs, -, -, hlist⟩ := read_eq_ok h.read_self
  exact hlist

/-- A list with entries from 1 to 255 is written in differences of a byte, and these are read as the
list, whatever was there before. Of a default list only one difference is written. -/
theorem reads_written (hn : 0 < n) (l old : ScalingList n) :
    (l.useDefault = false → InRange l.entries →
      (∀ d ∈ l.written, -128 ≤ d.toInt ∧ d.toInt ≤ 127) ∧
        ∃ bs, (each se).Writes l.written bs ∧ code.Writes l bs ∧
          code.Reads old bs ⟨old.present, false, l.entries, l.length_entries⟩) ∧
    (l.useDefault = true →
      l.written = [-8] ∧ ∃ bs, se.Writes (-8) bs ∧ code.Writes l bs ∧
        code.Reads old bs (defaultList old.present)) := by
  obtain ⟨present, useDefault, entries, hlength⟩ := l
  -- Whether the list is there is no part of what is written.
  let renamed : ScalingList n := ⟨old.present, useDefault, entries, hlength⟩
  have hpresent : old.present = renamed.present := rfl
  obtain ⟨bs, hwrites⟩ := exists_writes renamed
  have hdeltas := writes_code.1 hwrites
  constructor
  · rintro rfl hrange
    refine ⟨fun d hd => ?_, bs, hdeltas, writes_code.2 hdeltas, ?_⟩
    · obtain ⟨a, b, rfl⟩ := mem_written hd
      exact delta_bounds a b
    · exact reads_filled hn hpresent (fun _ => hrange) hwrites
  · rintro rfl
    have hone : renamed.written = [-8] := written_default rfl hn
    refine ⟨hone, bs, ?_, writes_code.2 hdeltas, ?_⟩
    · rw [hone, writes_each_cons] at hdeltas
      obtain ⟨b₁, b₂, rfl, hd, hnil⟩ := hdeltas
      rwa [writes_each_nil.1 hnil, List.append_nil]
    · exact reads_filled hn hpresent (fun h => by cases h) hwrites

theorem reads_written_tail :
    ∃ (l m old : ScalingList 16) (b₁ b₂ : List Bool),
      l.written = [-3, -6, 2, -1] ∧ code.Writes l b₁ ∧ code.Reads old b₁ l ∧
        m.entries ≠ List.replicate 16 8 ∧ m.written = [-8] ∧ code.Writes m b₂ ∧
          code.Reads old b₂ (defaultList false) := by
  let l : ScalingList 16 := ⟨false, false, 5 :: 255 :: List.replicate 14 1, rfl⟩
  let m : ScalingList 16 := ⟨false, true, l.entries, rfl⟩
  let old : ScalingList 16 := ⟨false, true, List.replicate 16 77, rfl⟩
  obtain ⟨-, b₁, -, hwrites, hreads⟩ := (reads_written (by decide) l old).1 rfl (by decide)
  obtain ⟨hone, b₂, -, hdefault, hfilled⟩ := (reads_written (by decide) m old).2 rfl
  exact ⟨l, m, old, b₁, b₂, by decide, hwrites, hreads, by decide, hone, hdefault, hfilled⟩

end Codeword.ScalingList
