import Codeword.Proofs.Table.Writing
import Codeword.Proofs.Word

namespace Codeword

/-! An outline is one way through the tables: what is known of a word that takes it, and the marks
that a view of the atoms leaves of what they write. Ways that end in an unknown encoding are left
out. -/

/-- Words of which the bits under the mask are known. -/
structure Known where
  mask : Word
  value : Word
  deriving DecidableEq

structure Outline (β : Type) where
  known : Known
  marks : List β

namespace Known

def nothing : Known := ⟨0, 0⟩

def Holds (k : Known) (word : Word) : Prop := word &&& k.mask = k.value

/-- What is known in a row, unless it is known that the row does not take the word. -/
def within (k : Known) (value mask : Word) : Option Known :=
  if k.value &&& mask = value &&& k.mask then some ⟨k.mask ||| mask, k.value ||| value⟩ else none

variable {k : Known} {word value mask : Word}

theorem holds_nothing (word : Word) : nothing.Holds word := BitVec.and_zero

theorem exists_within (hk : k.Holds word) (hrow : word &&& mask = value) :
    ∃ k', k.within value mask = some k' ∧ k'.Holds word := by
  have hboth : k.value &&& mask = value &&& k.mask := by
    rw [← hk, ← hrow, BitVec.and_assoc, BitVec.and_assoc, BitVec.and_comm k.mask]
  refine ⟨_, if_pos hboth, ?_⟩
  rw [Holds, BitVec.and_or_distrib_left, hk, hrow]

theorem agreeOn {bits : Word} (hk : k.Holds word) (hbits : bits &&& k.mask = bits) :
    Word.AgreeOn bits word k.value := by
  rw [Word.AgreeOn, ← hk, BitVec.and_assoc, BitVec.and_comm k.mask, hbits]

end Known

variable {β : Type}

mutual

def Table.outlines (view : Atom → Option β) (k : Known) : Table → List (Outline β)
  | ⟨_, rows⟩ => rowsOutlines view k rows

def rowsOutlines (view : Atom → Option β) (k : Known) : List Row → List (Outline β)
  | [] => []
  | ⟨value, mask, atoms⟩ :: rows =>
    (k.within value mask).elim [] (atomsOutlines view · atoms) ++ rowsOutlines view k rows

def atomsOutlines (view : Atom → Option β) (k : Known) : List Atom → List (Outline β)
  | [] => [⟨k, []⟩]
  | a :: as =>
    (a.outlines view k).flatMap fun o =>
      (atomsOutlines view o.known as).map fun p => ⟨p.known, o.marks ++ p.marks⟩

def Atom.outlines (view : Atom → Option β) (k : Known) : Atom → List (Outline β)
  | .table t =>
    if t.every (Table.excludes fun a => (view a).isSome) then [⟨k, []⟩] else t.outlines view k
  | .unrecognized => []
  | a => [⟨k, (view a).toList⟩]

end

/-- The atom writes what is read the way the atom is viewed. -/
def Atom.Shows (view : Atom → Option β) (read : Token → Option β) (s : Site) (a : Atom) : Prop :=
  ∀ x, a.tokens s = .ok [x] → read x = view a

def Table.Shows (view : Atom → Option β) (read : Token → Option β) (s : Site) (t : Table) : Prop :=
  ∀ u, Relation.ReflTransGen Table.Refers t u → ∀ r ∈ u.rows, ∀ a ∈ r.atoms, a.table? = none →
    a.Shows view read s

/-- The word takes this way, and its tokens leave these marks. -/
structure Outline.Describes (o : Outline β) (read : Token → Option β) (s : Site)
    (ts : List Token) : Prop where
  known : o.known.Holds s.word
  marks : ts.filterMap read = o.marks

variable {view : Atom → Option β} {read : Token → Option β} {s : Site} {k : Known} {t : Table}
  {as : List Atom} {ts : List Token}

theorem mem_rowsOutlines {rows : List Row} {r : Row} {k' : Known} {o : Outline β} (hr : r ∈ rows)
    (hk' : k.within r.value r.mask = some k') (ho : o ∈ atomsOutlines view k' r.atoms) :
    o ∈ rowsOutlines view k rows := by
  induction rows with
  | nil => simp at hr
  | cons q rows ih =>
      obtain ⟨value, mask, atoms⟩ := q
      rw [rowsOutlines, List.mem_append]
      rcases List.mem_cons.1 hr with rfl | hr
      · left
        rw [hk']
        exact ho
      · exact .inr (ih hr)

theorem exists_atomsOutline
    (hatom : ∀ a ∈ as, ∀ k us, k.Holds s.word → a.tokens s = .ok us → .unrecognized ∉ us →
      ∃ o ∈ a.outlines view k, o.Describes read s us)
    (hk : k.Holds s.word) (hts : atomTokens s as = .ok ts) (hknown : .unrecognized ∉ ts) :
    ∃ o ∈ atomsOutlines view k as, o.Describes read s ts := by
  induction as generalizing k ts with
  | nil =>
      cases hts
      exact ⟨⟨k, []⟩, List.mem_singleton_self _, hk, rfl⟩
  | cons a as ih =>
      obtain ⟨us, vs, hus, hvs, rfl⟩ := atomTokens_cons_eq_ok.1 hts
      rw [List.mem_append, not_or] at hknown
      obtain ⟨o, ho, hofirst⟩ := hatom a List.mem_cons_self k us hk hus hknown.1
      obtain ⟨p, hp, hprest⟩ := ih (fun b hb => hatom b (List.mem_cons_of_mem a hb))
        hofirst.known hvs hknown.2
      refine ⟨⟨p.known, o.marks ++ p.marks⟩, ?_, hprest.known, ?_⟩
      · rw [atomsOutlines]
        exact List.mem_flatMap.2 ⟨o, ho, List.mem_map.2 ⟨p, hp, rfl⟩⟩
      · rw [List.filterMap_append, hofirst.marks, hprest.marks]

theorem exists_atomOutline {a : Atom} (htable : a.table? = none) (hshows : a.Shows view read s)
    (hk : k.Holds s.word) (hts : a.tokens s = .ok ts) (hknown : .unrecognized ∉ ts) :
    ∃ o ∈ a.outlines view k, o.Describes read s ts := by
  obtain ⟨x, hx⟩ := Atom.exists_token (s := s) htable
  obtain rfl : [x] = ts := Except.ok.inj (hx.symm.trans hts)
  have hread := hshows x hx
  have hmarks : [x].filterMap read = (view a).toList := by
    rw [List.filterMap_cons, hread]
    cases view a <;> rfl
  have hmem : ⟨k, (view a).toList⟩ ∈ a.outlines view k := by
    cases a with
    | table t => simp [Atom.table?] at htable
    | unrecognized =>
        cases hx
        simp at hknown
    | _ => exact List.mem_singleton_self _
  exact ⟨_, hmem, hk, hmarks⟩

namespace Table

/-- A view is true of a table if it is true of all atoms but some that the table does not have. -/
theorem shows_of_every_excludes {odd : Atom → Bool} (h : t.every (excludes odd) = true)
    (hodd : ∀ a, odd a = false → a.table? = none → a.Shows view read s) : t.Shows view read s := by
  intro u hu r hr a ha htable
  have hexcludes : u.excludes odd = true := test_of_every h hu
  rw [excludes, List.all_eq_true] at hexcludes
  have hnot := List.all_eq_true.1 (hexcludes r hr) a ha
  exact hodd a (by simpa using hnot) htable

theorem filterMap_of_every_excludes (hshows : t.Shows view read s)
    (h : t.every (excludes fun a => (view a).isSome) = true) (hts : t.tokens s = .ok ts) :
    ts.filterMap read = [] := by
  rw [List.filterMap_eq_nil_iff]
  intro x hx
  obtain ⟨u, hu, r, hr, a, ha, htable, hax⟩ := mem_tokens hts hx
  have hu := Relation.ReflTransGen.mono (fun _ _ => Enters.refers) _ _ hu
  have hr := List.mem_of_find?_eq_some hr
  have hexcludes : u.excludes (fun a => (view a).isSome) = true := test_of_every h hu
  rw [excludes, List.all_eq_true] at hexcludes
  have hview := List.all_eq_true.1 (hexcludes r hr) a ha
  rw [hshows u hu r hr a ha htable x hax]
  simpa using hview

/-- Every word that is known takes one of the ways through a table. -/
theorem exists_outline (hshows : t.Shows view read s)
    (hk : k.Holds s.word) (hts : t.tokens s = .ok ts) (hknown : .unrecognized ∉ ts) :
    ∃ o ∈ t.outlines view k, o.Describes read s ts := by
  induction t using induction generalizing k ts with
  | step t ih =>
      obtain ⟨r, hr, hmatch, hatoms⟩ := exists_row_of_tokens hts
      obtain ⟨k', hk', hholds⟩ := Known.exists_within hk hmatch
      have hrow : ∃ o ∈ atomsOutlines view k' r.atoms, o.Describes read s ts := by
        refine exists_atomsOutline (fun a ha k us hk hus hknown => ?_) hholds hatoms hknown
        cases htable : a.table? with
        | none => exact exists_atomOutline htable (hshows t .refl r hr a ha htable) hk hus hknown
        | some u =>
            obtain rfl := Atom.eq_table_of_table? htable
            have hu : Refers t u := mem_references.2 ⟨r, hr, ha⟩
            have hshows' : u.Shows view read s := fun v hv => hshows v (.head hu hv)
            rw [Atom.outlines]
            split
            next hevery =>
              refine ⟨⟨k, []⟩, List.mem_singleton_self _, hk, ?_⟩
              exact filterMap_of_every_excludes hshows' hevery hus
            next => exact ih u hu hshows' hk hus hknown
      obtain ⟨o, ho, hdescribes⟩ := hrow
      obtain ⟨name, rows⟩ := t
      exact ⟨o, mem_rowsOutlines hr hk' ho, hdescribes⟩

end Table

end Codeword
