import Codeword.Proofs.Table.Emission

namespace Codeword.Table

structure Place where
  name : String
  above : List Row := []
  value : Word
  mask : Word
  left : List Atom := []
  right : List Atom := []
  below : List Row := []

def Place.fill (p : Place) (atoms : List Atom) : Table :=
  ⟨p.name, p.above ++ ⟨p.value, p.mask, p.left ++ atoms ++ p.right⟩ :: p.below⟩

/-- The second table is the first one but for one place, at any depth: there it has the atoms of the
row of another table that takes the word, and the first one has that table. -/
inductive Inlines (word : Word) : Table → Table → Prop
  | here (p : Place) (t : Table) (r : Row) (found : t.rows.find? (·.Matches word) = some r) :
      Inlines word (p.fill [.table t]) (p.fill r.atoms)
  | inside (p : Place) {t u : Table} (inlines : Inlines word t u) :
      Inlines word (p.fill [.table t]) (p.fill [.table u])

variable {s : Site} {word : Word} {t u : Table} {as bs : List Atom}

theorem refers_iff_exists_fill : Refers t u ↔ ∃ p : Place, t = p.fill [.table u] := by
  rw [Refers, mem_references]
  constructor
  · rintro ⟨r, hr, hu⟩
    obtain ⟨above, below, hrows⟩ := List.append_of_mem hr
    obtain ⟨left, right, hatoms⟩ := List.append_of_mem hu
    obtain ⟨value, mask, atoms⟩ := r
    obtain ⟨name, rows⟩ := t
    simp only at hrows hatoms
    refine ⟨⟨name, above, value, mask, left, right, below⟩, ?_⟩
    rw [hrows, hatoms, Place.fill, List.append_assoc, List.singleton_append]
  · rintro ⟨p, rfl⟩
    exact ⟨⟨p.value, p.mask, p.left ++ [.table u] ++ p.right⟩, by simp [Place.fill], by simp⟩

/-- Every use of a table that has a row for the word can be inlined, at any depth. -/
theorem exists_inlines {v : Table} (hv : Relation.TransGen Refers t v)
    (hfound : (v.find word).isSome) : ∃ u, Inlines word t u := by
  rw [isSome_find_eq, Option.isSome_iff_exists] at hfound
  obtain ⟨r, hr⟩ := hfound
  induction hv using Relation.TransGen.head_induction_on with
  | single h =>
      obtain ⟨p, rfl⟩ := refers_iff_exists_fill.1 h
      exact ⟨_, .here p v r hr⟩
  | head h _ ih =>
      obtain ⟨u, hu⟩ := ih
      obtain ⟨p, rfl⟩ := refers_iff_exists_fill.1 h
      exact ⟨_, .inside p hu⟩

theorem emit_fill_congr (p : Place) (h : emitAtoms s as = emitAtoms s bs) :
    (p.fill as).emit s = (p.fill bs).emit s := by
  obtain ⟨name, above, value, mask, left, right, below⟩ := p
  change emitRow s name _ = emitRow s name _
  induction above with
  | nil =>
      rw [List.nil_append, List.nil_append, emitRow, emitRow]
      simp only [emitAtoms_append, h]
  | cons r above ih =>
      obtain ⟨value', mask', atoms⟩ := r
      rw [List.cons_append, List.cons_append, emitRow, emitRow, ih]

theorem Inlines.emit_eq (h : Inlines s.word t u) : u.emit s = t.emit s := by
  induction h with
  | here p t r found =>
      refine emit_fill_congr p ?_
      rw [emitAtoms_singleton, Atom.emit, Table.emit_eq, found]
  | inside p _ ih =>
      refine emit_fill_congr p ?_
      rw [emitAtoms_singleton, emitAtoms_singleton]
      exact ih

theorem emit_eq_of_inlines (h : Relation.ReflTransGen (Inlines s.word) t u) :
    u.emit s = t.emit s := by
  induction h with
  | refl => rfl
  | tail _ hstep ih => rw [hstep.emit_eq, ih]

/-- Inlining tables for a word makes no difference to its tokens. They are those of the atoms of
the walk, unless some table on it has no row for the word. Then the first such table is the error,
and what was written before it, a mark of an unknown encoding or not, is no part of the outcome. -/
theorem tokens_inlined (s : Site) (t : Table) :
    (∀ u, Relation.ReflTransGen (Inlines s.word) t u → u.tokens s = t.tokens s) ∧
    ((AllFound s.word (t.walk s.word) ∧
      ∃ ts, atomTokens s (plainAtoms (t.walk s.word)) = .ok ts ∧ t.tokens s = .ok ts ∧
        ∀ out, (t.emit s).run.run out = (.ok (), out ++ ts)) ∨
    ∃ before u after, t.walk s.word = before ++ .table u :: after ∧ AllFound s.word before ∧
      u.find s.word = none ∧ t.tokens s = .error (.noMatchingRow u.name s.word) ∧
      ∃ ts, atomTokens s (plainAtoms before) = .ok ts ∧
        ∀ out, (t.emit s).run.run out = (.error (.noMatchingRow u.name s.word), out ++ ts)) := by
  constructor
  · intro u hu
    rw [tokens_eq_result, tokens_eq_result, emit_eq_of_inlines hu]
  · have h := t.follows s
    generalize t.tokens s = r at h ⊢
    cases h with
    | finished found written run => exact .inl ⟨found, _, written, rfl, run⟩
    | stopped before after u split found missing written run =>
        exact .inr ⟨before, u, after, split, found, missing, rfl, _, written, run⟩

def outer : Place where
  name := "outer"
  above := [⟨0, 1, []⟩]
  value := 1
  mask := 1
  left := [.unrecognized]
  right := [.table ⟨"last", [⟨0, 1, []⟩]⟩]

def middle : Place where
  name := "middle"
  value := 0
  mask := 4
  right := [.opcode "mid"]

def inner : Table := ⟨"inner", [⟨1, 3, [.modifier "in"]⟩, ⟨3, 3, [.opcode "other"]⟩]⟩

def layered : Table := outer.fill [.table (middle.fill [.table inner])]

def flattened : Table := outer.fill [.modifier "in", .opcode "mid"]

theorem layered_inlines : Relation.ReflTransGen (Inlines 1) layered flattened := by
  have hinner : Inlines 1 (middle.fill [.table inner]) (middle.fill [.modifier "in"]) :=
    .here middle inner ⟨1, 3, [.modifier "in"]⟩ rfl
  have hmiddle : Inlines 1 (outer.fill [.table (middle.fill [.modifier "in"])]) flattened :=
    .here outer (middle.fill [.modifier "in"]) ⟨0, 4, [.modifier "in", .opcode "mid"]⟩ rfl
  exact .tail (.single (.inside outer hinner)) hmiddle

theorem tokens_inlined_layered : Relation.ReflTransGen (Inlines 1) layered flattened ∧
    flattened.tokens { word := 1 } = layered.tokens { word := 1 } ∧
    layered.tokens { word := 1 } = .error (.noMatchingRow "last" 1) ∧
    (layered.emit { word := 1 }).run.run [] =
      (.error (.noMatchingRow "last" 1), [.unrecognized, .modifier "in", .opcode "mid"]) :=
  ⟨layered_inlines, (tokens_inlined _ layered).1 flattened layered_inlines, rfl, rfl⟩

end Codeword.Table
