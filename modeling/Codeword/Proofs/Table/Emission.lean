import Codeword.Proofs.Table.Walk

namespace Codeword

/-! Tables that write at the end of one list. They write what they meet on a walk, up to the first
table that has no row for the word. -/

/-- A computation on the list of what has been written. A failure leaves the list as it is then. -/
abbrev Writing := ExceptT DecodeError (StateM (List Token))

def Writing.result (x : Writing Unit) : Except DecodeError (List Token) :=
  match x.run.run [] with
  | (.ok (), ts) => .ok ts
  | (.error e, _) => .error e

mutual

def Table.emit (s : Site) : Table → Writing Unit
  | ⟨name, rows⟩ => emitRow s name rows

def emitRow (s : Site) (name : String) : List Row → Writing Unit
  | [] => throw (.noMatchingRow name s.word)
  | ⟨value, mask, atoms⟩ :: rows =>
    if s.word &&& mask = value then emitAtoms s atoms else emitRow s name rows

def emitAtoms (s : Site) : List Atom → Writing Unit
  | [] => return
  | a :: as => do
    a.emit s
    emitAtoms s as

def Atom.emit (s : Site) : Atom → Writing Unit
  | .table t => t.emit s
  | a => do
    let ts ← a.tokens s
    modify (· ++ ts)

end

/-- How a walk is written, on a shared list and as a list of its own: up to its end, or up to the
first table that has no row for the word. -/
inductive Follows (s : Site) (w : List Atom) (x : Writing Unit) :
    Except DecodeError (List Token) → Prop
  | finished {ts : List Token} (found : AllFound s.word w)
      (written : atomTokens s (plainAtoms w) = .ok ts)
      (run : ∀ out, x.run.run out = (.ok (), out ++ ts)) : Follows s w x (.ok ts)
  | stopped (before after : List Atom) (u : Table) {ts : List Token}
      (split : w = before ++ .table u :: after) (found : AllFound s.word before)
      (missing : u.find s.word = none) (written : atomTokens s (plainAtoms before) = .ok ts)
      (run : ∀ out, x.run.run out = (.error (.noMatchingRow u.name s.word), out ++ ts)) :
      Follows s w x (.error (.noMatchingRow u.name s.word))

variable {s : Site} {t u : Table} {a : Atom} {as v w : List Atom} {x y : Writing Unit}
  {r q : Except DecodeError (List Token)}

theorem emitRow_eq (s : Site) (name : String) (rows : List Row) :
    emitRow s name rows =
      match rows.find? fun r => r.Matches s.word with
      | none => throw (.noMatchingRow name s.word)
      | some r => emitAtoms s r.atoms :=
  search_eq rfl (fun _ _ _ _ => rfl) rows

theorem Table.emit_eq (s : Site) (t : Table) :
    t.emit s = match t.rows.find? (·.Matches s.word) with
      | none => throw (.noMatchingRow t.name s.word)
      | some r => emitAtoms s r.atoms := by
  cases t
  exact emitRow_eq s _ _

theorem emitAtoms_singleton (s : Site) (a : Atom) : emitAtoms s [a] = a.emit s :=
  bind_pure _

theorem emitAtoms_append (s : Site) (as bs : List Atom) :
    emitAtoms s (as ++ bs) = (do emitAtoms s as; emitAtoms s bs) := by
  induction as with
  | nil => exact (pure_bind () fun _ => emitAtoms s bs).symm
  | cons a as ih =>
      rw [List.cons_append, emitAtoms, emitAtoms, ih, bind_assoc]

theorem Writing.run_bind_ok {out out' : List Token} (h : x.run.run out = (.ok (), out')) :
    (do x; y : Writing Unit).run.run out = y.run.run out' := by
  rw [ExceptT.run_bind, StateT.run_bind, h]
  rfl

theorem Writing.run_bind_error {e : DecodeError} {out out' : List Token}
    (h : x.run.run out = (.error e, out')) :
    (do x; y : Writing Unit).run.run out = (.error e, out') := by
  rw [ExceptT.run_bind, StateT.run_bind, h]
  rfl

namespace Follows

theorem nil (s : Site) : Follows s [] (return) (.ok []) := by
  refine .finished (allFound_nil s.word) rfl fun out => ?_
  rw [List.append_nil]
  rfl

theorem append (hx : Follows s v x r) (hy : Follows s w y q) :
    Follows s (v ++ w) (do x; y) (do return (← r) ++ (← q)) := by
  cases hx with
  | stopped before after u split found missing written run =>
      refine .stopped before (after ++ w) u ?_ found missing written fun out =>
        Writing.run_bind_error (run out)
      rw [split, List.append_assoc, List.cons_append]
  | finished found written run =>
      cases hy with
      | finished found' written' run' =>
          refine .finished (found.append found') ?_ fun out => ?_
          · rw [plainAtoms_append]
            exact atomTokens_append written written'
          · rw [Writing.run_bind_ok (run out), run', List.append_assoc]
      | stopped before after u split found' missing written' run' =>
          have hsplit : v ++ w = (v ++ before) ++ .table u :: after := by
            rw [split, List.append_assoc]
          have hwritten := atomTokens_append written written'
          rw [← plainAtoms_append] at hwritten
          refine .stopped _ after u hsplit (found.append found') missing hwritten fun out => ?_
          rw [Writing.run_bind_ok (run out), run', List.append_assoc]

theorem cons (hx : Follows s w x r) (hu : (u.find s.word).isSome) :
    Follows s (.table u :: w) x r := by
  have hfound {v : List Atom} (hv : AllFound s.word v) : AllFound s.word (.table u :: v) :=
    allFound_cons.2 ⟨fun _ heq => Atom.table.inj heq ▸ hu, hv⟩
  cases hx with
  | finished found written run => exact .finished (hfound found) written run
  | stopped before after v split found missing written run =>
      exact .stopped (.table u :: before) after v (congrArg _ split) (hfound found) missing written
        run

theorem result_eq (h : Follows s w x r) : x.result = r := by
  cases h with
  | finished found written run => rw [Writing.result, run, List.nil_append]
  | stopped before after u split found missing written run => rw [Writing.result, run]

theorem atom (htable : a.table? = none) :
    Follows s (a.walk s.word) (a.emit s) (a.tokens s) := by
  obtain ⟨x, hx⟩ := Atom.exists_token (s := s) htable
  have hemit : a.emit s = (do let ts ← a.tokens s; modify (· ++ ts)) := by
    cases a with
    | table t => simp [Atom.table?] at htable
    | _ => rfl
  rw [Atom.walk_of_table? htable, hemit, hx]
  refine .finished ?_ ?_ fun out => rfl
  · refine allFound_cons.2 ⟨fun u hu => ?_, allFound_nil s.word⟩
    simp [hu, Atom.table?] at htable
  · rw [plainAtoms_singleton htable, atomTokens_singleton, hx]

theorem atoms (h : ∀ a ∈ as, Follows s (a.walk s.word) (a.emit s) (a.tokens s)) :
    Follows s (walkAtoms s.word as) (emitAtoms s as) (atomTokens s as) := by
  induction as with
  | nil => exact .nil s
  | cons a as ih =>
      exact (h a List.mem_cons_self).append (ih fun b hb => h b (List.mem_cons_of_mem a hb))

end Follows

namespace Table

variable {ts : List Token} {z : Token}

theorem follows (s : Site) (t : Table) : Follows s (t.walk s.word) (t.emit s) (t.tokens s) := by
  induction t using induction with
  | step t ih =>
      rw [walk_eq, emit_eq, tokens_eq]
      cases hr : t.rows.find? (·.Matches s.word) with
      | none =>
          refine .stopped [] [] t rfl (allFound_nil s.word) (find_eq_none.2 hr) rfl fun out => ?_
          rw [List.append_nil]
          rfl
      | some r =>
          have hfound : (t.find s.word).isSome := by rw [isSome_find_eq, hr, Option.isSome_some]
          refine .cons (.atoms fun a ha => ?_) hfound
          cases htable : a.table? with
          | none => exact .atom htable
          | some u =>
              rw [Atom.eq_table_of_table? htable] at ha ⊢
              exact ih u (mem_references.2 ⟨r, List.mem_of_find?_eq_some hr, ha⟩)

/-- The tokens of a word are what is written on an empty list. -/
theorem tokens_eq_result (s : Site) (t : Table) : t.tokens s = (t.emit s).result :=
  (t.follows s).result_eq.symm

theorem exists_tokens
    (h : ∀ u, Relation.ReflTransGen (Enters s.word) t u → (u.find s.word).isSome) :
    ∃ ts, t.tokens s = .ok ts := by
  have hfollows := t.follows s
  generalize t.tokens s = r at hfollows ⊢
  cases hfollows with
  | finished => exact ⟨_, rfl⟩
  | stopped before after u split _ missing =>
      have hmem : .table u ∈ t.walk s.word := by simp [split]
      have hu := h u (table_mem_walk.1 hmem)
      simp [missing] at hu

theorem mem_tokens (h : t.tokens s = .ok ts) (hz : z ∈ ts) :
    ∃ u, Relation.ReflTransGen (Enters s.word) t u ∧
      ∃ r, u.rows.find? (·.Matches s.word) = some r ∧
        ∃ a ∈ r.atoms, a.table? = none ∧ a.tokens s = .ok [z] := by
  have hfollows := t.follows s
  rw [h] at hfollows
  cases hfollows with
  | finished _ written =>
      obtain ⟨a, ha, us, hus, hz⟩ := mem_atomTokens written hz
      obtain ⟨hwalk, htable⟩ := mem_plainAtoms.1 ha
      obtain ⟨y, hy⟩ := Atom.exists_token (s := s) htable
      obtain rfl : [y] = us := Except.ok.inj (hy.symm.trans hus)
      obtain rfl := List.mem_singleton.1 hz
      obtain ⟨u, hu, rfl | ⟨-, r, hr, ha⟩⟩ := cases_of_mem_walk hwalk
      · simp [Atom.table?] at htable
      · exact ⟨u, hu, r, hr, a, ha, htable, hy⟩

theorem error_of_tokens {e : DecodeError} (h : t.tokens s = .error e) :
    ∃ u, Relation.ReflTransGen (Enters s.word) t u ∧ u.find s.word = none ∧
      e = .noMatchingRow u.name s.word := by
  have hfollows := t.follows s
  rw [h] at hfollows
  cases hfollows with
  | stopped before after u split _ missing =>
      exact ⟨u, table_mem_walk.1 (by simp [split]), missing, rfl⟩

end Table

end Codeword
