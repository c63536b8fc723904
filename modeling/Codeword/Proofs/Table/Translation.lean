import Codeword.Proofs.Table.Emission
import Mathlib.Data.List.Find

namespace Codeword

/-- What becomes of the tokens and of the errors of one site at another. -/
structure Translation (s s' : Site) where
  token : Token → Token := id
  error : DecodeError → DecodeError := id
  error_noMatchingRow : ∀ name,
    error (.noMatchingRow name s.word) = .noMatchingRow name s'.word := by exact fun _ => rfl

namespace Translation

variable {s s' : Site} {t : Table} {as : List Atom}

def outcome (x : Translation s s') (r : Except DecodeError (List Token)) :
    Except DecodeError (List Token) :=
  (r.map (List.map x.token)).mapError x.error

/-- Both words are taken by the same rows, and what these write themselves is translated. -/
structure Fits (x : Translation s s') (t : Table) : Prop where
  matches_iff : ∀ r ∈ t.rows, (r.Matches s'.word ↔ r.Matches s.word)
  tokens_eq : ∀ r ∈ t.rows, ∀ a ∈ r.atoms, a.table? = none →
    a.tokens s' = x.outcome (a.tokens s)

theorem atomTokens_eq {x : Translation s s'}
    (h : ∀ a ∈ as, a.tokens s' = x.outcome (a.tokens s)) :
    atomTokens s' as = x.outcome (atomTokens s as) := by
  induction as with
  | nil => rfl
  | cons a as ih =>
      have hrest := ih fun b hb => h b (List.mem_cons_of_mem a hb)
      rw [atomTokens, atomTokens, h a List.mem_cons_self, hrest]
      cases a.tokens s with
      | error e => rfl
      | ok us =>
          cases atomTokens s as with
          | error e => rfl
          | ok vs =>
              change Except.ok (us.map x.token ++ vs.map x.token) =
                Except.ok ((us ++ vs).map x.token)
              rw [List.map_append]

/-- A table writes in both places the same, up to the translation, if every table does that it
leads to. -/
theorem tokens_eq {x : Translation s s'}
    (h : ∀ u, Relation.ReflTransGen Table.Refers t u → x.Fits u) :
    t.tokens s' = x.outcome (t.tokens s) := by
  induction t using Table.induction with
  | step t ih =>
      obtain ⟨hmatches, hatoms⟩ := h t .refl
      have hfind : t.rows.find? (·.Matches s'.word) = t.rows.find? (·.Matches s.word) :=
        List.find?_congr fun r hr => decide_eq_decide.2 (hmatches r hr)
      rw [Table.tokens_eq, Table.tokens_eq, hfind]
      cases hrow : t.rows.find? (·.Matches s.word) with
      | none => exact congrArg Except.error (x.error_noMatchingRow t.name).symm
      | some r =>
          have hr := List.mem_of_find?_eq_some hrow
          refine atomTokens_eq fun a ha => ?_
          cases htable : a.table? with
          | none => exact hatoms r hr a ha htable
          | some u =>
              rw [Atom.eq_table_of_table? htable] at ha ⊢
              have hu : Table.Refers t u := Table.mem_references.2 ⟨r, hr, ha⟩
              exact ih u hu fun v hv => h v (.head hu hv)

end Translation

end Codeword
