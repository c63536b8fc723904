import Codeword.Proofs.Operand.Fields
import Codeword.Proofs.Spelling.Characters
import Codeword.Proofs.Table.Coverage

namespace Codeword

variable {c : Char} {word address : Word}

structure Symbols.Avoids (c : Char) (s : Symbols) : Prop where
  constant : ∀ bank offset, ∀ name ∈ s.constant bank offset, c ∉ name.toList
  target : ∀ address kind, ∀ name ∈ s.target address kind, c ∉ name.toList

theorem Symbols.avoids_empty (c : Char) : Symbols.empty.Avoids c :=
  ⟨by simp [empty], by simp [empty]⟩

def Special.avoids (c : Char) : Special → Bool
  | named name => c ∉ name.toList
  | zero | one => true

def Register.avoids (c : Char) (r : Register) : Bool :=
  c ∉ r.file.toList && c ∉ r.suffix.toList && r.specials.all fun x => x.2.avoids c

def Atom.avoids (c : Char) : Atom → Bool
  | .opcode text | .modifier text => c ∉ text.toList
  | .register r => r.avoids c
  | .memory m =>
    m.space.all (fun name => c ∉ name.toList) && m.base.all (·.avoids c) &&
      m.index.all (·.avoids c)
  | .vector g => c ∉ g.file.toList
  | .immediate _ | .target _ _ | .table _ | .unrecognized => true

def Table.avoids (c : Char) (t : Table) : Bool :=
  t.rows.all fun r => r.atoms.all (·.avoids c)

theorem Special.avoids_value {x : Special} (h : x.avoids c = true) : x.value.Avoids c := by
  cases x with
  | named name =>
      rw [avoids, decide_eq_true_eq] at h
      exact h
  | zero | one => trivial

theorem Register.avoids_decode {r : Register} (h : r.avoids c = true) :
    (r.decode word address).Avoids c := by
  simp only [avoids, Bool.and_eq_true, decide_eq_true_eq, List.all_eq_true] at h
  obtain ⟨⟨hfile, hsuffix⟩, hspecials⟩ := h
  rcases r.decode_cases word address with ⟨-, hr⟩ | ⟨_, x, hx, hr⟩ | ⟨_, -, hr⟩ | ⟨_, -, -, hr⟩ <;>
    rw [hr]
  · exact hfile
  · exact Special.avoids_value (hspecials _ hx)
  · exact hfile
  · exact ⟨hfile, hsuffix⟩

theorem Atom.avoids_token {a : Atom} (h : a.avoids c = true) {s : Site} (hs : s.symbols.Avoids c)
    {x : Token} (hx : a.tokens s = .ok [x]) (htable : a.table? = none)
    (hknown : x ≠ .unrecognized) : x.Avoids c := by
  cases a with
  | opcode text | modifier text =>
      cases hx
      rw [avoids, decide_eq_true_eq] at h
      exact h
  | register r =>
      cases hx
      exact Register.avoids_decode h
  | immediate f =>
      cases hx
      trivial
  | memory m =>
      cases hx
      simp only [avoids, Bool.and_eq_true, Option.all_eq_true, decide_eq_true_eq] at h
      obtain ⟨⟨hspace, hbase⟩, hindex⟩ := h
      refine ⟨hspace, ?_, ?_, ?_⟩
      · intro r hr
        obtain ⟨q, hq, rfl⟩ := Option.map_eq_some_iff.1 hr
        exact Register.avoids_decode (hbase q hq)
      · intro r hr
        obtain ⟨q, hq, rfl⟩ := Option.map_eq_some_iff.1 hr
        exact Register.avoids_decode (hindex q hq)
      · intro name hname
        obtain ⟨bank, -, hname⟩ := Option.bind_eq_some_iff.1 hname
        exact hs.constant _ _ name hname
  | vector g =>
      cases hx
      rw [avoids, decide_eq_true_eq] at h
      exact h
  | target kind f =>
      cases hx
      exact hs.target _ _
  | table t => simp [table?] at htable
  | unrecognized =>
      cases hx
      exact absurd rfl hknown

/-- What a table writes has no character that its names do not have, nor those of the symbols,
as long as the encoding is known. -/
theorem Table.avoids_of_mem_tokens {t : Table} (h : t.every (avoids c) = true) {s : Site}
    (hs : s.symbols.Avoids c) {ts : List Token} (hts : t.tokens s = .ok ts) {x : Token}
    (hx : x ∈ ts) (hknown : x ≠ .unrecognized) : x.Avoids c := by
  obtain ⟨u, hu, r, hr, a, ha, htable, hax⟩ := mem_tokens hts hx
  have huavoids : u.avoids c = true := 
    test_of_every h (Relation.ReflTransGen.mono (fun _ _ => Enters.refers) _ _ hu)
  rw [avoids, List.all_eq_true] at huavoids
  have hatoms := huavoids r (List.mem_of_find?_eq_some hr)
  exact Atom.avoids_token (List.all_eq_true.1 hatoms a ha) hs hax htable hknown

end Codeword
