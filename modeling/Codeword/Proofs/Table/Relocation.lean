import Codeword.Proofs.Operand.Fields
import Codeword.Proofs.Table.Coverage
import Codeword.Proofs.Table.Translation

namespace Codeword

variable {word address d : Word} {pinned after : Bool} {s : Site} {t : Table} {as : List Atom}
  {ts : List Token} {x : Token}

section tokens

def Token.moved (d : Word) : Token → Token
  | .operand (.target kind address name) => .operand (.target kind (address + d) name)
  | x => x

/-- The tokens after the code has been moved by `d`. Code addresses move along, but for one right
behind `abs`, which is pinned. The flag says this of the first token. -/
def relocate (d : Word) : (pinned : Bool) → List Token → List Token
  | _, [] => []
  | pinned, x :: xs => (if pinned then x else x.moved d) :: relocate d (x = .modifier "abs") xs

def pinnedAfter : (pinned : Bool) → List Token → Bool
  | pinned, [] => pinned
  | _, x :: xs => pinnedAfter (x = .modifier "abs") xs

theorem pinnedAfter_append (pinned : Bool) (xs ys : List Token) :
    pinnedAfter pinned (xs ++ ys) = pinnedAfter (pinnedAfter pinned xs) ys := by
  induction xs generalizing pinned with
  | nil => rfl
  | cons x xs ih => exact ih _

theorem relocate_append (d : Word) (pinned : Bool) (xs ys : List Token) :
    relocate d pinned (xs ++ ys) =
      relocate d pinned xs ++ relocate d (pinnedAfter pinned xs) ys := by
  induction xs generalizing pinned with
  | nil => rfl
  | cons x xs ih => rw [List.cons_append, relocate, ih, relocate, pinnedAfter, List.cons_append]

theorem relocate_eq_self (pinned : Bool) (h : ∀ x ∈ ts, x.moved d = x) :
    relocate d pinned ts = ts := by
  induction ts generalizing pinned with
  | nil => rfl
  | cons x xs ih =>
      have hx : (if pinned then x else x.moved d) = x := by
        rw [h x List.mem_cons_self, ite_self]
      rw [relocate, hx, ih _ fun y hy => h y (List.mem_cons_of_mem x hy)]

structure Relocated (d : Word) (pinned after : Bool)
    (r r' : Except DecodeError (List Token)) : Prop where
  eq_map : r' = r.map (relocate d pinned)
  pinnedAfter_eq : ∀ ts, r = .ok ts → pinnedAfter pinned ts = after

theorem relocated_token (d : Word) (pinned : Bool) (x : Token) :
    Relocated d pinned (x = .modifier "abs") (.ok [x]) (.ok [if pinned then x else x.moved d]) where
  eq_map := rfl
  pinnedAfter_eq ts h := by
    cases h
    rfl

theorem Relocated.append {between : Bool} {r r' u u' : Except DecodeError (List Token)}
    (hr : Relocated d pinned between r r') (hu : Relocated d between after u u') :
    Relocated d pinned after (do return (← r) ++ (← u)) (do return (← r') ++ (← u')) := by
  obtain ⟨rfl, hr⟩ := hr
  obtain ⟨rfl, hu⟩ := hu
  cases r with
  | error e => exact ⟨rfl, fun ts h => by cases h⟩
  | ok xs =>
      cases u with
      | error e => exact ⟨rfl, fun ts h => by cases h⟩
      | ok ys =>
          constructor
          · change Except.ok (relocate d pinned xs ++ relocate d between ys) =
              Except.ok (relocate d pinned (xs ++ ys))
            rw [relocate_append, hr xs rfl]
          · intro ts h
            cases h
            rw [pinnedAfter_append, hr xs rfl, hu ys rfl]

end tokens

theorem Field.extract_eq_of_not_relative {f : Field} (h : f.relative = false)
    (word a b : Word) : f.extract word a = f.extract word b := by
  rw [extract, extract, offset, offset, h]
  rfl

theorem Field.extract_add {f : Field} (h : f.relative = true) (word address d : Word) :
    f.extract word (address + d) = f.extract word address + d := by
  simp only [extract, offset, h, if_true, BitVec.add_assoc]

namespace Atom

def isFixed (a : Atom) : Bool := a.fields.all fun f => !f.relative

theorem tokens_of_isFixed {a : Atom} (h : a.isFixed = true) (htable : a.table? = none)
    (s : Site) (address : Word) : a.tokens { s with address } = a.tokens s := by
  refine tokens_eq_of_same (fun f hf => ?_) rfl htable
  have hrelative := List.all_eq_true.1 h f hf
  exact Field.extract_eq_of_not_relative (by simpa using hrelative) _ _ _

def pins : Atom → Bool
  | .modifier text => text = "abs"
  | _ => false

/-- Whether an address is relative unless it is pinned, and nothing else is. Before a table,
nothing may be pinned. -/
def relocates (pinned : Bool) : Atom → Bool
  | .target _ f => f.relative != pinned
  | .table _ => !pinned
  | a => a.isFixed

theorem relocated_of_isFixed {a : Atom} (h : a.isFixed = true) (htable : a.table? = none)
    (hx : a.tokens { word, address } = .ok [x]) (hmoved : x.moved d = x) :
    Relocated d pinned (x = .modifier "abs") (a.tokens { word, address })
      (a.tokens { word, address := address + d }) := by
  have hsame := tokens_of_isFixed h htable { word, address } (address + d)
  have hrelocated := relocated_token d pinned x
  rw [hmoved, ite_self] at hrelocated
  rw [hsame, hx]
  exact hrelocated

theorem relocated_target {kind : TargetKind} {f : Field} (h : f.relative = !pinned) :
    Relocated d pinned false ((target kind f).tokens { word, address })
      ((target kind f).tokens { word, address := address + d }) := by
  let x : Token := .operand (.target kind (f.extract word address) none)
  have hx : (target kind f).tokens { word, address := address + d } =
      .ok [if pinned then x else x.moved d] := by
    cases pinned with
    | false => rw [tokens, Field.extract_add h]; rfl
    | true => rw [tokens, Field.extract_eq_of_not_relative h _ _ address]; rfl
  rw [hx]
  exact relocated_token d pinned x

theorem relocated {a : Atom} (h : a.relocates pinned = true) (htable : a.table? = none) :
    Relocated d pinned a.pins (a.tokens { word, address })
      (a.tokens { word, address := address + d }) := by
  cases a with
  | table u => simp [table?] at htable
  | target kind f => exact relocated_target (Bool.eq_not.2 (bne_iff_ne.1 h))
  | modifier text =>
      have hpins : (Token.modifier text = .modifier "abs" : Bool) = (modifier text).pins := by
        simp [pins]
      rw [← hpins]
      exact relocated_of_isFixed h rfl rfl rfl
  | opcode | register | immediate | memory | vector | unrecognized =>
      exact relocated_of_isFixed h rfl rfl rfl

end Atom

def atomsRelocate : (pinned : Bool) → List Atom → Bool
  | pinned, [] => !pinned
  | pinned, a :: as => a.relocates pinned && atomsRelocate a.pins as

theorem atomTokens_relocated (h : atomsRelocate pinned as = true)
    (htables : ∀ u, Atom.table u ∈ as → Relocated d false false
      (u.tokens { word, address }) (u.tokens { word, address := address + d })) :
    Relocated d pinned false (atomTokens { word, address } as)
      (atomTokens { word, address := address + d } as) := by
  induction as generalizing pinned with
  | nil =>
      refine ⟨rfl, fun ts hts => ?_⟩
      cases hts
      simpa [atomsRelocate, pinnedAfter] using h
  | cons a as ih =>
      rw [atomsRelocate, Bool.and_eq_true] at h
      have hrest := ih h.2 fun u hu => htables u (List.mem_cons_of_mem a hu)
      rw [atomTokens, atomTokens]
      refine Relocated.append ?_ hrest
      cases htable : a.table? with
      | none => exact Atom.relocated h.1 htable
      | some u =>
          obtain rfl := Atom.eq_table_of_table? htable
          have hpinned : pinned = false := by simpa [Atom.relocates] using h.1
          subst pinned
          exact htables u List.mem_cons_self

namespace Table

def relocates (t : Table) : Bool := t.rows.all fun r => atomsRelocate false r.atoms

/-- Moving the code moves the addresses that are relative to it. -/
theorem tokens_relocated (h : t.every relocates = true) (word address d : Word) :
    Relocated d false false (t.tokens { word, address })
      (t.tokens { word, address := address + d }) := by
  induction t using Table.induction with
  | step t ih =>
      have ht := test_of_every h .refl
      rw [tokens_eq, tokens_eq]
      cases hr : t.rows.find? (·.Matches word) with
      | none => exact ⟨rfl, fun ts hts => by cases hts⟩
      | some r =>
          have hmem := List.mem_of_find?_eq_some hr
          refine atomTokens_relocated (List.all_eq_true.1 ht r hmem) fun u hu => ?_
          have hrefers : Refers t u := mem_references.2 ⟨r, hmem, hu⟩
          exact ih u hrefers (every_of_refers h hrefers)

end Table

section plain

def Atom.isPlain : Atom → Bool
  | .target _ _ => false
  | a => a.isFixed

theorem Atom.isFixed_of_isPlain {a : Atom} (h : a.isPlain = true) : a.isFixed = true := by
  cases a with
  | target kind f => cases h
  | _ => exact h

theorem Atom.moved_of_isPlain {a : Atom} (h : a.isPlain = true) (htable : a.table? = none)
    (hx : a.tokens s = .ok [x]) : x.moved d = x := by
  cases a with
  | target kind f => cases h
  | table u => simp [table?] at htable
  | opcode | modifier | register | immediate | memory | vector | unrecognized =>
      cases hx
      rfl

def Row.isPlain (r : Row) : Bool := r.atoms.all Atom.isPlain

namespace Table

def isPlain (t : Table) : Bool := t.rows.all Row.isPlain

theorem atom_isPlain {u : Table} {r : Row} {a : Atom} (h : t.every isPlain = true)
    (hu : Relation.ReflTransGen Refers t u) (hr : r ∈ u.rows) (ha : a ∈ r.atoms) :
    a.isPlain = true :=
  List.all_eq_true.1 (List.all_eq_true.1 (test_of_every h hu) r hr) a ha

theorem tokens_of_isPlain (h : t.every isPlain = true) (s : Site) (address : Word) :
    t.tokens { s with address } = t.tokens s := by
  let x : Translation s { s with address } := {}
  have houtcome (r : Except DecodeError (List Token)) : x.outcome r = r := by
    cases r with
    | error e => rfl
    | ok ts => exact congrArg Except.ok (List.map_id ts)
  have htokens : t.tokens { s with address } = x.outcome (t.tokens s) := by
    refine Translation.tokens_eq fun u hu => ⟨fun _ _ => Iff.rfl, fun r hr a ha htable => ?_⟩
    have hfixed := Atom.isFixed_of_isPlain (atom_isPlain h hu hr ha)
    rw [houtcome, Atom.tokens_of_isFixed hfixed htable]
  rw [htokens, houtcome]

theorem moved_of_isPlain (h : t.every isPlain = true) (hts : t.tokens s = .ok ts) (hx : x ∈ ts) :
    x.moved d = x := by
  obtain ⟨u, hu, r, hr, a, ha, htable, hx⟩ := mem_tokens hts hx
  have hrefers := Relation.ReflTransGen.mono (fun _ _ => Enters.refers) _ _ hu
  exact Atom.moved_of_isPlain
    (atom_isPlain h hrefers (List.mem_of_find?_eq_some hr) ha) htable hx

end Table

end plain

end Codeword
