import Codeword.Table.Basic

namespace Codeword

theorem Text.exists_digitChar_of_mem {b n : Nat} (hb : 1 < b) {c : Char}
    (h : c ∈ Nat.toDigits b n) :
    ∃ k, k < b ∧ c = k.digitChar := by
  induction n using Nat.strongRecOn with
  | _ n ih =>
      rw [Nat.toDigits_eq_if hb] at h
      split at h
      next hn => exact ⟨n, hn, List.mem_singleton.1 h⟩
      next hn =>
        rcases List.mem_append.1 h with h | h
        · exact ih (n / b) (Nat.div_lt_self (by omega) hb) h
        · exact ⟨n % b, Nat.mod_lt n (by omega), List.mem_singleton.1 h⟩

variable {c : Char}

/-! A character avoids an operand or a token if it is in none of the names there. -/

def RegisterValue.Avoids (c : Char) : RegisterValue → Prop
  | .numbered file _ suffix => c ∉ file.toList ∧ c ∉ suffix.toList
  | .named name | .fixed name => c ∉ name.toList
  | .unknownSpecial file _ => c ∉ file.toList
  | .zero | .one => True

structure MemoryValue.Avoids (c : Char) (m : MemoryValue) : Prop where
  space : ∀ name ∈ m.space, c ∉ name.toList
  base : ∀ r ∈ m.base, r.Avoids c
  index : ∀ r ∈ m.index, r.Avoids c
  symbol : ∀ name ∈ m.symbol, c ∉ name.toList

def Operand.Avoids (c : Char) : Operand → Prop
  | .register r => r.Avoids c
  | .immediate _ _ => True
  | .memory m => m.Avoids c
  | .vector file _ => c ∉ file.toList
  | .target _ _ name => ∀ n ∈ name, c ∉ n.toList

def Token.Avoids (c : Char) : Token → Prop
  | .opcode text | .modifier text => c ∉ text.toList
  | .operand o => o.Avoids c
  | .unrecognized => c ≠ '?'

namespace Spelling

variable {s : Spelling}

def signs : List Char := "0123456789abcdefABCDEFx+-[]\x7b\x7d# ".toList

theorem digitChar_mem_signs : ∀ k < 16, k.digitChar ∈ signs ∧ k.digitChar.toUpper ∈ signs := by
  decide

theorem not_mem_append {a b : String} (ha : c ∉ a.toList) (hb : c ∉ b.toList) :
    c ∉ (a ++ b).toList := by
  rw [String.toList_append, List.mem_append, not_or]
  exact ⟨ha, hb⟩

theorem not_mem_literal (hc : c ∉ signs) (text : String)
    (h : text.toList.all (· ∈ signs) = true := by decide) : c ∉ text.toList := by
  intro hmem
  apply hc
  simpa using List.all_eq_true.1 h c hmem

theorem not_mem_empty : c ∉ "".toList := by simp

theorem not_mem_toString (hc : c ∉ signs) (n : Nat) : c ∉ (toString n).toList := by
  intro h
  rw [Nat.toString_eq_repr, Nat.toList_repr] at h
  obtain ⟨k, hk, rfl⟩ := Text.exists_digitChar_of_mem (by decide) h
  exact hc (digitChar_mem_signs k (by omega)).1

theorem not_mem_hexDigits (hc : c ∉ signs) (upper : Bool) (n : Nat) :
    c ∉ Text.hexDigits upper n := by
  intro h
  cases upper with
  | false =>
      obtain ⟨k, hk, rfl⟩ := Text.exists_digitChar_of_mem (b := 16) (by decide) h
      exact hc (digitChar_mem_signs k hk).1
  | true =>
      obtain ⟨d, hd, rfl⟩ := List.mem_map.1 h
      obtain ⟨k, hk, rfl⟩ := Text.exists_digitChar_of_mem (b := 16) (by decide) hd
      exact hc (digitChar_mem_signs k hk).2

theorem not_mem_hex (hc : c ∉ signs) (n : Nat) : c ∉ (s.hex n).toList :=
  not_mem_append (not_mem_literal hc "0x") <| by
    rw [String.toList_ofList]
    exact not_mem_hexDigits hc _ n

theorem not_mem_signedHex (hc : c ∉ signs) (v : Int) : c ∉ (s.signedHex v).toList := by
  rw [signedHex]
  split
  · exact not_mem_append (not_mem_literal hc "-") (not_mem_hex hc _)
  · exact not_mem_hex hc _

theorem not_mem_immediate (hc : c ∉ signs) (v : Int) (forceHex : Bool) :
    c ∉ (s.immediate v forceHex).toList := by
  rw [immediate]
  split
  · rw [Int.toString_eq_repr]
    cases v with
    | ofNat n => exact not_mem_toString hc n
    | negSucc n => exact not_mem_append (not_mem_literal hc "-") (not_mem_toString hc _)
  · exact not_mem_signedHex hc v

theorem not_mem_register (hc : c ∉ signs) (hs : c ∉ s.sigil.toList) {r : RegisterValue}
    (hr : r.Avoids c) : c ∉ (s.register r).toList := by
  cases r with
  | numbered file index suffix =>
      have hindex := not_mem_append (not_mem_append hs hr.1) (not_mem_toString hc index)
      exact not_mem_append hindex hr.2
  | unknownSpecial file index =>
      exact not_mem_append (not_mem_append hs hr) (not_mem_toString hc index)
  | named name | fixed name => exact not_mem_append hs hr
  | zero => exact not_mem_literal hc "0"
  | one => exact not_mem_literal hc "1"

theorem not_mem_plus (hc : c ∉ signs) {left right : String} (hl : c ∉ left.toList)
    (hr : c ∉ right.toList) : c ∉ (plus left right).toList := by
  rw [plus]
  split
  · exact hr
  · exact not_mem_append (not_mem_append hl (not_mem_literal hc "+")) hr

theorem not_mem_registers (hc : c ∉ signs) (hs : c ∉ s.sigil.toList) (rs : List RegisterValue)
    (hrs : ∀ r ∈ rs, r.Avoids c) (start : String) (hstart : c ∉ start.toList) :
    c ∉ (rs.foldl (fun t r => plus t (s.register r)) start).toList := by
  induction rs generalizing start with
  | nil => exact hstart
  | cons r rs ih =>
      have hr := not_mem_register hc hs (hrs r (by simp))
      exact ih (fun q hq => hrs q (by simp [hq])) _ (not_mem_plus hc hstart hr)

theorem avoids_of_mem_addressRegisters {m : MemoryValue} (hm : m.Avoids c) :
    ∀ r ∈ addressRegisters m, r.Avoids c := by
  intro r hr
  simp only [addressRegisters, List.mem_filterMap, List.mem_cons, List.not_mem_nil, or_false] at hr
  obtain ⟨o, ho | ho, hr⟩ := hr
  · exact hm.base r (ho ▸ (Option.filter_eq_some_iff.1 hr).1)
  · exact hm.index r (ho ▸ (Option.filter_eq_some_iff.1 hr).1)

theorem not_mem_address (hc : c ∉ signs) (hs : c ∉ s.sigil.toList) {m : MemoryValue}
    (hm : m.Avoids c) : c ∉ (s.address m).toList := by
  have hregisters := not_mem_registers hc hs _ (avoids_of_mem_addressRegisters hm) "" not_mem_empty
  rw [address]
  split
  next name hname => exact not_mem_plus hc hregisters (hm.symbol name hname)
  next =>
    split
    · exact not_mem_append hregisters (not_mem_signedHex hc _)
    · split
      · exact hregisters
      · exact not_mem_plus hc hregisters (not_mem_hex hc _)

theorem not_mem_memory (hc : c ∉ signs) (hs : c ∉ s.sigil.toList) {m : MemoryValue}
    (hm : m.Avoids c) : c ∉ (s.memory m).toList := by
  have hspace : c ∉ (m.space.getD "").toList := by
    cases hm' : m.space with
    | none => exact not_mem_empty
    | some name => exact hm.space name hm'
  have hbank : c ∉ (m.bank.elim "" toString).toList := by
    cases m.bank with
    | none => exact not_mem_empty
    | some n => exact not_mem_toString hc n
  have hopen := not_mem_append (not_mem_append hspace hbank)
    (not_mem_literal hc "[")
  exact not_mem_append (not_mem_append hopen (not_mem_address hc hs hm))
    (not_mem_literal hc "]")

theorem not_mem_slot (hc : c ∉ signs) (hs : c ∉ s.sigil.toList) {file : String}
    (hfile : c ∉ file.toList) (x : Option Nat) : c ∉ (s.slot file x).toList := by
  cases x with
  | none => exact not_mem_literal hc "#"
  | some n => exact not_mem_append (not_mem_append hs hfile) (not_mem_toString hc n)

theorem not_mem_vector (hc : c ∉ signs) (hs : c ∉ s.sigil.toList) {file : String}
    (hfile : c ∉ file.toList) (slots : List (Option Nat)) : c ∉ (s.vector file slots).toList := by
  have hslots : c ∉ (String.join (slots.map fun x => " " ++ s.slot file x)).toList := by
    induction slots with
    | nil => simp
    | cons x slots ih =>
        rw [List.map_cons, String.join_cons]
        have hblank := not_mem_literal hc " "
        exact not_mem_append (not_mem_append hblank (not_mem_slot hc hs hfile x)) ih
  exact not_mem_append (not_mem_append (not_mem_literal hc "\x7b") hslots)
    (not_mem_literal hc " \x7d")

theorem not_mem_operand (hc : c ∉ signs) (hs : c ∉ s.sigil.toList) {o : Operand}
    (ho : o.Avoids c) : c ∉ (s.operand o).toList := by
  cases o with
  | register r => exact not_mem_register hc hs ho
  | immediate v forceHex => exact not_mem_immediate hc v forceHex
  | memory m => exact not_mem_memory hc hs ho
  | vector file slots => exact not_mem_vector hc hs ho slots
  | target kind a name =>
      cases name with
      | none => exact not_mem_hex hc _
      | some n => exact ho n rfl

theorem not_mem_token (hc : c ∉ signs) (hs : c ∉ s.sigil.toList) {t : Token}
    (ht : t.Avoids c) : c ∉ (s.token t).toList := by
  cases t with
  | opcode text | modifier text => exact ht
  | operand o => exact not_mem_operand hc hs ht
  | unrecognized =>
      have hmark : "???".toList = List.replicate 3 '?' := by decide
      intro h
      change c ∈ "???".toList at h
      rw [hmark] at h
      exact ht (List.eq_of_mem_replicate h)

theorem not_mem_tokens (hc : c ∉ signs) (hs : c ∉ s.sigil.toList) {ts : List Token}
    (hts : ∀ t ∈ ts, t.Avoids c) : c ∉ (s.tokens ts).toList := by
  rw [tokens]
  induction ts with
  | nil => simp
  | cons t ts ih =>
      have ht := not_mem_token hc hs (hts t (by simp))
      have hrest := ih fun u hu => hts u (by simp [hu])
      cases ts with
      | nil => simpa using ht
      | cons u us =>
          rw [List.map_cons, List.map_cons, String.intercalate_cons_cons]
          have hblank := not_mem_literal hc " "
          exact not_mem_append (not_mem_append ht hblank) hrest

theorem isInfix_tokens {ts : List Token} {t : Token} (h : t ∈ ts) :
    (s.token t).toList <:+: (s.tokens ts).toList := by
  rw [tokens]
  induction ts with
  | nil => simp at h
  | cons u us ih =>
      cases us with
      | nil => simp_all
      | cons v vs =>
          rw [List.map_cons, List.map_cons, String.intercalate_cons_cons, String.toList_append,
            String.toList_append]
          rcases List.mem_cons.1 h with rfl | h
          · rw [List.append_assoc]
            exact (List.prefix_append _ _).isInfix
          · exact (ih h).trans (List.suffix_append _ _).isInfix

end Spelling

end Codeword
