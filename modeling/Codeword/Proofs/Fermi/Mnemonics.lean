import Codeword.Proofs.Fermi.Decoding
import Codeword.Proofs.Table.Writing

namespace Codeword

theorem Instruction.mnemonic_eq_some {i : Instruction} {name : String} :
    i.mnemonic = some name ↔ ∃ before after, i.tokens = before ++ .opcode name :: after ∧
      ∀ other, .opcode other ∉ before := by
  rw [mnemonic, List.findSome?_eq_some_iff]
  constructor
  · rintro ⟨before, x, after, htokens, hx, hbefore⟩
    split at hx <;> cases hx
    refine ⟨before, after, htokens, fun other hother => ?_⟩
    cases hbefore _ hother
  · rintro ⟨before, after, htokens, hbefore⟩
    refine ⟨before, _, after, htokens, rfl, fun x hx => ?_⟩
    cases x with
    | opcode other => exact absurd hx (hbefore other)
    | modifier | operand | unrecognized => rfl

theorem Instruction.mem_of_mnemonic {i : Instruction} {name : String}
    (h : i.mnemonic = some name) : .opcode name ∈ i.tokens := by
  obtain ⟨before, after, htokens, -⟩ := mnemonic_eq_some.1 h
  exact htokens ▸ List.mem_append_right before List.mem_cons_self

theorem Instruction.exists_mnemonic_of_mem {i : Instruction} {name : String}
    (h : .opcode name ∈ i.tokens) : ∃ first, i.mnemonic = some first := by
  cases hfirst : i.mnemonic with
  | some first => exact ⟨first, rfl⟩
  | none =>
      rw [mnemonic, List.findSome?_eq_none_iff] at hfirst
      cases hfirst _ h

def Atom.isName : Atom → Bool
  | .opcode _ | .unrecognized => true
  | _ => false

theorem Writes.name {s : Site} {x : Token} (h : Writes Atom.isName s x) :
    x = .unrecognized ∨ ∃ name, x = .opcode name := by
  obtain ⟨a, htest, -, hx⟩ := h
  cases a with
  | opcode name =>
      cases hx
      exact .inr ⟨name, rfl⟩
  | unrecognized =>
      cases hx
      exact .inl rfl
  | modifier | register | immediate | memory | vector | target | table => cases htest

namespace Fermi

variable {s : Site} {ts : List Token}

theorem root_always_isName : root.always Atom.isName = true := by decide +kernel

theorem exists_opcode (h : root.tokens s = .ok ts) (hknown : .unrecognized ∉ ts) :
    ∃ name, .opcode name ∈ ts := by
  obtain ⟨x, hx, hwrites⟩ := Table.exists_token_of_always root_always_isName h
  rcases hwrites.name with rfl | ⟨name, rfl⟩
  · exact absurd hx hknown
  · exact ⟨name, hx⟩

/-- Whatever is decoded has a mnemonic, whichever table supplies it. -/
theorem exists_mnemonic (symbols : Symbols) (word address : Word) (i : Instruction)
    (h : ({ isa, symbols } : Decoder).decode word address = .ok i) :
    ∃ name, i.mnemonic = some name ∧ .opcode name ∈ i.tokens := by
  obtain ⟨ts, hts, hknown, rfl⟩ := Decoder.decode_eq_ok.1 h
  obtain ⟨name, hname⟩ := exists_opcode hts hknown
  obtain ⟨first, hfirst⟩ := Instruction.exists_mnemonic_of_mem (i := ⟨address, word, ts⟩) hname
  obtain ⟨before, after, htokens, -⟩ := Instruction.mnemonic_eq_some.1 hfirst
  exact ⟨first, hfirst, htokens ▸ List.mem_append_right before List.mem_cons_self⟩

theorem exists_mnemonic_min :
    ∃ i, decoder.decode 0x080e000000001c00 0 = .ok i ∧ i.mnemonic = some "min" ∧
      ∃ name, i.mnemonic = some name ∧ .opcode name ∈ i.tokens := by
  have hdecode : ∃ i, decoder.decode 0x080e000000001c00 0 = .ok i ∧ i.mnemonic = some "min" :=
    ⟨_, rfl, by decide⟩
  obtain ⟨i, hi, hmin⟩ := hdecode
  exact ⟨i, hi, hmin, exists_mnemonic .empty _ 0 i hi⟩

end Fermi

end Codeword
