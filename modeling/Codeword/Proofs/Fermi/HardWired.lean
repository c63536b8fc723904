import Codeword.Proofs.Fermi.DualLoad

namespace Codeword

/-- The registers of an operand, apart from groups. -/
def Token.registers : Token → List RegisterValue
  | .operand (.register r) => [r]
  | .operand (.memory m) => m.base.toList ++ m.index.toList
  | _ => []

/-- An ordinary name for the general register that reads as zero, or for the predicate that is
always true. -/
def RegisterValue.isHardWired : RegisterValue → Bool
  | .numbered file index suffix =>
    file = "r" && index = 63 && suffix = "" || file = "p" && index = 7
  | _ => false

namespace Register

def isBare (r : Register) : Bool :=
  r.file = "r" && r.suffix = "" && (r.specials.lookup 63).isNone ||
    r.file = "p" && (r.specials.lookup 7).isNone

variable {r : Register} {word address : Word}

theorem isBare_of_isHardWired (h : (r.decode word address).isHardWired = true) :
    r.isBare = true := by
  rcases r.decode_cases word address with
    ⟨-, hr⟩ | ⟨_, x, -, hr⟩ | ⟨_, -, hr⟩ | ⟨index, -, hnone, hr⟩ <;> rw [hr] at h
  · cases h
  · cases x <;> cases h
  · cases h
  · simp only [RegisterValue.isHardWired, Bool.or_eq_true, Bool.and_eq_true,
      decide_eq_true_eq] at h
    rcases h with ⟨⟨hfile, rfl⟩, hsuffix⟩ | ⟨hfile, rfl⟩
    · simp [isBare, hfile, hsuffix, hnone]
    · simp [isBare, hfile, hnone]

end Register

def Atom.isBare : Atom → Bool
  | .register r => r.isBare
  | .memory m => (m.base.toList ++ m.index.toList).any Register.isBare
  | _ => false

theorem detects_isBare {x : Token} {r : RegisterValue} (hr : r ∈ x.registers)
    (h : r.isHardWired = true) (s : Site) : Detects Atom.isBare s x := by
  intro a htable ha
  cases a with
  | register q =>
      cases ha
      rw [Token.registers, List.mem_singleton] at hr
      subst hr
      exact Register.isBare_of_isHardWired h
  | memory m =>
      cases ha
      have hmap : r ∈ (m.base.toList ++ m.index.toList).map (·.decode s.word s.address) := by
        rw [List.map_append, ← Option.toList_map, ← Option.toList_map]
        exact hr
      obtain ⟨q, hq, rfl⟩ := List.mem_map.1 hmap
      exact List.any_eq_true.2 ⟨q, hq, Register.isBare_of_isHardWired h⟩
  | table t => cases htable
  | opcode | modifier | immediate | vector | target | unrecognized =>
      cases ha
      cases hr

namespace Fermi

section Rows

variable {s : Site} {ts : List Token} {x : Token} {r : RegisterValue} {source : Table}

theorem control_excludes_isBare : control.every (Table.excludes Atom.isBare) = true := by
  decide +kernel

theorem ops_writers_isBare : ops.writers Atom.isBare = [5] := by decide +kernel

theorem memory_writers_isBare : memory.writers Atom.isBare = [17, 18] := by decide +kernel

/-- A guard leaves out the predicate that is always true. -/
theorem isHardWired_of_mem_guard {join : Bool} {g : BitVec 4}
    (hx : x ∈ joinTokens join ++ guardTokens g) (hr : r ∈ x.registers) :
    r.isHardWired = false := by
  grind [joinTokens, guardTokens, Token.registers, RegisterValue.isHardWired]

/-- Of a dual load only the destination of `ld` may be a hard-wired register. -/
theorem eq_of_isHardWired (hsource : Atom.may Atom.isBare source = false)
    (hts : atomTokens s (dualAtoms source) = .ok ts) (hx : x ∈ ts) (hr : r ∈ x.registers)
    (h : r.isHardWired = true) :
    r = .numbered "r" (s.word.extractLsb' 0x20 6).toNat (loadType (dualCode s.word)).suffix := by
  obtain ⟨a, ha, us, hus, hx⟩ := mem_atomTokens hts hx
  have hmay := Atom.may_of_mem (detects_isBare hr h s) hus hx
  simp only [dualAtoms, List.mem_cons, List.not_mem_nil, or_false] at ha
  rcases ha with rfl | rfl | rfl | rfl | rfl | rfl
  · cases hmay
  · cases (loadDestination_tokens s).symm.trans hus
    rcases List.mem_pair.1 hx with rfl | rfl
    · cases hr
    · exact List.mem_singleton.1 hr
  · rw [hsource] at hmay
    cases hmay
  · cases hmay
  · exact absurd hmay (by decide +kernel)
  · exact absurd hmay (by decide +kernel)

theorem suffix_loadType_eq (code : Nat) : (loadType code).suffix = "" ↔ code < 27 := by
  rw [loadType]
  split_ifs <;> simp [AccessType.suffix] <;> omega

/-- The destination of `ld` has 32 bits and is the last register. -/
def LoadsLast (word : Word) : Prop := dualCode word < 27 ∧ word.extractLsb' 0x20 6 = 63

instance (word : Word) : Decidable (LoadsLast word) := inferInstanceAs (Decidable (_ ∧ _))

theorem isHardWired_loaded (word : Word) :
    RegisterValue.isHardWired (.numbered "r" (word.extractLsb' 0x20 6).toNat
      (loadType (dualCode word)).suffix) = true ↔ LoadsLast word := by
  rw [LoadsLast, ← suffix_loadType_eq, BitVec.toNat_eq]
  simp [RegisterValue.isHardWired, and_comm]

theorem loadsLast_of_isHardWired (hts : memory.tokens s = .ok ts) (hx : x ∈ ts)
    (hr : r ∈ x.registers) (h : r.isHardWired = true) :
    .opcode "ld" ∈ ts ∧ .opcode "ldu" ∈ ts ∧ LoadsLast s.word := by
  obtain ⟨n, hn, row, hrow, -, hatoms⟩ := Table.exists_writer (detects_isBare hr h s) hts hx
  rw [memory_writers_isBare] at hn
  obtain ⟨source, hsource, hdual⟩ : ∃ source : Table, Atom.may Atom.isBare source = false ∧
      atomTokens s (dualAtoms source) = .ok ts := by
    fin_cases hn <;> cases hrow
    · exact ⟨loadSharedSource, by decide +kernel, hatoms⟩
    · exact ⟨loadGlobalSource, by decide +kernel, hatoms⟩
  have hopcode (name : String) (hname : .opcode name ∈ dualAtoms source) :
      .opcode name ∈ ts := by
    obtain ⟨us, hus, hsub⟩ := subset_of_atomTokens hdual hname
    cases hus
    exact hsub (List.mem_singleton_self _)
  rw [eq_of_isHardWired hsource hdual hx hr h, isHardWired_loaded] at h
  exact ⟨hopcode "ld" (by simp [dualAtoms]), hopcode "ldu" (by simp [dualAtoms]), h⟩

theorem exists_isHardWired (hts : memory.tokens s = .ok ts) (hload : .opcode "ld" ∈ ts)
    (huniform : .opcode "ldu" ∈ ts) (h : LoadsLast s.word) :
    ∃ x ∈ ts, ∃ r ∈ x.registers, r.isHardWired = true := by
  have hdestination : ∃ us, loadDestination.tokens s = .ok us ∧ us ⊆ ts := by
    rcases exists_dualAtoms hts hload huniform with hatoms | hatoms <;>
      exact subset_of_atomTokens hatoms (a := .table loadDestination) (by simp [dualAtoms])
  obtain ⟨us, hus, hsub⟩ := hdestination
  cases (loadDestination_tokens s).symm.trans hus
  exact ⟨_, hsub (List.mem_cons_of_mem _ List.mem_cons_self), _, List.mem_singleton_self _,
    (isHardWired_loaded s.word).2 h⟩

end Rows

/-- The registers that are hard-wired go by their own names, except where `ld` is one of two loads
and its destination is the last register of 32 bits. -/
theorem hardWired_iff (symbols : Symbols) (word address : Word) (i : Instruction)
    (h : ({ isa, symbols } : Decoder).decode word address = .ok i) :
    (∃ x ∈ i.tokens, ∃ r ∈ x.registers, r.isHardWired = true) ↔
      .opcode "ld" ∈ i.tokens ∧ .opcode "ldu" ∈ i.tokens ∧ LoadsLast word := by
  obtain ⟨ts, hts, -, rfl⟩ := Decoder.decode_eq_ok.1 h
  change root.tokens { word, address, symbols } = .ok ts at hts
  constructor
  · rintro ⟨x, hx, r, hr, hwired⟩
    have hdetects := detects_isBare hr hwired { word, address, symbols }
    obtain ⟨us, hus, rfl⟩ := exists_ops_tokens_of_mem control_excludes_isBare hdetects hts hx
    have hx : x ∈ us := by
      refine (List.mem_append.1 hx).resolve_left fun hguard => ?_
      rw [isHardWired_of_mem_guard hguard hr] at hwired
      cases hwired
    have hmemory := Table.tokens_of_writer ops_writers_isBare rfl hdetects hus hx
    obtain ⟨hload, huniform, hlast⟩ := loadsLast_of_isHardWired hmemory hx hr hwired
    exact ⟨List.mem_append_right _ hload, List.mem_append_right _ huniform, hlast⟩
  · rintro ⟨hload, huniform, hlast⟩
    obtain ⟨us, hus, rfl⟩ :=
      exists_ops_tokens_of_mem control_excludes (detects_isOpcode "ldu" _) hts huniform
    have huniform := mem_of_mem_guarded huniform
    have hmemory := ops_tokens_dual hus huniform
    obtain ⟨x, hx, hwired⟩ :=
      exists_isHardWired hmemory (mem_of_mem_guarded hload) huniform hlast
    exact ⟨x, List.mem_append_right _ hx, hwired⟩

theorem hardWired_iff_named : ∃ i, decoder.decode 0xaa800004ffffdc05 0 = .ok i ∧
    .operand (.register .zero) ∈ i.tokens ∧
    ¬∃ x ∈ i.tokens, ∃ r ∈ x.registers, r.isHardWired = true := by
  obtain ⟨i, hi, hzero⟩ : ∃ i, decoder.decode 0xaa800004ffffdc05 0 = .ok i ∧
      .operand (.register .zero) ∈ i.tokens := ⟨_, rfl, by decide⟩
  refine ⟨i, hi, hzero, fun hwired => ?_⟩
  obtain ⟨-, -, hlast⟩ := (hardWired_iff .empty _ 0 i hi).1 hwired
  exact absurd hlast (by decide)

/-- A load of 32 bits to the last register, beside one to register 1. -/
theorem exists_last_loaded : ∃ i, decoder.decode 0xaa80003f0c205c05 0 = .ok i ∧
    .operand (.register (.numbered "r" 63 "")) ∈ i.tokens ∧
    ∃ x ∈ i.tokens, ∃ r ∈ x.registers, r.isHardWired = true :=
  ⟨_, rfl, by decide, by decide⟩

end Fermi

end Codeword
