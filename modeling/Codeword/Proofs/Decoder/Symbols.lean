import Codeword.Fermi.Isa
import Codeword.Proofs.Decoder.Outcome
import Codeword.Proofs.Table.Translation

namespace Codeword

variable {t : Table} {s : Site} {ts : List Token}

/-- An operand without what symbols made of it. -/
def Operand.anonymous : Operand → Operand
  | .memory m => .memory { m with symbol := none }
  | .target kind address _ => .target kind address none
  | o => o

def Token.anonymous : Token → Token
  | .operand o => .operand o.anonymous
  | x => x

def Instruction.anonymous (i : Instruction) : Instruction :=
  { i with tokens := i.tokens.map Token.anonymous }

def Operand.isNameless : Operand → Bool
  | .register _ | .immediate _ _ | .vector _ _ => true
  | .memory _ | .target _ _ _ => false

theorem Operand.isNameless_anonymous (o : Operand) : o.anonymous.isNameless = o.isNameless := by
  cases o <;> rfl

theorem Operand.anonymous_of_isNameless {o : Operand} (h : o.isNameless = true) :
    o.anonymous = o := by
  cases o with
  | memory | target => cases h
  | register | immediate | vector => rfl

namespace Instruction

theorem mnemonic_anonymous (i : Instruction) : i.anonymous.mnemonic = i.mnemonic := by
  rw [mnemonic, mnemonic, anonymous, List.findSome?_map]
  congr 1
  funext x
  cases x <;> rfl

theorem modifiers_anonymous (i : Instruction) : i.anonymous.modifiers = i.modifiers := by
  rw [modifiers, modifiers, anonymous, List.filterMap_map]
  congr 1
  funext x
  cases x <;> rfl

theorem operands_anonymous (i : Instruction) :
    i.anonymous.operands = i.operands.map Operand.anonymous := by
  rw [operands, operands, anonymous, List.filterMap_map, List.map_filterMap]
  congr 1
  funext x
  cases x <;> rfl

theorem targets_anonymous (i : Instruction) : i.anonymous.targets = i.targets := by
  rw [targets, targets, operands_anonymous, List.filterMap_map]
  congr 1
  funext o
  cases o <;> rfl

theorem filter_isNameless_anonymous (i : Instruction) :
    i.anonymous.operands.filter Operand.isNameless = i.operands.filter Operand.isNameless := by
  have hkind : Operand.isNameless ∘ Operand.anonymous = Operand.isNameless :=
    funext Operand.isNameless_anonymous
  rw [operands_anonymous, List.filter_map, hkind]
  refine (List.map_congr_left fun o ho => ?_).trans (List.map_id _)
  exact Operand.anonymous_of_isNameless (List.mem_filter.1 ho).2

end Instruction

theorem unrecognized_mem_anonymous :
    .unrecognized ∈ ts.map Token.anonymous ↔ .unrecognized ∈ ts := by
  rw [List.mem_map]
  constructor
  · rintro ⟨x, hx, h⟩
    cases x with
    | unrecognized => exact hx
    | opcode | modifier | operand => cases h
  · intro h
    exact ⟨_, h, rfl⟩

def stripping (s : Site) : Translation s { s with symbols := .empty } where
  token := Token.anonymous

theorem stripping_fits (s : Site) (t : Table) : (stripping s).Fits t where
  matches_iff _ _ := Iff.rfl
  tokens_eq r _ a _ htable := by
    cases a with
    | table u => simp [Atom.table?] at htable
    | memory m =>
        have hnone (bank : Option Nat) : bank.bind (fun _ => (none : Option String)) = none := by
          cases bank <;> rfl
        simp only [Atom.tokens, Memory.decode, Symbols.empty, hnone]
        rfl
    | opcode | modifier | register | immediate | vector | target | unrecognized => rfl

/-- To decode without symbols is to decode with any and to take away the names. -/
theorem Table.tokens_empty (s : Site) (t : Table) :
    t.tokens { s with symbols := .empty } = (t.tokens s).map (List.map Token.anonymous) := by
  rw [Translation.tokens_eq fun u _ => stripping_fits s u]
  cases t.tokens s <;> rfl

theorem Table.tokens_symbols_cases (t : Table) (word address : Word) (s₁ s₂ : Symbols) :
    (∃ name, t.tokens { word, address, symbols := s₁ } = .error (.noMatchingRow name word) ∧
      t.tokens { word, address, symbols := s₂ } = .error (.noMatchingRow name word)) ∨
    ∃ ts₁ ts₂, t.tokens { word, address, symbols := s₁ } = .ok ts₁ ∧
      t.tokens { word, address, symbols := s₂ } = .ok ts₂ ∧
      ts₁.map Token.anonymous = ts₂.map Token.anonymous := by
  -- Both are what is decoded without symbols, once the names are gone.
  have hsame : (t.tokens { word, address, symbols := s₁ }).map (List.map Token.anonymous) =
      (t.tokens { word, address, symbols := s₂ }).map (List.map Token.anonymous) :=
    (tokens_empty { word, address, symbols := s₁ } t).symm.trans
      (tokens_empty { word, address, symbols := s₂ } t)
  cases h₁ : t.tokens { word, address, symbols := s₁ } with
  | error e =>
      obtain ⟨u, -, -, rfl⟩ := error_of_tokens h₁
      rw [h₁] at hsame
      cases h₂ : t.tokens { word, address, symbols := s₂ } with
      | error e₂ =>
          rw [h₂] at hsame
          cases hsame
          exact .inl ⟨u.name, rfl, rfl⟩
      | ok ts₂ =>
          rw [h₂] at hsame
          cases hsame
  | ok ts₁ =>
      rw [h₁] at hsame
      cases h₂ : t.tokens { word, address, symbols := s₂ } with
      | error e₂ =>
          rw [h₂] at hsame
          cases hsame
      | ok ts₂ =>
          rw [h₂] at hsame
          exact .inr ⟨ts₁, ts₂, rfl, rfl, Except.ok.inj hsame⟩

theorem Table.symbol_of_mem_tokens {m : MemoryValue} (hts : t.tokens s = .ok ts)
    (hm : .operand (.memory m) ∈ ts) :
    ∃ u, Relation.ReflTransGen (Enters s.word) t u ∧
      ∃ r, u.rows.find? (·.Matches s.word) = some r ∧
        ∃ a : Memory, .memory a ∈ r.atoms ∧ m = a.decode s.word s.address s.symbols ∧
          (a.bank = none → m.symbol = none) ∧
          ∀ f, a.bank = some f → m.symbol =
            s.symbols.constant (f.extract s.word s.address).toNat m.displacement := by
  obtain ⟨u, hu, r, hr, x, hx, htable, htokens⟩ := mem_tokens hts hm
  cases x with
  | memory a =>
      cases htokens
      refine ⟨u, hu, r, hr, a, hx, rfl, fun hbank => ?_, fun f hbank => ?_⟩ <;>
        rw [Memory.decode, hbank] <;> rfl
  | table v => simp [Atom.table?] at htable
  | opcode | modifier | register | immediate | vector | target | unrecognized => cases htokens

/-- Two instructions that differ in the names of their operands at most. -/
structure Instruction.SameButNames (i j : Instruction) : Prop where
  anonymous_eq : i.anonymous = j.anonymous
  mnemonic_eq : i.mnemonic = j.mnemonic
  modifiers_eq : i.modifiers = j.modifiers
  targets_eq : i.targets = j.targets
  nameless_eq : i.operands.filter Operand.isNameless = j.operands.filter Operand.isNameless

theorem Instruction.sameButNames_of_anonymous {i j : Instruction} (h : i.anonymous = j.anonymous) :
    i.SameButNames j where
  anonymous_eq := h
  mnemonic_eq := by rw [← mnemonic_anonymous, h, mnemonic_anonymous]
  modifiers_eq := by rw [← modifiers_anonymous, h, modifiers_anonymous]
  targets_eq := by rw [← targets_anonymous, h, targets_anonymous]
  nameless_eq := by rw [← filter_isNameless_anonymous, h, filter_isNameless_anonymous]

namespace Decoder

theorem decode_symbols_cases (isa : Isa) (word address : Word) (s₁ s₂ : Symbols) :
    let d₁ : Decoder := { isa, symbols := s₁ }
    let d₂ : Decoder := { isa, symbols := s₂ }
    (∃ i₁ i₂, d₁.decode word address = .ok i₁ ∧ d₂.decode word address = .ok i₂ ∧
      i₁.SameButNames i₂) ∨
    (∃ text₁ text₂, d₁.decode word address = .error (.unrecognized word address text₁) ∧
      d₂.decode word address = .error (.unrecognized word address text₂)) ∨
    ∃ name, d₁.decode word address = .error (.noMatchingRow name word) ∧
      d₂.decode word address = .error (.noMatchingRow name word) := by
  intro d₁ d₂
  obtain ⟨name, h₁, h₂⟩ | ⟨ts₁, ts₂, h₁, h₂, hsame⟩ :=
    isa.root.tokens_symbols_cases word address s₁ s₂
  · exact .inr (.inr ⟨name, decode_of_error h₁, decode_of_error h₂⟩)
  · have hmark : .unrecognized ∈ ts₁ ↔ .unrecognized ∈ ts₂ := by
      rw [← unrecognized_mem_anonymous, hsame, unrecognized_mem_anonymous]
    by_cases hknown : .unrecognized ∈ ts₁
    · have h₁ := decode_of_unrecognized (d := d₁) h₁ hknown
      have h₂ := decode_of_unrecognized (d := d₂) h₂ (hmark.1 hknown)
      exact .inr (.inl ⟨_, _, h₁, h₂⟩)
    · have h₁ := decode_of_tokens (d := d₁) h₁ hknown
      have h₂ := decode_of_tokens (d := d₂) h₂ (mt hmark.2 hknown)
      refine .inl ⟨_, _, h₁, h₂, Instruction.sameButNames_of_anonymous ?_⟩
      rw [Instruction.anonymous, Instruction.anonymous, hsame]

end Decoder

/-- Symbols name operands and have no other effect. -/
theorem symbols_only_name (word address : Word) (s₁ s₂ : Symbols) :
    (∀ t : Table,
      (∃ name, t.tokens { word, address, symbols := s₁ } = .error (.noMatchingRow name word) ∧
        t.tokens { word, address, symbols := s₂ } = .error (.noMatchingRow name word)) ∨
      ∃ ts₁ ts₂, t.tokens { word, address, symbols := s₁ } = .ok ts₁ ∧
        t.tokens { word, address, symbols := s₂ } = .ok ts₂ ∧
        ts₁.map Token.anonymous = ts₂.map Token.anonymous) ∧
    (∀ isa,
      let d₁ : Decoder := { isa, symbols := s₁ }
      let d₂ : Decoder := { isa, symbols := s₂ }
      (∃ i₁ i₂, d₁.decode word address = .ok i₁ ∧ d₂.decode word address = .ok i₂ ∧
        i₁.SameButNames i₂) ∨
      (∃ text₁ text₂, d₁.decode word address = .error (.unrecognized word address text₁) ∧
        d₂.decode word address = .error (.unrecognized word address text₂)) ∨
      ∃ name, d₁.decode word address = .error (.noMatchingRow name word) ∧
        d₂.decode word address = .error (.noMatchingRow name word)) ∧
    ∀ (t : Table) ts m, t.tokens { word, address, symbols := s₁ } = .ok ts →
      .operand (.memory m) ∈ ts →
        ∃ u, Relation.ReflTransGen (Table.Enters word) t u ∧
          ∃ r, u.rows.find? (·.Matches word) = some r ∧
            ∃ a : Memory, .memory a ∈ r.atoms ∧ m = a.decode word address s₁ ∧
              (a.bank = none → m.symbol = none) ∧
              ∀ f, a.bank = some f →
                m.symbol = s₁.constant (f.extract word address).toNat m.displacement := by
  refine ⟨fun t => t.tokens_symbols_cases word address s₁ s₂,
    fun isa => Decoder.decode_symbols_cases isa word address s₁ s₂, fun t ts m hts hm => ?_⟩
  exact Table.symbol_of_mem_tokens hts hm

theorem symbols_only_name_constant :
    let s : Symbols := .ofLists [⟨1, 0x20, "viewport_scale"⟩] []
    let m : MemoryValue :=
      { space := some "c", bank := some 1, base := none, index := none, displacement := 0x20
        symbol := some "viewport_scale" }
    ∃ ts₁ ts₂,
      Fermi.root.tokens { word := 0x4800440080101c03, symbols := s } = .ok ts₁ ∧
      Fermi.root.tokens { word := 0x4800440080101c03 } = .ok ts₂ ∧
      ts₁.map Token.anonymous = ts₂.map Token.anonymous ∧
      .operand (.memory m) ∈ ts₁ ∧
      ∃ a : Memory, m = a.decode 0x4800440080101c03 0 s ∧ a.bank ≠ none := by
  intro s m
  obtain ⟨htokens, -, hmemory⟩ := symbols_only_name 0x4800440080101c03 0 s .empty
  have hts : (Fermi.root.tokens { word := 0x4800440080101c03, symbols := s }).toOption =
      some [.opcode "add", .modifier "b32", .operand (.register (.numbered "r" 0 "")),
        .operand (.register (.numbered "r" 1 "")), .operand (.memory m)] := by decide +kernel
  obtain ⟨name, herror, -⟩ | ⟨ts₁, ts₂, h₁, h₂, hsame⟩ := htokens Fermi.root
  · rw [herror] at hts
    cases hts
  · have hm : .operand (.memory m) ∈ ts₁ := by
      rw [h₁] at hts
      cases hts
      simp
    obtain ⟨-, -, -, -, a, -, ha, habsent, -⟩ := hmemory Fermi.root ts₁ m h₁ hm
    exact ⟨ts₁, ts₂, h₁, h₂, hsame, hm, a, ha, fun hbank => by cases habsent hbank⟩

end Codeword
