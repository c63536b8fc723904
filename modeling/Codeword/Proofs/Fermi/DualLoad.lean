import Codeword.Proofs.Fermi.Guard
import Codeword.Proofs.Field.Outcome
import Codeword.Proofs.Table.Enumeration
import Codeword.Proofs.Table.Writing
import Mathlib.Tactic.IntervalCases

namespace Codeword

def RegisterValue.suffix : RegisterValue → String
  | .numbered _ _ suffix => suffix
  | _ => ""

def Atom.isOpcode (name : String) : Atom → Bool
  | .opcode other => other = name
  | _ => false

theorem detects_isOpcode (name : String) (s : Site) :
    Detects (Atom.isOpcode name) s (.opcode name) := by
  intro a htable ha
  cases a with
  | opcode other =>
      cases ha
      exact decide_eq_true rfl
  | table t => cases htable
  | modifier | register | immediate | memory | vector | target | unrecognized => cases ha

namespace Fermi

inductive AccessType
  | u8
  | s8
  | u16
  | s16
  | b32
  | b64
  | b128
  deriving DecidableEq, Repr

namespace AccessType

def name : AccessType → String
  | u8 => "u8"
  | s8 => "s8"
  | u16 => "u16"
  | s16 => "s16"
  | b32 => "b32"
  | b64 => "b64"
  | b128 => "b128"

def bytes : AccessType → Nat
  | u8 | s8 => 1
  | u16 | s16 => 2
  | b32 => 4
  | b64 => 8
  | b128 => 16

def suffix : AccessType → String
  | b64 => "d"
  | b128 => "q"
  | _ => ""

end AccessType

/-- The tokens of one load whose displacement counts units of the type that it moves. -/
def Loads (mnemonic space : String) (units : Int) (ts : List Token) : Prop :=
  ∃ (type : AccessType) (r : RegisterValue) (m : MemoryValue),
    ts = [.opcode mnemonic, .modifier type.name, .operand (.register r), .operand (.memory m)] ∧
      r.suffix = type.suffix ∧ m.space = some space ∧ m.displacement = units * type.bytes

def dualCode (word : Word) : Nat := (word.extractLsb' 0x35 5).toNat

/-- The displacements of the two loads, before they are scaled. The second is in two parts. -/
def loadUnits (word : Word) : Int := (word.extractLsb' 0x2b 10).toInt

def uniformUnits (word : Word) : Int :=
  (word.extractLsb' 0x26 5 ++ word.extractLsb' 5 5).toInt

section Types

def loadType (code : Nat) : AccessType :=
  if code < 5 then .u8
  else if code < 10 then .s8
  else if code < 15 then .u16
  else if code < 20 then .s16
  else if code < 27 then .b32
  else if code < 30 then .b64
  else .b128

def uniformType (code : Nat) : AccessType :=
  if code < 25 then
    match code % 5 with
    | 0 => .u8
    | 1 => .s8
    | 2 => .u16
    | 3 => .s16
    | _ => .b32
  else
    match (code - 25) % 3 with
    | 0 => .b64
    | 1 => .b128
    | _ => .b32

def uniformRegister : AccessType → Atom
  | .b64 => dstPair
  | .b128 => dstQuad
  | _ => dst

theorem loadAtoms_eq (code : Nat) :
    loadAtoms code = [.modifier (loadType code).name, loaded (loadType code).suffix] := by
  rw [loadAtoms, loadType]
  split_ifs <;> rfl

theorem bytes_loadType (code : Nat) : (loadType code).bytes = 2 ^ loadScale code := by
  grind [loadType, loadScale, AccessType.bytes]

theorem uniformAtoms_eq (code : Nat) : uniformAtoms code =
    [.modifier (uniformType code).name, uniformRegister (uniformType code)] := by
  rw [uniformAtoms, uniformScale, uniformType]
  by_cases h : code < 25
  · have hturn : code % 5 < 5 := Nat.mod_lt _ (by decide)
    simp only [if_pos h]
    generalize code % 5 = turn at hturn
    interval_cases turn <;> rfl
  · have hturn : (code - 25) % 3 < 3 := Nat.mod_lt _ (by decide)
    simp only [if_neg h]
    generalize (code - 25) % 3 = turn at hturn
    interval_cases turn <;> rfl

theorem bytes_uniformType (code : Nat) : (uniformType code).bytes = 2 ^ uniformScale code := by
  grind [uniformType, uniformScale, AccessType.bytes]

end Types

section Parts

variable {s : Site} {scale : Nat}

theorem suffix_decode_general (start : Nat) (h : Piece.fits start 6) (word address : Word) :
    ((general start h).decode word address).suffix = "" := by
  rcases (general start h).decode_cases word address with
    ⟨-, hr⟩ | ⟨_, x, -, hr⟩ | ⟨_, -, hr⟩ | ⟨_, -, -, hr⟩ <;> rw [hr]
  · rfl
  · cases x <;> rfl
  · rfl
  · rfl

theorem uniformRegister_tokens (type : AccessType) (s : Site) :
    ∃ r, (uniformRegister type).tokens s = .ok [.operand (.register r)] ∧
      r.suffix = type.suffix := by
  cases type with
  | b64 | b128 => exact ⟨_, rfl, rfl⟩
  | u8 | s8 | u16 | s16 | b32 => exact ⟨_, rfl, suffix_decode_general 0x0e _ _ _⟩

theorem tokens_perCode (name : String) (atoms : Nat → List Atom) (s : Site) :
    (perCode name atoms).tokens s =
      atomTokens s (atoms (dualCode s.word)) := by
  have hcode := (s.word.extractLsb' 0x35 5).isLt
  have hsmall : ∀ k < ((List.range 32).map fun code => some (atoms code)).length,
      k <<< 0x35 < 2 ^ 64 := by
    intro k hk
    rw [List.length_map, List.length_range] at hk
    exact Table.shiftLeft_lt (by decide : 0x35 + 5 ≤ 64) hk
  apply Table.tokens_enumerate name (by decide : 0x35 + 5 ≤ 64) hsmall
  rw [List.getElem?_map, List.getElem?_range hcode]
  rfl

theorem toInt_loadOffset (hscale : scale ≤ 54) (word address : Word) :
    ((loadOffset scale).extract word address).toInt = loadUnits word * 2 ^ scale := by
  have hfit : (loadOffset scale).width + scale ≤ 64 := Nat.add_le_add_left hscale 10
  rw [Field.toInt_extract rfl rfl rfl hfit]
  exact congrArg (fun bits => bits.toInt * 2 ^ scale) (pieceBits_single ⟨0x2b, 10⟩ word)

theorem toInt_uniformOffset (hscale : scale ≤ 54) (word address : Word) :
    ((uniformOffset scale).extract word address).toInt = uniformUnits word * 2 ^ scale := by
  have hfit : (uniformOffset scale).width + scale ≤ 64 := Nat.add_le_add_left hscale 10
  rw [Field.toInt_extract rfl rfl rfl hfit]
  exact congrArg (fun bits => bits.toInt * 2 ^ scale) (pieceBits_pair ⟨0x26, 5⟩ ⟨5, 5⟩ word)

def Addresses (space : String) (displacement : Int) (ts : List Token) : Prop :=
  ∃ m, ts = [.operand (.memory m)] ∧ m.space = some space ∧ m.displacement = displacement

theorem based_tokens (space : String) (f : Field) (base : Register) (s : Site) :
    ∃ ts, atomTokens s [based space f base] = .ok ts ∧
      Addresses space (f.extract s.word s.address).toInt ts :=
  ⟨_, rfl, _, rfl, rfl, rfl⟩

theorem based_choice_tokens (name space : String) {position : Nat} (hposition : position < 64)
    (f : Field) (narrow wide : Register) (s : Site) :
    ∃ ts, atomTokens s [Table.choice name position [based space f narrow] [based space f wide]] =
        .ok ts ∧ Addresses space (f.extract s.word s.address).toInt ts := by
  rw [atomTokens_singleton, Atom.tokens, Table.tokens_choice name _ _ hposition]
  cases s.word.getLsbD position with
  | false => exact based_tokens space f narrow s
  | true => exact based_tokens space f wide s

theorem loadScale_le (code : Nat) : loadScale code ≤ 54 := by grind [loadScale]

theorem uniformScale_le (code : Nat) : uniformScale code ≤ 54 := by grind [uniformScale]

/-- The displacement that a table gives to `ld` counts units of the type of the code. -/
def Scaled (source : Table) (space : String) (s : Site) : Prop :=
  ∃ ts, source.tokens s = .ok ts ∧
    Addresses space (loadUnits s.word * (loadType (dualCode s.word)).bytes) ts

theorem scaled_loadSharedSource (s : Site) : Scaled loadSharedSource "s" s := by
  rw [Scaled, loadSharedSource, tokens_perCode, bytes_loadType]
  push_cast
  rw [← toInt_loadOffset (loadScale_le _) s.word s.address]
  exact based_tokens "s" _ _ s

theorem scaled_loadGlobalSource (s : Site) : Scaled loadGlobalSource "g" s := by
  rw [Scaled, loadGlobalSource, tokens_perCode, bytes_loadType]
  push_cast
  rw [← toInt_loadOffset (loadScale_le _) s.word s.address]
  exact based_choice_tokens _ "g" (by decide) _ _ _ s

theorem uniformSource_tokens (s : Site) : ∃ ts, uniformSource.tokens s = .ok ts ∧
    Addresses "g" (uniformUnits s.word * (uniformType (dualCode s.word)).bytes) ts := by
  rw [uniformSource, tokens_perCode, bytes_uniformType]
  push_cast
  rw [← toInt_uniformOffset (uniformScale_le _) s.word s.address]
  exact based_choice_tokens _ "g" (by decide) _ _ _ s

end Parts

section Rows

variable {s : Site} {ts : List Token}

theorem exists_loads {mnemonic space : String} {type : AccessType} {destination source : Table}
    {units : Int} {r : RegisterValue}
    (hdestination : destination.tokens s = .ok [.modifier type.name, .operand (.register r)])
    (hsuffix : r.suffix = type.suffix)
    (hsource : ∃ ts, source.tokens s = .ok ts ∧ Addresses space (units * type.bytes) ts) :
    ∃ ts, atomTokens s [.opcode mnemonic, destination, source] = .ok ts ∧
      Loads mnemonic space units ts := by
  obtain ⟨_, hsource, m, rfl, hspace, hdisplacement⟩ := hsource
  have hlast : atomTokens s [source] = .ok [.operand (.memory m)] :=
    (atomTokens_singleton s source).trans hsource
  refine ⟨_, atomTokens_cons_eq_ok.2 ⟨_, _, rfl, ?_, rfl⟩, type, r, m, rfl, hsuffix, hspace,
    hdisplacement⟩
  exact atomTokens_cons_eq_ok.2 ⟨_, _, hdestination, hlast, rfl⟩

theorem loadDestination_tokens (s : Site) : loadDestination.tokens s =
    .ok [.modifier (loadType (dualCode s.word)).name,
      .operand (.register (.numbered "r" (s.word.extractLsb' 0x20 6).toNat
        (loadType (dualCode s.word)).suffix))] := by
  rw [loadDestination, tokens_perCode, loadAtoms_eq, ← Field.toNat_extract_bits rfl s.word s.address]
  rfl

theorem exists_load {source : Table} {space : String} (hsource : Scaled source space s) :
    ∃ ts, atomTokens s [.opcode "ld", loadDestination, source] = .ok ts ∧
      Loads "ld" space (loadUnits s.word) ts :=
  exists_loads (loadDestination_tokens s) rfl hsource

theorem exists_uniform (s : Site) :
    ∃ ts, atomTokens s [.opcode "ldu", uniformDestination, uniformSource] = .ok ts ∧
      Loads "ldu" "g" (uniformUnits s.word) ts := by
  obtain ⟨r, hr, hsuffix⟩ :=
    uniformRegister_tokens (uniformType (dualCode s.word)) s
  refine exists_loads ?_ hsuffix (uniformSource_tokens s)
  rw [uniformDestination, tokens_perCode, uniformAtoms_eq]
  have hlast : atomTokens s [uniformRegister _] = .ok [.operand (.register r)] :=
    (atomTokens_singleton s _).trans hr
  exact atomTokens_cons_eq_ok.2 ⟨_, _, rfl, hlast, rfl⟩

def dualAtoms (source : Table) : List Atom :=
  [.opcode "ld", loadDestination, source, .opcode "ldu", uniformDestination, uniformSource]

theorem exists_dual {source : Table} {space : String} (hsource : Scaled source space s)
    (hts : atomTokens s (dualAtoms source) = .ok ts) :
    ∃ load uniform, ts = load ++ uniform ∧ Loads "ld" space (loadUnits s.word) load ∧
      Loads "ldu" "g" (uniformUnits s.word) uniform := by
  obtain ⟨load, hload, hloads⟩ := exists_load hsource
  obtain ⟨uniform, huniform, huniforms⟩ := exists_uniform s
  have hboth := hts.symm.trans (atomTokens_append hload huniform)
  cases hboth
  exact ⟨load, uniform, rfl, hloads, huniforms⟩

theorem control_excludes : control.every (Table.excludes (Atom.isOpcode "ldu")) = true := by
  decide +kernel

theorem ops_writers : ops.writers (Atom.isOpcode "ldu") = [5] := by decide +kernel

theorem memory_writers : memory.writers (Atom.isOpcode "ldu") = [13, 17, 18] := by
  decide +kernel

theorem exists_dualAtoms (hts : memory.tokens s = .ok ts) (hload : .opcode "ld" ∈ ts)
    (huniform : .opcode "ldu" ∈ ts) :
    atomTokens s (dualAtoms loadSharedSource) = .ok ts ∨
      atomTokens s (dualAtoms loadGlobalSource) = .ok ts := by
  obtain ⟨n, hn, r, hr, -, hatoms⟩ :=
    Table.exists_writer (detects_isOpcode "ldu" s) hts huniform
  rw [memory_writers] at hn
  fin_cases hn
  · -- This row is for `ldu` alone.
    cases hr
    have hmay := Row.may_of_mem (detects_isOpcode "ld" s) hatoms hload
    exact absurd hmay (by decide +kernel)
  · cases hr
    exact .inl hatoms
  · cases hr
    exact .inr hatoms

theorem memory_tokens_dual (hts : memory.tokens s = .ok ts) (hload : .opcode "ld" ∈ ts)
    (huniform : .opcode "ldu" ∈ ts) :
    ∃ space ∈ ["s", "g"], ∃ load uniform, ts = load ++ uniform ∧
      Loads "ld" space (loadUnits s.word) load ∧
        Loads "ldu" "g" (uniformUnits s.word) uniform := by
  rcases exists_dualAtoms hts hload huniform with hatoms | hatoms
  · exact ⟨"s", by simp, exists_dual (scaled_loadSharedSource s) hatoms⟩
  · exact ⟨"g", by simp, exists_dual (scaled_loadGlobalSource s) hatoms⟩

theorem ops_tokens_dual (hts : ops.tokens s = .ok ts) (huniform : .opcode "ldu" ∈ ts) :
    memory.tokens s = .ok ts :=
  Table.tokens_of_writer ops_writers rfl (detects_isOpcode "ldu" s) hts huniform

theorem opcode_not_mem_guard (join : Bool) (g : BitVec 4) (name : String) :
    .opcode name ∉ joinTokens join ++ guardTokens g := by
  rw [joinTokens, guardTokens]
  split <;> split <;> split <;> simp

theorem mem_of_mem_guarded {join : Bool} {g : BitVec 4} {name : String}
    (h : .opcode name ∈ joinTokens join ++ guardTokens g ++ ts) : .opcode name ∈ ts :=
  (List.mem_append.1 h).resolve_left (opcode_not_mem_guard join g name)

end Rows

/-- Both loads of a dual load count their displacement in units of the type that they move, and
the destinations are as wide as the types. -/
theorem dual_load (symbols : Symbols) (word address : Word) (i : Instruction)
    (h : ({ isa, symbols } : Decoder).decode word address = .ok i)
    (hload : .opcode "ld" ∈ i.tokens) (huniform : .opcode "ldu" ∈ i.tokens) :
    ∃ before load uniform, i.tokens = before ++ load ++ uniform ∧
      (∀ name, .opcode name ∉ before) ∧
      (∃ space ∈ ["s", "g"], Loads "ld" space (word.extractLsb' 0x2b 10).toInt load) ∧
      Loads "ldu" "g" (word.extractLsb' 0x26 5 ++ word.extractLsb' 5 5).toInt uniform := by
  obtain ⟨ts, hts, -, rfl⟩ := Decoder.decode_eq_ok.1 h
  change root.tokens { word, address, symbols } = .ok ts at hts
  by_cases hclass : word &&& 7 = 7
  · have hcontrol : control.tokens { word, address, symbols } = .ok ts :=
      (root_tokens_of_class hclass).symm.trans hts
    exact absurd huniform
      (Table.not_mem_of_every_excludes control_excludes (detects_isOpcode "ldu" _) hcontrol)
  · obtain ⟨us, hus⟩ := exists_ops_tokens { word, address, symbols }
    have hroot := hts.symm.trans (root_tokens_of_not_class hclass hus)
    cases hroot
    have huniforms := mem_of_mem_guarded huniform
    obtain ⟨space, hspace, load, uniform, rfl, hl, hu⟩ :=
      memory_tokens_dual (ops_tokens_dual hus huniforms) (mem_of_mem_guarded hload) huniforms
    exact ⟨_, load, uniform, (List.append_assoc _ _ _).symm, opcode_not_mem_guard _ _,
      ⟨space, hspace, hl⟩, hu⟩

theorem dual_load_below : ∃ i, decoder.decode 0xbbbfefc81840dfc5 0 = .ok i ∧
    .opcode "ld" ∈ i.tokens ∧ .opcode "ldu" ∈ i.tokens ∧
    ∃ before load uniform, i.tokens = before ++ load ++ uniform ∧
      (∀ name, .opcode name ∉ before) ∧ (∃ space ∈ ["s", "g"], Loads "ld" space (-3) load) ∧
      Loads "ldu" "g" (-2) uniform := by
  obtain ⟨i, hi, hload, huniform⟩ : ∃ i, decoder.decode 0xbbbfefc81840dfc5 0 = .ok i ∧
      .opcode "ld" ∈ i.tokens ∧ .opcode "ldu" ∈ i.tokens := ⟨_, rfl, by decide, by decide⟩
  exact ⟨i, hi, hload, huniform, dual_load .empty _ 0 i hi hload huniform⟩

end Fermi

end Codeword
