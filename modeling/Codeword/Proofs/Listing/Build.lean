import Codeword.Proofs.Decoder.Outcome
import Codeword.Proofs.Decoder.Streams
import Codeword.Proofs.Listing.Labels
import Codeword.Proofs.Table.Emission

namespace Codeword

variable {d : Decoder} {i : Instruction} {word place base address : Word} {words : List Word}
  {kind : TargetKind} {name : Option String}

theorem Decoder.getElem?_decodeWords (d : Decoder) (words : List Word) (base : Word) (n : Nat) :
    (d.decodeWords words base)[n]? =
      words[n]?.map fun word => d.decode word (d.isa.addressAt base n) :=
  List.getElem?_mapIdx

namespace Listing

def HasTarget (l : Listing) (kind : TargetKind) (address : Word) (name : Option String) : Prop :=
  ∃ line ∈ l.lines, ∃ i, line.result = .ok i ∧ .operand (.target kind address name) ∈ i.tokens

def RefersTo (l : Listing) (kind : TargetKind) (address : Word) : Prop :=
  ∃ name, l.HasTarget kind address name

/-- What a listing says of words that follow each other from an address on. -/
structure Describes (l : Listing) (d : Decoder) (words : List Word) (base : Word) : Prop where
  length_eq : l.lines.length = words.length
  line_eq : ∀ n line, l.lines[n]? = some line → ∃ word result, words[n]? = some word ∧
    (d.decodeWords words base)[n]? = some result ∧ line.word = word ∧
    line.address = base + BitVec.ofNat 64 (n * d.isa.stride) ∧
    line.result.map Instruction.unnamed = result.map Instruction.unnamed
  mem_branches : ∀ address, address ∈ l.labels.branches ↔ l.RefersTo .branch address
  mem_calls : ∀ address, address ∈ l.labels.calls ↔ l.RefersTo .call address
  branches_ascend : l.labels.branches.Pairwise (· < ·)
  calls_ascend : l.labels.calls.Pairwise (· < ·)
  name_number : ∀ address name, l.HasTarget .number address name →
    name = d.symbols.target address .number
  name_given : ∀ kind address name given, l.HasTarget kind address name →
    d.symbols.target address kind = some given → name = some given
  name_call : ∀ kind address name, kind ≠ .number → l.HasTarget kind address name →
    d.symbols.target address kind = none → l.RefersTo .call address →
    name = some ("C" ++ Text.hex address.toNat)
  name_branch : ∀ kind address name, kind ≠ .number → l.HasTarget kind address name →
    d.symbols.target address kind = none → ¬l.RefersTo .call address →
    name = some ("B" ++ Text.hex address.toNat)

def lineAt (d : Decoder) (words : List Word) (base : Word) (n : Nat) (word : Word) : Line where
  address := d.isa.addressAt base n
  word
  result := (d.decode word (d.isa.addressAt base n)).map
    (Labels.ofResults (d.decodeWords words base)).nameTargets

def serial (d : Decoder) (words : List Word) (base : Word) : Listing :=
  ofResults d.isa words base (d.decodeWords words base)

section Build

variable {o : Overflow} {n : Nat} {threads : Word} {line : Line} {l : Listing}

theorem build_of_lt (h : threads.toNat < 2 ^ 63) (d : Decoder) (o : Overflow) (words : List Word)
    (base : Word) : build d o words base threads = .ok (serial d words base) := by
  rw [build, Decoder.decodeParallel_of_lt h]
  rfl

theorem eq_serial_of_build (h : build d o words base threads = .ok l) :
    l = serial d words base := by
  rw [build, Decoder.decodeParallel_eq] at h
  split at h <;> cases h
  rfl

theorem labels_serial : (serial d words base).labels =
    Labels.ofResults (d.decodeWords words base) := rfl

theorem getElem?_lines_serial :
    (serial d words base).lines[n]? = words[n]?.map (lineAt d words base n) := by
  rw [serial, ofResults]
  dsimp only
  rw [List.getElem?_mapIdx, List.zip, List.getElem?_zipWith, Decoder.getElem?_decodeWords]
  cases words[n]? <;> rfl

theorem mem_lines_serial : line ∈ (serial d words base).lines ↔
    ∃ n word, words[n]? = some word ∧ lineAt d words base n word = line := by
  simp only [List.mem_iff_getElem?, getElem?_lines_serial, Option.map_eq_some_iff]

theorem result_lineAt {n : Nat} {word : Word} {j : Instruction}
    (h : d.decode word (d.isa.addressAt base n) = .ok j) :
    (lineAt d words base n word).result =
      .ok ((Labels.ofResults (d.decodeWords words base)).nameTargets j) := by
  rw [lineAt, h]
  rfl

end Build

end Listing

end Codeword
