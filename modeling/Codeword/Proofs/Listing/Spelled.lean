import Codeword.Proofs.Fermi.Decoding
import Codeword.Proofs.Listing.Build

namespace Codeword

namespace Listing

variable {d : Decoder} {words : List Word} {base : Word} {line : Line} {ts : List Token}

def front (l : Listing) (showEncoding : Bool) (line : Line) : String :=
  (l.labels.label line.address).elim "" (· ++ ":\n") ++ Text.hexPadded 8 line.address.toNat ++
    ": " ++ if showEncoding then Text.hexPadded 16 line.word.toNat ++ "  " else ""

/-- The tokens of a line. Only those of a known instruction have names for the labels. -/
def shown (l : Listing) (ts : List Token) : List Token :=
  if .unrecognized ∈ ts then ts else ts.map l.labels.nameToken

/-- Every word that the tables take is shown in the spelling that is asked for. -/
def Honours (l : Listing) (d : Decoder) (s : Spelling) : Prop :=
  ∀ line ∈ l.lines, ∀ ts, d.isa.root.tokens (d.site line.word line.address) = .ok ts →
    lineText s line = s.tokens (l.shown ts)

theorem renderLine_eq_front (l : Listing) (s : Spelling) (showEncoding : Bool) (line : Line) :
    l.renderLine s showEncoding line = l.front showEncoding line ++ lineText s line ++ "\n" := by
  rw [renderLine, front]
  cases l.labels.label line.address <;> simp [String.append_assoc]

/-- The text of a known instruction is made by the listing, that of an unknown one with the
word. -/
theorem lineText_serial (s : Spelling) (hline : line ∈ (serial d words base).lines)
    (hts : d.isa.root.tokens (d.site line.word line.address) = .ok ts) :
    lineText s line =
      if .unrecognized ∈ ts then Spelling.tokens {} ts
      else s.tokens (ts.map (serial d words base).labels.nameToken) := by
  obtain ⟨n, word, -, rfl⟩ := mem_lines_serial.1 hline
  by_cases hmark : .unrecognized ∈ ts
  · have hdecode : d.decode word (d.isa.addressAt base n) = _ :=
      Decoder.decode_of_unrecognized hts hmark
    rw [lineText, lineAt, hdecode, if_pos hmark]
    rfl
  · have hdecode : d.decode word (d.isa.addressAt base n) = _ :=
      Decoder.decode_of_tokens hts hmark
    rw [lineText, result_lineAt hdecode, if_neg hmark, labels_serial]
    rfl

theorem serial_honours_iff (d : Decoder) (words : List Word) (base : Word) (s : Spelling) :
    (serial d words base).Honours d s ↔ ∀ line ∈ (serial d words base).lines, ∀ ts,
      d.isa.root.tokens (d.site line.word line.address) = .ok ts → .unrecognized ∈ ts →
        Spelling.tokens {} ts = s.tokens ts := by
  constructor
  · intro h line hline ts hts hmark
    have htext := h line hline ts hts
    rwa [lineText_serial s hline hts, if_pos hmark, shown, if_pos hmark] at htext
  · intro h line hline ts hts
    rw [lineText_serial s hline hts, shown]
    by_cases hmark : .unrecognized ∈ ts
    · rw [if_pos hmark, if_pos hmark]
      exact h line hline ts hts hmark
    · rw [if_neg hmark, if_neg hmark]

/-- A listing follows the spelling only where it knows the instruction. A word that is marked as
unknown keeps the text that was made of it in the default spelling. -/
theorem honours_iff (d : Decoder) (o : Overflow) (words : List Word) (base threads : Word)
    (s : Spelling) (showEncoding : Bool) :
    (threads.toNat < 2 ^ 63 → ∃ l, build d o words base threads = .ok l) ∧
    ∀ l, build d o words base threads = .ok l →
      l.render s showEncoding = String.join
          (l.lines.map fun line => l.front showEncoding line ++ lineText s line ++ "\n") ∧
        (l.Honours d s ↔ ∀ line ∈ l.lines, ∀ ts,
          d.isa.root.tokens (d.site line.word line.address) = .ok ts → .unrecognized ∈ ts →
            Spelling.tokens {} ts = s.tokens ts) := by
  refine ⟨fun h => ⟨_, build_of_lt h d o words base⟩, fun l hbuild => ?_⟩
  cases eq_serial_of_build hbuild
  exact ⟨congrArg String.join (List.map_congr_left fun line _ => renderLine_eq_front _ s _ line),
    serial_honours_iff d words base s⟩

end Listing

namespace Fermi

open Listing

/-- The registers of an unknown instruction have the default sigil. -/
theorem not_honours_sigil :
    let s : Spelling := { sigil := "%" }
    ∃ l, build decoder .checked [0x1c03] 0 1 = .ok l ∧ ¬l.Honours decoder s ∧
      (∃ ts, root.tokens { word := 0x1c03 } = .ok ts ∧ s.tokens ts = "??? b32 %r0 %r0 %r0 %r0") ∧
      l.render s true = "00000000: 0000000000001c03  ??? b32 $r0 $r0 $r0 $r0\n" := by
  intro s
  obtain ⟨ts, hts, hmark, hshown, hdefault⟩ : ∃ ts, root.tokens { word := 0x1c03 } = .ok ts ∧
      .unrecognized ∈ ts ∧ s.tokens ts = "??? b32 %r0 %r0 %r0 %r0" ∧
        Spelling.tokens {} ts = "??? b32 $r0 $r0 $r0 $r0" :=
    ⟨_, rfl, by decide, by decide +kernel, by decide +kernel⟩
  have hline : lineAt decoder [0x1c03] 0 0 0x1c03 ∈ (serial decoder [0x1c03] 0).lines :=
    mem_lines_serial.2 ⟨0, _, rfl, rfl⟩
  refine ⟨_, build_of_lt (by decide) decoder .checked [0x1c03] 0, fun h => ?_, ⟨ts, hts, hshown⟩,
    by decide +kernel⟩
  have htext := h _ hline ts hts
  rw [lineText_serial s hline hts, if_pos hmark, shown, if_pos hmark, hshown, hdefault] at htext
  exact absurd htext (by decide)

end Fermi

end Codeword
