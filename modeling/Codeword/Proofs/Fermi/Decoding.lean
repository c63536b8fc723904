import Codeword.Fermi.Isa
import Codeword.Proofs.Decoder.Outcome
import Codeword.Proofs.Table.Names
import Mathlib.Logic.Basic

namespace Codeword.Fermi

def decoder : Decoder := { isa }

theorem root_every_isTotal : root.every Table.isTotal = true := by decide +kernel

theorem root_every_avoids : root.every (Table.avoids '?') = true := by decide +kernel

theorem isSome_find {t : Table} (h : Relation.ReflTransGen Table.Refers root t) (word : Word) :
    (t.find word).isSome :=
  Table.isSome_find_of_isTotal (Table.test_of_every root_every_isTotal h) word

theorem isSome_find_of_enters {t : Table} {word : Word}
    (h : Relation.ReflTransGen (Table.Enters word) root t) : (t.find word).isSome :=
  isSome_find (Relation.ReflTransGen.mono (fun _ _ => Table.Enters.refers) _ _ h) word

theorem exists_root_tokens (s : Site) : ∃ ts, root.tokens s = .ok ts :=
  Table.exists_tokens fun _ hu => isSome_find_of_enters hu

theorem not_mem_render {s : Site} (hs : s.symbols.Avoids '?') {ts : List Token}
    (hts : root.tokens s = .ok ts) (hknown : .unrecognized ∉ ts) (spelling : Spelling)
    (hsigil : '?' ∉ spelling.sigil.toList) : '?' ∉ (spelling.tokens ts).toList := by
  refine Spelling.not_mem_tokens (by decide) hsigil fun x hx => ?_
  exact Table.avoids_of_mem_tokens root_every_avoids hs hts hx fun h => hknown (h ▸ hx)

/-- Every word is an instruction, or it is reported as unknown with a text that says so. Each
table that the word enters has a row for it. -/
theorem decode_total (word address : Word) :
    Xor
      (∃ i, decoder.decode word address = .ok i ∧ i.word = word ∧ i.address = address ∧
        .unrecognized ∉ i.tokens ∧ ∀ s : Spelling, '?' ∉ s.sigil.toList →
          ¬"???".toList <:+: (i.render s).toList)
      (∃ text, decoder.decode word address = .error (.unrecognized word address text) ∧
        "???".toList <:+: text.toList) ∧
    ∀ t, Relation.ReflTransGen (Table.Enters word) root t → (t.find word).isSome := by
  refine ⟨?_, fun t ht => isSome_find_of_enters ht⟩
  obtain ⟨ts, hts⟩ := exists_root_tokens (decoder.site word address)
  by_cases hmark : .unrecognized ∈ ts
  · right
    have hdecode := Decoder.decode_of_unrecognized hts hmark
    refine ⟨⟨_, hdecode, Spelling.isInfix_tokens hmark⟩, ?_⟩
    rintro ⟨i, hi, -⟩
    rw [hdecode] at hi
    cases hi
  · left
    have hdecode := Decoder.decode_of_tokens hts hmark
    refine ⟨⟨_, hdecode, rfl, rfl, hmark, fun s hs hmem => ?_⟩, ?_⟩
    · exact not_mem_render (Symbols.avoids_empty _) hts hmark s hs (hmem.subset (by decide))
    · rintro ⟨text, htext, -⟩
      rw [hdecode] at htext
      cases htext

end Codeword.Fermi
