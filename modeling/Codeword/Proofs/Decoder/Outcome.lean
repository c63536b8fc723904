import Codeword.Decoder

namespace Codeword.Decoder

variable {d : Decoder} {word address : Word} {ts : List Token}

def site (d : Decoder) (word address : Word) : Site := { word, address, symbols := d.symbols }

theorem decode_eq (d : Decoder) (word address : Word) :
    d.decode word address = match d.isa.root.tokens (d.site word address) with
      | .error e => .error e
      | .ok ts =>
        if .unrecognized ∈ ts then .error (.unrecognized word address (Spelling.tokens {} ts))
        else .ok { address, word, tokens := ts } := by
  rw [decode]
  change (d.isa.root.tokens (d.site word address) >>= _) = _
  cases d.isa.root.tokens (d.site word address) with
  | error e => rfl
  | ok ts =>
      by_cases hmark : .unrecognized ∈ ts <;>
        simp [Instruction.isUnrecognized, hmark, Instruction.render, bind, Except.bind, pure,
          Except.pure, throw, throwThe, MonadExceptOf.throw]

theorem decode_of_tokens (h : d.isa.root.tokens (d.site word address) = .ok ts)
    (hknown : .unrecognized ∉ ts) :
    d.decode word address = .ok { address, word, tokens := ts } := by
  rw [decode_eq, h]
  exact if_neg hknown

theorem decode_of_unrecognized (h : d.isa.root.tokens (d.site word address) = .ok ts)
    (hmark : .unrecognized ∈ ts) :
    d.decode word address =
      .error (.unrecognized word address (Spelling.tokens {} ts)) := by
  rw [decode_eq, h]
  exact if_pos hmark

theorem decode_of_error {e : DecodeError}
    (h : d.isa.root.tokens (d.site word address) = .error e) :
    d.decode word address = .error e := by
  rw [decode_eq, h]

theorem decode_eq_ok {i : Instruction} : d.decode word address = .ok i ↔
    ∃ ts, d.isa.root.tokens (d.site word address) = .ok ts ∧ .unrecognized ∉ ts ∧
      i = { address, word, tokens := ts } := by
  constructor
  · intro h
    cases hts : d.isa.root.tokens (d.site word address) with
    | error e =>
        rw [decode_of_error hts] at h
        cases h
    | ok ts =>
        by_cases hmark : .unrecognized ∈ ts
        · rw [decode_of_unrecognized hts hmark] at h
          cases h
        · rw [decode_of_tokens hts hmark] at h
          cases h
          exact ⟨ts, rfl, hmark, rfl⟩
  · rintro ⟨ts, hts, hknown, rfl⟩
    exact decode_of_tokens hts hknown

end Codeword.Decoder
