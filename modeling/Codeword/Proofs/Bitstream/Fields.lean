import Codeword.Proofs.Bitstream.Format

namespace Codeword

/-- A property that the codes of single values have, and those of lists if their elements' have
it. -/
structure Code.Elementary (P : (α : Type) → Code α → Prop) : Prop where
  u : ∀ n, P UInt32 (.u n)
  ue : P UInt32 .ue
  se : P Int32 .se
  flag : P Bool .flag
  infer : ∀ {α : Type} [DecidableEq α] [Number α] (value : α), P α (.infer value)
  sized : ∀ {α : Type} [Inhabited α] (n : Nat), P (List α) (.sized n)
  each : ∀ {α : Type} {c : Code α}, P α c → P (List α) (.each c)

/-- All fields have codes with the property, whatever the values before them are, and are set where
they are taken from. -/
inductive Format.Every {σ : Type} (P : (α : Type) → Code α → Prop) : Format σ → Prop
  | done : Every P done
  | refuse {e : StreamError} : Every P (refuse e)
  | field {α : Type} {code : Code α} {place : Place σ α} {next : α → Format σ} :
      P α code → (∀ s, place.set (place.get s) s = s) → (∀ v, Every P (next v)) →
        Every P (field code place next)

theorem Code.lawful_elementary : Elementary fun _ c => c.Lawful where
  u _ := inferInstance
  ue := inferInstance
  se := inferInstance
  flag := inferInstance
  infer _ := inferInstance
  sized _ := inferInstance
  each _ := inferInstance

theorem Format.Every.lawful {σ : Type} {f : Format σ} (h : f.Every fun _ c => c.Lawful) :
    f.Lawful := by
  induction h with
  | done => exact .done
  | refuse => exact .refuse
  | field hcode hplace _ ih => exact .field hplace ih

end Codeword
