import Codeword.Proofs.Bitstream.Fields

namespace Codeword

namespace Code

variable {α : Type} {c : Code α}

class ReadOnly (c : Code α) : Prop where
  write_value : ∀ v w, (c.write v w).2.1 = v

theorem ReadOnly.eq_of_write {v v' : α} {w w' : BitWriter} {result : Except StreamError Unit}
    (h : ReadOnly c) (hwrite : c.write v w = (result, v', w')) : v' = v := by
  have hvalue := h.write_value v w
  rwa [hwrite] at hvalue

theorem readOnly_ofFunctions {read : BitReader → BitReader.Result α}
    {write : BitWriter → α → BitWriter.Result} : ReadOnly (ofFunctions read write) where
  write_value _ _ := rfl

/-- A flag is a number of one bit: it is passed on as one and set from it, unless this fails. -/
theorem flag_step (d : Direction) (v : Bool) (st : d.Stream) :
    flag.step d v st =
      match (u 1).step d (if v then 1 else 0) st with
      | (.ok _, bit, st) => (.ok (), bit != 0, st)
      | (.error e, _, st) => (.error e, v, st) := by
  cases d with
  | decode =>
      obtain ⟨position, rest⟩ := st
      rcases rest with _ | ⟨b, rest⟩
      · rfl
      · cases b <;> rfl
  | encode => cases v <;> rfl

theorem readOnly_flag : ReadOnly flag where
  write_value v w := by
    have hstep := flag_step .encode v w
    change (flag.step .encode v w).2.1 = v
    cases hu : (u 1).step .encode (if v then 1 else 0) w with
    | mk result p =>
        obtain ⟨bit, w'⟩ := p
        have hbit : bit = if v then 1 else 0 := readOnly_ofFunctions.eq_of_write hu
        rw [hu] at hstep
        rw [hstep, hbit]
        cases result with
        | error e => rfl
        | ok _ => cases v <;> rfl

theorem readOnly_infer [DecidableEq α] [Number α] (value : α) : ReadOnly (infer value) where
  write_value v w := by
    rw [infer]
    dsimp only
    split <;> rfl

theorem readOnly_sized [Inhabited α] (n : Nat) : ReadOnly (sized n : Code (List α)) where
  write_value xs w := by
    rw [sized]
    dsimp only
    split <;> rfl

theorem ReadOnly.each (h : ReadOnly c) : ReadOnly (each c) where
  write_value xs w := by
    change (eachStep c.write xs w).2.1 = xs
    induction xs generalizing w with
    | nil => rfl
    | cons x xs ih =>
        rw [eachStep]
        split
        next hwrite => rw [h.eq_of_write hwrite]
        next hwrite =>
          rw [h.eq_of_write hwrite]
          exact congrArg (x :: ·) (ih _)

theorem readOnly_elementary : Elementary fun _ c => ReadOnly c where
  u _ := readOnly_ofFunctions
  ue := readOnly_ofFunctions
  se := readOnly_ofFunctions
  flag := readOnly_flag
  infer := readOnly_infer
  sized := readOnly_sized
  each := ReadOnly.each

end Code

open Code

theorem Format.Every.readOnly {σ : Type} {f : Format σ} (h : f.Every fun _ c => ReadOnly c) :
    ReadOnly f.code where
  write_value s w := by
    change (f.step .encode s w).2.1 = s
    induction h generalizing w with
    | done | refuse => rfl
    | @field α code place next hcode hplace _ ih =>
        rw [step]
        split
        next hwrite =>
          rw [hcode.eq_of_write hwrite]
          exact hplace s
        next hwrite =>
          rw [hcode.eq_of_write hwrite, hplace]
          exact ih _ _

end Codeword
