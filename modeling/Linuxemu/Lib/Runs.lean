import Mathlib.Logic.Basic

/-! Runs of a labelled transition system whose steps all meet a condition on the
state before the step and its label. -/
namespace Linuxemu.Lib
variable {σ ε : Type}

inductive Run (step : σ → ε → σ → Prop) (may : σ → ε → Prop) (start : σ → Prop) : σ → Prop
  | start {s : σ} : start s → Run step may start s
  | next {s t : σ} {e : ε} : Run step may start s → may s e → step s e t → Run step may start t

/-- What holds at the start and is kept by every step that may be taken holds of every
state reached. -/
theorem Run.invariant {step : σ → ε → σ → Prop} {may : σ → ε → Prop} {start : σ → Prop}
    {s : σ} (run : Run step may start s) (inv : σ → Prop) (base : ∀ s, start s → inv s)
    (keep : ∀ s e t, inv s → may s e → step s e t → inv t) : inv s := by
  induction run with
  | start first => exact base _ first
  | next _ allowed taken ih => exact keep _ _ _ ih allowed taken

end Linuxemu.Lib
