/-! A loop as a step that goes on with another state or stops with a result. A number that every
round makes smaller bounds the rounds. -/
namespace Linuxemu.Lib.Loop

inductive Next (σ ρ : Type) where
  | go (s : σ)
  | stop (r : ρ)

variable {σ ρ : Type} {step : σ → Next σ ρ}

/-- At most so many rounds; no result if the loop has not stopped by then. -/
def run (step : σ → Next σ ρ) : Nat → σ → Option ρ
  | 0, _ => none
  | n + 1, s =>
    match step s with
    | .stop r => some r
    | .go t => run step n t

theorem run_stop {s : σ} {r : ρ} (stops : step s = .stop r) (n : Nat) :
    run step (n + 1) s = some r := by
  rw [run, stops]

theorem run_go {s t : σ} (goes : step s = .go t) (n : Nat) :
    run step (n + 1) s = run step n t := by
  rw [run, goes]

/-- A loop whose rounds keep `inv` and make `measure` smaller stops. -/
theorem run_ends {inv : σ → Prop} {measure : σ → Nat}
    (smaller : ∀ s t, inv s → step s = .go t → inv t ∧ measure t < measure s)
    {n : Nat} {s : σ} (holds : inv s) (rounds : measure s < n) : ∃ r, run step n s = some r := by
  induction n generalizing s with
  | zero => exact absurd rounds (Nat.not_lt_zero _)
  | succ n ih =>
    cases next : step s with
    | stop r => exact ⟨r, run_stop next n⟩
    | go t =>
      obtain ⟨kept, less⟩ := smaller s t holds next
      rw [run_go next]
      exact ih kept (by omega)

/-- What every round keeps holds when the loop stops. -/
theorem run_post {inv : σ → Prop} {post : ρ → Prop}
    (keeps : ∀ s t, inv s → step s = .go t → inv t)
    (stops : ∀ s r, inv s → step s = .stop r → post r)
    {n : Nat} {s : σ} {r : ρ} (holds : inv s) (ended : run step n s = some r) : post r := by
  induction n generalizing s with
  | zero => cases ended
  | succ n ih =>
    cases next : step s with
    | stop r' =>
      rw [run_stop next] at ended
      cases ended
      exact stops s _ holds next
    | go t =>
      rw [run_go next] at ended
      exact ih (keeps s t holds next) ended

end Linuxemu.Lib.Loop
