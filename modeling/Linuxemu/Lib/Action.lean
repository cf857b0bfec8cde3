import Linuxemu.Lib.Bytes
import Mathlib.Logic.Function.Basic

/-! One instruction as a program over memory: loads and stores of bytes, and an end. Nothing is
known of an instruction but the bytes it asks for, so two memories that agree on these cannot be
told apart by it. -/
namespace Linuxemu.Lib
variable {α : Type}
variable {f : Memory → Memory} {a n b : Nat}

inductive Action (α : Type) where
  | done (result : α)
  | load (a : Nat) (next : UInt8 → Action α)
  | store (a : Nat) (value : UInt8) (next : Action α)

/-- The bytes that may be loaded and those that may be stored to. -/
structure Rights where
  readable : Nat → Bool
  writable : Nat → Bool

namespace Action

/-- The first access that is not allowed ends the instruction with its address; what was stored
before it stays. -/
def run (r : Rights) : Action α → Memory → Except Nat α × Memory
  | .done result, m => (.ok result, m)
  | .load a next, m => if r.readable a then (next (m a)).run r m else (.error a, m)
  | .store a value next, m =>
    if r.writable a then next.run r (Function.update m a value) else (.error a, m)

/-- No byte that the instruction gets at is `hidden`. -/
def Avoids (hidden : Nat → Prop) (r : Rights) : Action α → Memory → Prop
  | .done _, _ => True
  | .load a next, m => r.readable a = true → ¬hidden a ∧ (next (m a)).Avoids hidden r m
  | .store a value next, m =>
    r.writable a = true → ¬hidden a ∧ next.Avoids hidden r (Function.update m a value)

end Action

/-! ## Changes of a range -/

namespace Memory

/-- A change of memory that works on `n` bytes from `a` on, and on what it finds there. -/
structure Touches (f : Memory → Memory) (a n : Nat) : Prop where
  outside : ∀ m q, q < a ∨ a + n ≤ q → f m q = m q
  inside : ∀ m m', SameOn m m' a n → SameOn (f m) (f m') a n

theorem Touches.comp {g : Memory → Memory} (second : Touches g a n) (first : Touches f a n) :
    Touches (fun m => g (f m)) a n where
  outside m q other := (second.outside (f m) q other).trans (first.outside m q other)
  inside m m' same := second.inside _ _ (first.inside m m' same)

/-- A change that writes `k` bytes from `b` on, which do not depend on the memory. -/
theorem touches_of_const (written : Nat → UInt8) {k : Nat}
    (apply : ∀ m q, f m q = if b ≤ q ∧ q < b + k then written q else m q) (low : a ≤ b)
    (high : b + k ≤ a + n) : Touches f a n where
  outside m q other := by rw [apply, if_neg (by omega)]
  inside m m' same q above below := by rw [apply, apply, same q above below]

theorem touches_storeWords {ws : List UInt32} (low : a ≤ b) (high : b + 4 * ws.length ≤ a + n) :
    Touches (·.storeWords b ws) a n :=
  touches_of_const _ (fun _ _ => rfl) low high

theorem touches_storeWord {w : UInt32} (low : a ≤ b) (high : b + 4 ≤ a + n) :
    Touches (·.storeWord b w) a n :=
  touches_storeWords low (by simpa using high)

theorem touches_clear {k : Nat} (low : a ≤ b) (high : b + k ≤ a + n) :
    Touches (·.clear b k) a n :=
  touches_of_const _ (fun _ _ => rfl) low high

end Memory

/-! ## Views -/

/-- A view of memory that changes `hidden` bytes only, and these to what is its own. -/
structure Masks (hidden : Nat → Prop) (view : Memory → Memory) : Prop where
  shown : ∀ m q, ¬hidden q → view m q = m q
  fixed : ∀ m m' q, hidden q → view m q = view m' q

namespace Masks
variable {hidden : Nat → Prop} {view : Memory → Memory}

/-- A change of a range without hidden bytes can be made under the view. -/
theorem commutes (masks : Masks hidden view) (touches : Memory.Touches f a n)
    (clear : ∀ q, a ≤ q → q < a + n → ¬hidden q) (m : Memory) :
    view (f m) = f (view m) := by
  have same : Memory.SameOn m (view m) a n := fun q low high =>
    masks.shown m q (clear q low high)
  funext q
  by_cases within : a ≤ q ∧ q < a + n
  · rw [masks.shown _ q (clear q within.1 within.2),
      touches.inside m (view m) same q within.1 within.2]
  · rw [touches.outside (view m) q (by omega)]
    by_cases dark : hidden q
    · exact masks.fixed (f m) m q dark
    · rw [masks.shown _ q dark, masks.shown _ q dark, touches.outside m q (by omega)]

theorem update (masks : Masks hidden view) (clear : ¬hidden a) (value : UInt8) (m : Memory) :
    view (Function.update m a value) = Function.update (view m) a value := by
  have touches : Memory.Touches (fun m => Function.update m a value) a 1 :=
    ⟨fun m q other => Function.update_of_ne (by omega) value m, fun m m' _ q low high => by
      obtain rfl : q = a := by omega
      rw [Function.update_self, Function.update_self]⟩
  refine masks.commutes touches (fun q low high => ?_) m
  obtain rfl : q = a := by omega
  exact clear

/-- An instruction that gets at no hidden byte does the same under the view, and what is hidden
stays as it is. -/
theorem run (masks : Masks hidden view) (r : Rights) (action : Action α) (m : Memory)
    (avoids : action.Avoids hidden r (view m)) :
    action.run r (view m) = ((action.run r m).1, view (action.run r m).2) ∧
      ∀ q, hidden q → (action.run r m).2 q = m q := by
  induction action generalizing m with
  | done result => exact ⟨rfl, fun _ _ => rfl⟩
  | load a next ih =>
    unfold Action.run
    by_cases readable : r.readable a = true
    · obtain ⟨clear, rest⟩ := avoids readable
      rw [masks.shown m a clear] at rest
      rw [if_pos readable, if_pos readable, masks.shown m a clear]
      exact ih (m a) m rest
    · rw [if_neg readable, if_neg readable]
      exact ⟨rfl, fun _ _ => rfl⟩
  | store a value next ih =>
    unfold Action.run
    by_cases writable : r.writable a = true
    · obtain ⟨clear, rest⟩ := avoids writable
      rw [← masks.update clear value m] at rest
      rw [if_pos writable, if_pos writable, ← masks.update clear value m]
      obtain ⟨same, kept⟩ := ih (Function.update m a value) rest
      refine ⟨same, fun q dark => (kept q dark).trans (Function.update_of_ne ?_ value m)⟩
      rintro rfl
      exact clear dark
    · rw [if_neg writable, if_neg writable]
      exact ⟨rfl, fun _ _ => rfl⟩

/-- One byte held at a value. -/
theorem pin (q : Nat) (value : UInt8) : Masks (· = q) (Function.update · q value) where
  shown m q' other := Function.update_of_ne other value m
  fixed m m' q' same := by rw [same, Function.update_self, Function.update_self]

end Masks
end Linuxemu.Lib
