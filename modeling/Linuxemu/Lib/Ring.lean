import Mathlib.Data.Nat.ModEq
import Mathlib.Logic.Function.Basic

/-! A ring of slots addressed by counts that only grow, and copying a block of
words one at a time. -/
namespace Linuxemu.Lib

namespace Ring
variable {α : Type}
variable {slots : Nat → α} {size head : Nat} {xs : List α}

/-- The items `xs` stand in the slots from the count `head` on. -/
structure Holds (slots : Nat → α) (size head : Nat) (xs : List α) : Prop where
  fits : xs.length ≤ size
  slot : ∀ j (h : j < xs.length), slots ((head + j) % size) = xs[j]

theorem Holds.nil (slots : Nat → α) (size head : Nat) : Holds slots size head [] :=
  ⟨Nat.zero_le _, fun _ h => absurd h (Nat.not_lt_zero _)⟩

theorem Holds.first {x : α} (h : Holds slots size head (x :: xs)) : slots (head % size) = x :=
  h.slot 0 (Nat.succ_pos _)

theorem Holds.pop {x : α} (h : Holds slots size head (x :: xs)) :
    Holds slots size (head + 1) xs := by
  refine ⟨Nat.le_of_succ_le h.fits, ?_⟩
  intro j hj
  have next := h.slot (j + 1) (Nat.succ_lt_succ hj)
  rwa [show head + (j + 1) = head + 1 + j by omega] at next

/-- Two counts less than a turn apart have different slots. -/
theorem slot_ne {j k : Nat} (jk : j < k) (k_lt : k < size) :
    (head + j) % size ≠ (head + k) % size := by
  intro e
  have cancel : j % size = k % size := Nat.ModEq.add_left_cancel' head e
  rw [Nat.mod_eq_of_lt (by omega), Nat.mod_eq_of_lt k_lt] at cancel
  omega

/-- Writing the slot behind the items changes none of them. -/
theorem Holds.fill (h : Holds slots size head xs) (room : xs.length < size) (x : α) :
    Holds (Function.update slots ((head + xs.length) % size) x) size head xs := by
  refine ⟨h.fits, ?_⟩
  intro j hj
  rw [Function.update_of_ne (slot_ne hj room)]
  exact h.slot j hj

theorem Holds.publish (h : Holds slots size head xs) (room : xs.length < size) :
    Holds slots size head (xs ++ [slots ((head + xs.length) % size)]) := by
  refine ⟨by simpa [Nat.succ_le_iff] using room, ?_⟩
  intro j hj
  rw [List.getElem_append]
  split
  · exact h.slot j (by assumption)
  · obtain rfl : j = xs.length := by
      simp only [List.length_append, List.length_cons, List.length_nil] at hj
      omega
    simp

end Ring

/-! ## Copying -/

section Copy
variable {β : Type} {size : Nat}
variable {source dest : Fin size → β} {k : Nat}

/-- The first `k` words of `dest` are those of `source`. -/
def Copied (dest source : Fin size → β) (k : Nat) : Prop :=
  ∀ j : Fin size, j.val < k → dest j = source j

theorem Copied.zero (dest source : Fin size → β) : Copied dest source 0 :=
  fun _ h => absurd h (Nat.not_lt_zero _)

theorem Copied.word (h : Copied dest source k) (lt : k < size) :
    Copied (Function.update dest ⟨k, lt⟩ (source ⟨k, lt⟩)) source (k + 1) := by
  intro j hj
  by_cases e : j = ⟨k, lt⟩
  · rw [e, Function.update_self]
  · rw [Function.update_of_ne e]
    apply h j
    have : j.val ≠ k := fun v => e (Fin.ext v)
    omega

theorem Copied.done (h : Copied dest source k) (full : ¬ k < size) : dest = source :=
  funext fun j => h j (by have := j.isLt; omega)

end Copy

end Linuxemu.Lib
