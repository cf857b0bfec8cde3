import Mathlib.Algebra.Order.Ring.Int

/-! Integer types of a C implementation: a width and a sign. A value that does not fit is stored
modulo the width. -/
namespace Linuxemu.Lib
variable {value : Int}

structure IntType where
  bits : Nat
  signed : Bool
  positive : 0 < bits

variable {t : IntType}

namespace IntType

def Holds (t : IntType) (value : Int) : Prop :=
  if t.signed then -2 ^ (t.bits - 1) ≤ value ∧ value < 2 ^ (t.bits - 1)
  else 0 ≤ value ∧ value < 2 ^ t.bits

instance (t : IntType) (value : Int) : Decidable (t.Holds value) :=
  inferInstanceAs (Decidable (if t.signed then _ else _))

def store (t : IntType) (value : Int) : Int :=
  if t.signed then value.bmod (2 ^ t.bits) else value % 2 ^ t.bits

theorem store_of_holds (fits : t.Holds value) :
    t.store value = value := by
  obtain ⟨bits, signed, positive⟩ := t
  cases signed with
  | false => exact Int.emod_eq_of_lt fits.1 fits.2
  | true =>
    obtain ⟨low, high⟩ : -2 ^ (bits - 1) ≤ value ∧ value < 2 ^ (bits - 1) := fits
    have twice : ((2 ^ bits : Nat) : Int) = 2 * 2 ^ (bits - 1) := by
      obtain ⟨n, rfl⟩ : ∃ n, bits = n + 1 := ⟨bits - 1, by omega⟩
      rw [Nat.pow_succ, Nat.add_sub_cancel]
      push_cast
      rw [Int.mul_comm]
    apply Int.bmod_eq_of_le
    · rw [twice]
      omega
    · rw [twice]
      omega

theorem store_store_add (t : IntType) (a b : Int) : t.store (t.store a + b) = t.store (a + b) := by
  obtain ⟨bits, signed, -⟩ := t
  cases signed with
  | false => exact Int.emod_add_emod ..
  | true => exact Int.bmod_add_bmod

theorem store_add_store (t : IntType) (a b : Int) : t.store (a + t.store b) = t.store (a + b) := by
  rw [Int.add_comm, store_store_add, Int.add_comm]

/-- Between two values that fit, everything does. -/
theorem Holds.between {low high : Int} (below : t.Holds low) (above : t.Holds high)
    (least : low ≤ value) (most : value ≤ high) : t.Holds value := by
  unfold Holds at *
  split at below
  · rw [if_pos ‹_›] at above ⊢
    omega
  · rw [if_neg ‹_›] at above ⊢
    omega

/-- The numbers from 0 to `2 ^ 31 - 1` fit every type of 32 bits or more. -/
theorem holds_int32 (wide : 32 ≤ t.bits) (low : 0 ≤ value) (high : value < 2 ^ 31) :
    t.Holds value := by
  unfold Holds
  split
  · have : (2 : Int) ^ 31 ≤ 2 ^ (t.bits - 1) := pow_le_pow_right₀ (by decide) (by omega)
    omega
  · have : (2 : Int) ^ 31 ≤ 2 ^ t.bits := pow_le_pow_right₀ (by decide) (by omega)
    omega

end IntType
end Linuxemu.Lib
