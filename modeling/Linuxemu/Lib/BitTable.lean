import Mathlib.Data.List.Basic

/-! Sets of bits, and their translation by a table: every entry whose bits are met adds bits to
the result. -/
namespace Linuxemu.Lib.BitTable

variable {w : Nat}
variable {table : List (BitVec w × BitVec w)} {x y value mask : BitVec w}

def Within (x y : BitVec w) : Prop := x &&& y = x

instance (x y : BitVec w) : Decidable (Within x y) := inferInstanceAs (Decidable (_ = _))

def meets (x y : BitVec w) : Bool := x &&& y != 0

theorem within_iff :
    Within x y ↔ ∀ i, x.getLsbD i = true → y.getLsbD i = true := by
  constructor
  · intro within i set
    rw [← show x &&& y = x from within, BitVec.getLsbD_and, Bool.and_eq_true] at set
    exact set.2
  · intro subset
    apply BitVec.eq_of_getLsbD_eq
    intro i _
    rw [BitVec.getLsbD_and]
    cases set : x.getLsbD i with
    | false => rfl
    | true => rw [subset i set, Bool.and_self]

theorem exists_bit (nonzero : x ≠ 0) : ∃ i, x.getLsbD i = true := by
  by_contra none
  apply nonzero
  apply BitVec.eq_of_getLsbD_eq
  intro i _
  simpa using not_exists.mp none i

theorem meets_iff :
    meets x y = true ↔ ∃ i, x.getLsbD i = true ∧ y.getLsbD i = true := by
  rw [meets, bne_iff_ne]
  constructor
  · intro nonzero
    obtain ⟨i, set⟩ := exists_bit nonzero
    rw [BitVec.getLsbD_and, Bool.and_eq_true] at set
    exact ⟨i, set⟩
  · rintro ⟨i, left, right⟩ zero
    have set := congrArg (fun z => z.getLsbD i) zero
    simp [left, right] at set

theorem Within.meets (within : Within x y) (met : meets x mask = true) :
    BitTable.meets y mask = true := by
  obtain ⟨i, left, right⟩ := meets_iff.mp met
  exact meets_iff.mpr ⟨i, within_iff.mp within i left, right⟩

theorem Within.or_left (within : Within x y) (z : BitVec w) :
    Within x (y ||| z) := by
  rw [within_iff] at *
  intro i set
  rw [BitVec.getLsbD_or, within i set, Bool.true_or]

theorem Within.or_right {z : BitVec w} (within : Within x z) (y : BitVec w) :
    Within x (y ||| z) := by
  rw [BitVec.or_comm]
  exact within.or_left y

theorem meets_or :
    meets (x ||| y) mask = true ↔ meets x mask = true ∨ meets y mask = true := by
  simp only [meets_iff, BitVec.getLsbD_or, Bool.or_eq_true, or_and_right, exists_or]

/-- The entries in order, each adding its bits. -/
def translate (table : List (BitVec w × BitVec w)) (value : BitVec w) : BitVec w :=
  table.foldl (fun result entry => if meets value entry.1 then result ||| entry.2 else result) 0

theorem getLsbD_translate {i : Nat} :
    (translate table value).getLsbD i = true ↔
      ∃ entry ∈ table, meets value entry.1 = true ∧ entry.2.getLsbD i = true := by
  have added (start : BitVec w) :
      (table.foldl (fun result entry => if meets value entry.1 then result ||| entry.2 else result)
        start).getLsbD i = true ↔
      start.getLsbD i = true ∨
        ∃ entry ∈ table, meets value entry.1 = true ∧ entry.2.getLsbD i = true := by
    induction table generalizing start with
    | nil => simp
    | cons entry table ih =>
      rw [List.foldl_cons, ih]
      by_cases met : meets value entry.1 = true
      · simp [met, or_assoc]
      · simp [met]
  rw [translate, added]
  simp

theorem translate_within {bound : BitVec w} :
    Within (translate table value) bound ↔
      ∀ entry ∈ table, meets value entry.1 = true → Within entry.2 bound := by
  simp only [within_iff, getLsbD_translate]
  constructor
  · intro all entry member met i set
    exact all i ⟨entry, member, met, set⟩
  · rintro all i ⟨entry, member, met, set⟩
    exact all entry member met i set

theorem meets_translate :
    meets (translate table value) mask = true ↔
      ∃ entry ∈ table, meets value entry.1 = true ∧ meets entry.2 mask = true := by
  simp only [meets_iff, getLsbD_translate]
  constructor
  · rintro ⟨i, ⟨entry, member, met, left⟩, right⟩
    exact ⟨entry, member, met, i, left, right⟩
  · rintro ⟨entry, member, met, i, left, right⟩
    exact ⟨i, ⟨entry, member, met, left⟩, right⟩

end Linuxemu.Lib.BitTable
