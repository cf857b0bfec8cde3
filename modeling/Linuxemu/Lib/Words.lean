import Mathlib.Data.Nat.Bitwise

/-! Bytes kept in several regions, the little-endian 32-bit words in them, and
rounding to a power of two by masking. -/
namespace Linuxemu.Lib

/-- A byte position: an index in one of the regions. -/
structure Place (ρ : Type) where
  region : ρ
  index : Nat
  deriving DecidableEq

abbrev Store (ρ : Type) := Place ρ → UInt8

def Place.plus {ρ : Type} (p : Place ρ) (n : Nat) : Place ρ := ⟨p.region, p.index + n⟩

/-- The word with these bytes, the lowest first. -/
def wordOf (b₀ b₁ b₂ b₃ : UInt8) : UInt32 :=
  UInt32.ofNat (b₀.toNat + 256 * b₁.toNat + 65536 * b₂.toNat + 16777216 * b₃.toNat)

def byteOf (w : UInt32) (k : Nat) : UInt8 := UInt8.ofNat (w.toNat / 256 ^ k)

theorem wordOf_toNat (b₀ b₁ b₂ b₃ : UInt8) : (wordOf b₀ b₁ b₂ b₃).toNat =
    b₀.toNat + 256 * b₁.toNat + 65536 * b₂.toNat + 16777216 * b₃.toNat := by
  have := b₀.toNat_lt
  have := b₁.toNat_lt
  have := b₂.toNat_lt
  have := b₃.toNat_lt
  rw [wordOf, UInt32.toNat_ofNat']
  omega

theorem wordOf_byteOf (w : UInt32) :
    wordOf (byteOf w 0) (byteOf w 1) (byteOf w 2) (byteOf w 3) = w := by
  have := w.toNat_lt
  apply UInt32.toNat.inj
  rw [wordOf_toNat]
  simp only [byteOf, UInt8.toNat_ofNat']
  omega

theorem wordOf_low (b₀ b₁ b₂ b₃ : UInt8) : (wordOf b₀ b₁ b₂ b₃).toNat % 256 = b₀.toNat := by
  have := b₀.toNat_lt
  rw [wordOf_toNat]
  omega

theorem byteOf_wordOf (b : Nat → UInt8) {k : Nat} (small : k < 4) :
    byteOf (wordOf (b 0) (b 1) (b 2) (b 3)) k = b k := by
  have := (b 0).toNat_lt
  have := (b 1).toNat_lt
  have := (b 2).toNat_lt
  have := (b 3).toNat_lt
  apply UInt8.toNat.inj
  rw [byteOf, UInt8.toNat_ofNat', wordOf_toNat]
  have cases : k = 0 ∨ k = 1 ∨ k = 2 ∨ k = 3 := by omega
  obtain rfl | rfl | rfl | rfl := cases <;> omega

section Store
variable {ρ : Type}
variable {p q : Place ρ}

def wordAt (s : Store ρ) (p : Place ρ) : UInt32 :=
  wordOf (s p) (s (p.plus 1)) (s (p.plus 2)) (s (p.plus 3))

theorem wordAt_low (s : Store ρ) (p : Place ρ) : (wordAt s p).toNat % 256 = (s p).toNat :=
  wordOf_low _ _ _ _

theorem wordAt_congr {s t : Store ρ} (same : ∀ k, k < 4 → s (p.plus k) = t (q.plus k)) :
    wordAt s p = wordAt t q := by
  have first := same 0 (by omega)
  simp only [Place.plus, Nat.add_zero] at first
  rw [wordAt, wordAt, first, same 1 (by omega), same 2 (by omega), same 3 (by omega)]

variable [DecidableEq ρ]

def setByte (s : Store ρ) (p : Place ρ) (v : UInt8) : Store ρ :=
  fun q => if q = p then v else s q

/-- The word at `p` covers `q`. -/
def Place.covers (p q : Place ρ) : Bool :=
  decide (q.region = p.region) && decide (p.index ≤ q.index) && decide (q.index < p.index + 4)

def setWord (s : Store ρ) (p : Place ρ) (w : UInt32) : Store ρ :=
  fun q => if p.covers q then byteOf w (q.index - p.index) else s q

theorem Place.covers_iff :
    p.covers q = true ↔ q.region = p.region ∧ p.index ≤ q.index ∧ q.index < p.index + 4 := by
  simp [Place.covers, and_assoc]

theorem wordAt_setWord (s : Store ρ) (p : Place ρ) (w : UInt32) :
    wordAt (setWord s p w) p = w := by
  have covered (k : Nat) (small : k < 4) : setWord s p w (p.plus k) = byteOf w k := by
    have : p.covers (p.plus k) = true := Place.covers_iff.mpr ⟨rfl, by simp [Place.plus], by
      simp only [Place.plus]; omega⟩
    rw [setWord, if_pos this]
    simp [Place.plus]
  have first := covered 0 (by omega)
  simp only [Place.plus, Nat.add_zero] at first
  rw [wordAt, first, covered 1 (by omega), covered 2 (by omega), covered 3 (by omega),
    wordOf_byteOf]

/-- Aligned words are equal or apart. -/
theorem wordAt_setWord_ne (s : Store ρ) (w : UInt32) (hp : p.index % 4 = 0) (hq : q.index % 4 = 0)
    (ne : q ≠ p) : wordAt (setWord s p w) q = wordAt s q := by
  have outside (k : Nat) (small : k < 4) : setWord s p w (q.plus k) = s (q.plus k) := by
    have : ¬ p.covers (q.plus k) = true := by
      rw [Place.covers_iff]
      rintro ⟨region, lo, hi⟩
      simp only [Place.plus] at region lo hi
      apply ne
      cases p
      cases q
      simp only [Place.mk.injEq] at *
      exact ⟨region, by omega⟩
    rw [setWord, if_neg this]
  have first := outside 0 (by omega)
  simp only [Place.plus, Nat.add_zero] at first
  rw [wordAt, first, outside 1 (by omega), outside 2 (by omega), outside 3 (by omega), wordAt]

theorem setWord_outside (s : Store ρ) (w : UInt32) (h : p.covers q = false) :
    setWord s p w q = s q := by
  simp [setWord, h]

/-- Putting back the word that was there undoes a store. -/
theorem setWord_back (s : Store ρ) (p : Place ρ) (w : UInt32) :
    setWord (setWord s p w) p (wordAt s p) = s := by
  funext q
  cases covered : p.covers q with
  | false => rw [setWord_outside _ _ covered, setWord_outside _ _ covered]
  | true =>
    obtain ⟨region, low, high⟩ := Place.covers_iff.mp covered
    have there : p.plus (q.index - p.index) = q := by
      cases q
      simp only [Place.plus, Place.mk.injEq] at *
      exact ⟨region.symm, by omega⟩
    rw [setWord, if_pos covered]
    exact (byteOf_wordOf (fun k => s (p.plus k)) (by omega)).trans (congrArg s there)

end Store

/-- Clearing the low `k` bits of a `w`-bit number. -/
theorem and_high_mask {x k w : Nat} (fits : x < 2 ^ w) (le : k ≤ w) :
    x &&& (2 ^ w - 2 ^ k) = x / 2 ^ k * 2 ^ k := by
  have low : 2 ^ k ≤ 2 ^ w := Nat.pow_le_pow_right (by omega) le
  have positive : 0 < 2 ^ k := Nat.two_pow_pos k
  apply Nat.eq_of_testBit_eq
  intro i
  have mask : 2 ^ w - 2 ^ k = 2 ^ w - (2 ^ k - 1 + 1) := by omega
  rw [Nat.testBit_and, mask, Nat.testBit_two_pow_sub_succ (by omega), Nat.testBit_two_pow_sub_one,
    ← Nat.shiftRight_eq_div_pow, ← Nat.shiftLeft_eq, Nat.testBit_shiftLeft, Nat.testBit_shiftRight]
  by_cases high : k ≤ i
  · have index : k + (i - k) = i := by omega
    by_cases inside : i < w
    · simp [high, inside, index]
    · have gone : x.testBit i = false :=
        Nat.testBit_lt_two_pow (Nat.lt_of_lt_of_le fits (Nat.pow_le_pow_right (by omega) (by omega)))
      simp [high, index, gone]
  · have : i < k := by omega
    simp [high, this]

end Linuxemu.Lib
