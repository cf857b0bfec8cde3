import Linuxemu.Lib.Words

/-! Memory as bytes by address: runs of 32-bit words stored in it and read back. -/
namespace Linuxemu.Lib

abbrev Memory := Nat → UInt8

namespace Memory

def word (m : Memory) (a : Nat) : UInt32 := wordOf (m a) (m (a + 1)) (m (a + 2)) (m (a + 3))

/-- Store words one behind the other from `a` on. -/
def storeWords (m : Memory) (a : Nat) (ws : List UInt32) : Memory :=
  fun q =>
    if a ≤ q ∧ q < a + 4 * ws.length then byteOf (ws.getD ((q - a) / 4) 0) ((q - a) % 4) else m q

def storeBytes (m : Memory) (a : Nat) (bs : List UInt8) : Memory :=
  fun q => if a ≤ q ∧ q < a + bs.length then bs.getD (q - a) 0 else m q

def storeWord (m : Memory) (a : Nat) (w : UInt32) : Memory := m.storeWords a [w]

/-- `memset` with zero. -/
def clear (m : Memory) (a n : Nat) : Memory := fun q => if a ≤ q ∧ q < a + n then 0 else m q

/-- `n` bytes from `a` on are as they were. -/
def SameOn (m m' : Memory) (a n : Nat) : Prop := ∀ q, a ≤ q → q < a + n → m' q = m q

variable {a q i b : Nat} {ws : List UInt32} {m : Memory}

theorem SameOn.word {m' : Memory} {n : Nat} (h : SameOn m m' a n) (lo : a ≤ b)
    (hi : b + 4 ≤ a + n) : m'.word b = m.word b := by
  rw [Memory.word, Memory.word, h b (by omega) (by omega), h (b + 1) (by omega) (by omega),
    h (b + 2) (by omega) (by omega), h (b + 3) (by omega) (by omega)]

/-! ## Stores -/

theorem storeWords_outside (m : Memory) (h : q < a ∨ a + 4 * ws.length ≤ q) :
    m.storeWords a ws q = m q := by
  apply if_neg
  omega

theorem storeWord_outside (m : Memory) {w : UInt32} (h : q < a ∨ a + 4 ≤ q) :
    m.storeWord a w q = m q :=
  m.storeWords_outside (by simpa using h)

theorem clear_outside (m : Memory) {n : Nat} (h : q < a ∨ a + n ≤ q) : m.clear a n q = m q := by
  apply if_neg
  omega

theorem storeBytes_outside (m : Memory) {bs : List UInt8} (h : q < a ∨ a + bs.length ≤ q) :
    m.storeBytes a bs q = m q := by
  apply if_neg
  omega

theorem storeBytes_byte (m : Memory) (a : Nat) (bs : List UInt8) (h : i < bs.length) :
    m.storeBytes a bs (a + i) = bs.getD i 0 := by
  rw [storeBytes, if_pos (by omega), Nat.add_sub_cancel_left]

theorem storeWords_byte (m : Memory) (a : Nat) (ws : List UInt32) {k : Nat} (h : i < ws.length)
    (small : k < 4) :
    m.storeWords a ws (a + 4 * i + k) = byteOf (ws.getD i 0) k := by
  rw [storeWords, if_pos (by omega)]
  have index : (a + 4 * i + k - a) / 4 = i := by omega
  have rest : (a + 4 * i + k - a) % 4 = k := by omega
  rw [index, rest]

/-- A stored word reads back. -/
theorem storeWords_word (m : Memory) (a : Nat) (ws : List UInt32) (h : i < ws.length) :
    (m.storeWords a ws).word (a + 4 * i) = ws.getD i 0 := by
  have first := m.storeWords_byte a ws h (k := 0) (by omega)
  rw [Nat.add_zero] at first
  rw [word, first, storeWords_byte _ _ _ h (by omega), storeWords_byte _ _ _ h (by omega),
    storeWords_byte _ _ _ h (by omega), wordOf_byteOf]

theorem storeWord_word (m : Memory) (a : Nat) (w : UInt32) : (m.storeWord a w).word a = w :=
  m.storeWords_word a [w] (i := 0) (by simp)

theorem storeWords_first (m : Memory) (a : Nat) (v w : UInt32) : (m.storeWords a [v, w]).word a = v :=
  m.storeWords_word a [v, w] (i := 0) (by simp)

theorem storeWords_second (m : Memory) (a : Nat) (v w : UInt32) :
    (m.storeWords a [v, w]).word (a + 4) = w :=
  m.storeWords_word a [v, w] (i := 1) (by simp)

/-- A word apart from a run of stores is as it was. -/
theorem storeWords_apart (m : Memory) (h : b + 4 ≤ a ∨ a + 4 * ws.length ≤ b) :
    (m.storeWords a ws).word b = m.word b := by
  have same : SameOn m (m.storeWords a ws) b 4 := fun q _ _ => m.storeWords_outside (by omega)
  exact same.word (Nat.le_refl b) (Nat.le_refl _)

theorem storeWord_apart (m : Memory) {w : UInt32} (h : b + 4 ≤ a ∨ a + 4 ≤ b) :
    (m.storeWord a w).word b = m.word b :=
  m.storeWords_apart (by simpa using h)

/-! ## Runs of words -/

/-- These words stand one behind the other from `a` on. -/
def WordsAt (m : Memory) (a : Nat) : List UInt32 → Prop
  | [] => True
  | w :: ws => m.word a = w ∧ WordsAt m (a + 4) ws

theorem WordsAt.right {xs ys : List UInt32} (h : m.WordsAt a (xs ++ ys)) :
    m.WordsAt (a + 4 * xs.length) ys := by
  induction xs generalizing a with
  | nil => exact h
  | cons x xs ih =>
    have rest := ih h.2
    rw [List.length_cons, Nat.mul_add, Nat.mul_one, ← Nat.add_assoc, Nat.add_right_comm]
    exact rest

theorem WordsAt.get (h : m.WordsAt a ws) (small : i < ws.length) :
    m.word (a + 4 * i) = ws.getD i 0 := by
  induction ws generalizing a i with
  | nil => cases small
  | cons w ws ih =>
    cases i with
    | zero => exact h.1
    | succ i =>
      have next := ih h.2 (Nat.lt_of_succ_lt_succ small)
      rw [List.getD_cons_succ, ← next, Nat.mul_add, Nat.mul_one, ← Nat.add_assoc,
        Nat.add_right_comm]

theorem storeWords_wordsAt (m : Memory) (a : Nat) (ws : List UInt32) :
    (m.storeWords a ws).WordsAt a ws := by
  -- a run that ends where the stored one ends
  have run (ys : List UInt32) (i : Nat) (suffix : ws.drop i = ys) :
      (m.storeWords a ws).WordsAt (a + 4 * i) ys := by
    induction ys generalizing i with
    | nil => trivial
    | cons y ys ih =>
      have small : i < ws.length := by
        by_contra large
        rw [List.drop_eq_nil_of_le (by omega)] at suffix
        cases suffix
      rw [List.drop_eq_getElem_cons small, List.cons.injEq] at suffix
      refine ⟨?_, ih (i + 1) suffix.2⟩
      rw [storeWords_word m a ws small, List.getD_eq_getElem _ _ small, suffix.1]
  exact run ws 0 rfl

end Memory

end Linuxemu.Lib
