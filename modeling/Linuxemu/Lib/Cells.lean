import Mathlib.Data.List.Basic

/-! An array that loops write in place, together with the indices they wrote.
The loops are the ones of an insertion sort and of an in-place compaction; each
is compared with the list it leaves in the cells below a count. -/
namespace Linuxemu.Lib

structure Cells (α : Type) where
  get : Nat → α
  written : List Nat

namespace Cells
variable {α : Type}
variable {c d : Cells α} {n i j k m : Nat} {xs : List α}

def write (c : Cells α) (i : Nat) (x : α) : Cells α :=
  ⟨fun j => if j = i then x else c.get j, i :: c.written⟩

/-- The cells below `n`, in order. -/
def front (c : Cells α) (n : Nat) : List α := (List.range n).map c.get

/-- The `k` cells from `i` on, in order. -/
def slice (c : Cells α) (i k : Nat) : List α := (List.range k).map (fun j => c.get (i + j))

@[simp] theorem write_get_same (c : Cells α) (i : Nat) (x : α) : (c.write i x).get i = x := by
  simp [write]

theorem write_get_other (c : Cells α) (x : α) (h : j ≠ i) :
    (c.write i x).get j = c.get j := by
  simp [write, h]

@[simp] theorem front_zero (c : Cells α) : c.front 0 = [] := rfl

@[simp] theorem front_length (c : Cells α) (n : Nat) : (c.front n).length = n := by
  simp [front]

theorem front_getElem (c : Cells α) (h : i < (c.front n).length) :
    (c.front n)[i] = c.get i := by
  simp [front]

theorem front_succ (c : Cells α) (n : Nat) : c.front (n + 1) = c.front n ++ [c.get n] := by
  simp [front, List.range_succ]

theorem front_congr (h : ∀ i, i < n → c.get i = d.get i) :
    c.front n = d.front n := by
  apply List.map_congr_left
  intro i hi
  exact h i (List.mem_range.mp hi)

theorem front_write_beyond (c : Cells α) (x : α) (h : n ≤ i) :
    (c.write i x).front n = c.front n :=
  front_congr fun j hj => write_get_other c x (by omega)

theorem front_write_next (c : Cells α) (n : Nat) (x : α) :
    (c.write n x).front (n + 1) = c.front n ++ [x] := by
  rw [front_succ, front_write_beyond c x (Nat.le_refl n), write_get_same]

theorem slice_succ (c : Cells α) (i k : Nat) :
    c.slice i (k + 1) = c.get i :: c.slice (i + 1) k := by
  simp only [slice, List.range_succ_eq_map, List.map_cons, List.map_map, Nat.add_zero]
  congr 2
  funext j
  simp only [Function.comp_apply, Nat.succ_eq_add_one]
  congr 1
  omega

theorem slice_congr (h : ∀ j, i ≤ j → c.get j = d.get j) :
    c.slice i k = d.slice i k := by
  apply List.map_congr_left
  intro j _
  exact h (i + j) (by omega)

theorem front_eq_slice (c : Cells α) (n : Nat) : c.front n = c.slice 0 n := by
  simp [front, slice]

/-- From the first `n` cells of `c` to the first `m` of `d`, the items `xs` were
put behind, one write each. -/
structure Appended (n : Nat) (c : Cells α) (m : Nat) (d : Cells α) (xs : List α) : Prop where
  front : d.front m = c.front n ++ xs
  written : ∀ j ∈ d.written, j ∈ c.written ∨ j < m
  le : n ≤ m

theorem Appended.refl (n : Nat) (c : Cells α) : Appended n c n c [] :=
  ⟨(List.append_nil _).symm, fun _ hj => Or.inl hj, Nat.le_refl n⟩

theorem Appended.push (n : Nat) (c : Cells α) (x : α) :
    Appended n c (n + 1) (c.write n x) [x] := by
  refine ⟨front_write_next c n x, ?_, Nat.le_succ n⟩
  intro j hj
  rcases List.mem_cons.mp hj with rfl | hj
  · exact Or.inr (Nat.lt_succ_self j)
  · exact Or.inl hj

theorem Appended.pushIf (st : Nat × Cells α) (p : Prop) [Decidable p] (x : α) :
    Appended st.1 st.2 (if p then (st.1 + 1, st.2.write st.1 x) else st).1
      (if p then (st.1 + 1, st.2.write st.1 x) else st).2 (if p then [x] else []) := by
  split
  · exact push st.1 st.2 x
  · exact refl st.1 st.2

theorem Appended.trans {e : Cells α} {ys : List α} (h : Appended n c m d xs)
    (h' : Appended m d k e ys) : Appended n c k e (xs ++ ys) := by
  refine ⟨by rw [h'.front, h.front, List.append_assoc], ?_, Nat.le_trans h.le h'.le⟩
  intro j hj
  rcases h'.written j hj with w | w
  · rcases h.written j w with w | w
    · exact Or.inl w
    · exact Or.inr (Nat.lt_of_lt_of_le w h'.le)
  · exact Or.inr w

theorem Appended.count (h : Appended n c m d xs) :
    m = n + xs.length := by
  have := congrArg List.length h.front
  simpa using this

/-! ## Insertion sort -/

section Sorting
variable (key : α → Nat)

/-- The inner loop of the sort: cells above the item move up by one. -/
def shift (item : α) : Nat → Cells α → Nat × Cells α
  | 0, c => (0, c)
  | p + 1, c =>
    if key item < key (c.get p) then shift item p (c.write (p + 1) (c.get p)) else (p + 1, c)

def insertAt (i : Nat) (c : Cells α) : Cells α :=
  let moved := shift key (c.get i) i c
  moved.2.write moved.1 (c.get i)

/-- The outer loop, for the `k` indices from `i` on. -/
def sortFrom : Nat → Nat → Cells α → Cells α
  | 0, _, c => c
  | k + 1, i, c => sortFrom k (i + 1) (insertAt key i c)

/-- What the inner loop leaves: the cells from the hole up moved by one, all of
them above the item; the cells below the hole stand, and the last is not above. -/
structure Shifted (item : α) (p : Nat) (c : Cells α) (q : Nat) (d : Cells α) : Prop where
  le : q ≤ p
  below : ∀ j, j ≤ q → d.get j = c.get j
  moved : ∀ j, q ≤ j → j < p → d.get (j + 1) = c.get j
  beyond : ∀ j, p < j → d.get j = c.get j
  above : ∀ j, q ≤ j → j < p → key item < key (c.get j)
  stop : q = 0 ∨ ¬ key item < key (c.get (q - 1))
  writes : ∀ j ∈ d.written, j ∈ c.written ∨ j ≤ p

theorem shift_spec (item : α) (p : Nat) (c : Cells α) :
    Shifted key item p c (shift key item p c).1 (shift key item p c).2 := by
  induction p generalizing c with
  | zero =>
    simp only [shift]
    exact ⟨Nat.le_refl _, fun _ _ => rfl, fun _ _ h => absurd h (Nat.not_lt_zero _),
      fun _ _ => rfl, fun _ _ h => absurd h (Nat.not_lt_zero _), Or.inl rfl, fun _ h => Or.inl h⟩
  | succ p ih =>
    simp only [shift]
    split
    · rename_i up
      have h := ih (c.write (p + 1) (c.get p))
      have old (j : Nat) (hj : j ≤ p) : (c.write (p + 1) (c.get p)).get j = c.get j :=
        write_get_other c _ (by omega)
      refine ⟨by have := h.le; omega, ?_, ?_, ?_, ?_, ?_, ?_⟩
      · intro j hj
        rw [h.below j hj, old j (by have := h.le; omega)]
      · intro j lo hi
        by_cases last : j = p
        · subst last
          rw [h.beyond _ (by omega), write_get_same]
        · rw [h.moved j lo (by omega), old j (by omega)]
      · intro j hj
        rw [h.beyond j (by omega), write_get_other c _ (by omega)]
      · intro j lo hi
        by_cases last : j = p
        · subst last; exact up
        · have := h.above j lo (by omega)
          rwa [old j (by omega)] at this
      · rcases h.stop with z | n
        · exact Or.inl z
        · right
          rwa [old _ (by have := h.le; omega)] at n
      · intro j hj
        rcases h.writes j hj with w | w
        · rcases List.mem_cons.mp w with rfl | w
          · exact Or.inr (Nat.le_refl _)
          · exact Or.inl w
        · exact Or.inr (by omega)
    · rename_i down
      exact ⟨Nat.le_refl _, fun _ _ => rfl, fun _ _ _ => by omega, fun _ _ => rfl,
        fun _ _ _ => by omega, Or.inr down, fun _ h => Or.inl h⟩

/-- The item goes between the cells that stay and the ones that moved. -/
theorem insertAt_front (i : Nat) (c : Cells α) :
    ∃ q, q ≤ i ∧ (insertAt key i c).front (i + 1) =
        (c.front i).take q ++ c.get i :: (c.front i).drop q ∧
      (∀ x ∈ (c.front i).drop q, key (c.get i) < key x) ∧
      (q = 0 ∨ ¬ key (c.get i) < key (c.get (q - 1))) := by
  have h := shift_spec key (c.get i) i c
  generalize hm : shift key (c.get i) i c = moved at h
  refine ⟨moved.1, h.le, ?_, ?_, h.stop⟩
  · simp only [insertAt, hm]
    have le := h.le
    apply List.ext_getElem
    · simp only [front_length, List.length_append, List.length_take, List.length_cons,
        List.length_drop]
      omega
    · intro j hj _
      simp only [front_length] at hj
      rw [front_getElem, List.getElem_append]
      by_cases low : j < moved.1
      · rw [write_get_other _ _ (by omega), h.below j (by omega)]
        rw [dif_pos (by simp only [List.length_take, front_length]; omega), List.getElem_take,
          front_getElem]
      · rw [dif_neg (by simp only [List.length_take, front_length]; omega)]
        simp only [List.length_take, front_length, Nat.min_eq_left le]
        by_cases hole : j = moved.1
        · subst hole
          simp only [write_get_same, Nat.sub_self, List.getElem_cons_zero]
        · obtain ⟨k, rfl⟩ : ∃ k, j = k + 1 := ⟨j - 1, by omega⟩
          rw [write_get_other _ _ hole, h.moved k (by omega) (by omega)]
          rw [List.getElem_cons, dif_neg (by omega), List.getElem_drop, front_getElem]
          congr 1
          omega
  · intro x hx
    obtain ⟨j, hj, rfl⟩ := List.mem_iff_getElem.mp hx
    simp only [List.length_drop, front_length] at hj
    rw [List.getElem_drop, front_getElem]
    exact h.above _ (by omega) (by omega)

theorem insertAt_beyond (i : Nat) (c : Cells α) (hj : i < j) :
    (insertAt key i c).get j = c.get j := by
  have h := shift_spec key (c.get i) i c
  have le := h.le
  simp only [insertAt]
  rw [write_get_other _ _ (by omega), h.beyond j hj]

theorem insertAt_written (i : Nat) (c : Cells α) :
    ∀ j ∈ (insertAt key i c).written, j ∈ c.written ∨ j ≤ i := by
  have h := shift_spec key (c.get i) i c
  intro j hj
  rcases List.mem_cons.mp hj with rfl | hj
  · exact Or.inr h.le
  · exact h.writes j hj

def Ordered (xs : List α) : Prop := xs.Pairwise (fun a b => key a ≤ key b)

/-- Inserting the item keeps the front ordered. -/
theorem insertAt_ordered (i : Nat) (c : Cells α) (h : Ordered key (c.front i)) :
    Ordered key ((insertAt key i c).front (i + 1)) := by
  obtain ⟨q, le, eq, above, stop⟩ := insertAt_front key i c
  rw [eq]
  have parts := List.take_append_drop q (c.front i) ▸ h
  obtain ⟨hl, hr, across⟩ := List.pairwise_append.mp parts
  refine List.pairwise_append.mpr ⟨hl, List.pairwise_cons.mpr ⟨?_, hr⟩, ?_⟩
  · intro x hx
    exact Nat.le_of_lt (above x hx)
  · intro a ha b hb
    rcases List.mem_cons.mp hb with rfl | hb
    · -- the last cell that stays is not above the item, and bounds the others
      obtain ⟨j, hj, rfl⟩ := List.mem_iff_getElem.mp ha
      simp only [List.length_take, front_length] at hj
      rcases stop with z | n
      · omega
      · rw [List.getElem_take, front_getElem]
        by_cases last : j = q - 1
        · rw [last]; omega
        · have step := List.pairwise_iff_getElem.mp h j (q - 1)
            (by simp only [front_length]; omega) (by simp only [front_length]; omega) (by omega)
          rw [front_getElem, front_getElem] at step
          omega
    · exact across a ha b hb

theorem insertAt_perm (i : Nat) (c : Cells α) :
    (insertAt key i c).front (i + 1) |>.Perm (c.front (i + 1)) := by
  obtain ⟨q, _, eq, _, _⟩ := insertAt_front key i c
  rw [eq, front_succ]
  have moved : (c.get i :: ((c.front i).take q ++ (c.front i).drop q)).Perm
      (c.front i ++ [c.get i]) := by
    rw [List.take_append_drop]
    exact (List.perm_append_singleton _ _).symm
  exact List.perm_middle.trans moved

/-- A sorted front grows by one cell at a time; the cells beyond it stand. -/
theorem sortFrom_spec (k i : Nat) (c : Cells α) (h : Ordered key (c.front i)) :
    Ordered key ((sortFrom key k i c).front (i + k)) ∧
    ((sortFrom key k i c).front (i + k)).Perm (c.front (i + k)) ∧
    (∀ j ∈ (sortFrom key k i c).written, j ∈ c.written ∨ j < i + k) := by
  induction k generalizing i c with
  | zero => exact ⟨h, List.Perm.refl _, fun _ hj => Or.inl hj⟩
  | succ k ih =>
    obtain ⟨order, perm, writes⟩ := ih (i + 1) (insertAt key i c) (insertAt_ordered key i c h)
    have eq : i + (k + 1) = i + 1 + k := by omega
    rw [eq]
    refine ⟨order, perm.trans ?_, ?_⟩
    · have split (d : Cells α) : d.front (i + 1 + k) = d.front (i + 1) ++ d.slice (i + 1) k := by
        simp only [front, slice, List.range_add, List.map_append, List.map_map]
        rfl
      rw [split, split, slice_congr (d := c) fun j hj => insertAt_beyond key i c (by omega)]
      exact (insertAt_perm key i c).append_right _
    · intro j hj
      rcases writes j hj with w | w
      · rcases insertAt_written key i c j w with w | w
        · exact Or.inl w
        · exact Or.inr (by omega)
      · exact Or.inr (by omega)

end Sorting

/-! ## Compaction -/

section Compaction
variable (joins : α → α → Bool) (join : α → α → α)

/-- One item read: it joins the last item kept, or is kept behind it. -/
def mergeOnto (kept : List α) (x : α) : List α :=
  match kept.getLast? with
  | none => [x]
  | some last => if joins last x then kept.dropLast ++ [join last x] else kept ++ [x]

theorem mergeOnto_concat (kept : List α) (last x : α) :
    mergeOnto joins join (kept ++ [last]) x =
      if joins last x then kept ++ [join last x] else kept ++ [last] ++ [x] := by
  simp [mergeOnto]

/-- The loop reads the `k` cells from `i` on and writes below the count `n`. -/
def compactFrom : Nat → Nat → Nat → Cells α → Nat × Cells α
  | 0, _, n, c => (n, c)
  | k + 1, i, n, c =>
    if n ≠ 0 ∧ joins (c.get (n - 1)) (c.get i) = true then
      compactFrom k (i + 1) n (c.write (n - 1) (join (c.get (n - 1)) (c.get i)))
    else compactFrom k (i + 1) (n + 1) (c.write n (c.get i))

/-- The write index never passes the read index, so the loop computes the list
fold although both are in one array. -/
theorem compactFrom_spec (k i n : Nat) (c : Cells α) (le : n ≤ i) :
    (compactFrom joins join k i n c).2.front (compactFrom joins join k i n c).1 =
      (c.slice i k).foldl (mergeOnto joins join) (c.front n) ∧
    (compactFrom joins join k i n c).1 ≤ i + k ∧
    ∀ j ∈ (compactFrom joins join k i n c).2.written, j ∈ c.written ∨ j < i + k := by
  induction k generalizing i n c with
  | zero => exact ⟨rfl, le, fun _ hj => Or.inl hj⟩
  | succ k ih =>
    have unread (m : Nat) (x : α) (hm : m ≤ i) :
        (c.write m x).slice (i + 1) k = c.slice (i + 1) k :=
      slice_congr fun j hj => write_get_other c x (by omega)
    rw [slice_succ, List.foldl_cons]
    simp only [compactFrom]
    split
    · rename_i joined
      obtain ⟨m, rfl⟩ : ∃ m, n = m + 1 := ⟨n - 1, by omega⟩
      simp only [Nat.add_sub_cancel] at joined ⊢
      have h := ih (i + 1) (m + 1) (c.write m (join (c.get m) (c.get i))) (by omega)
      rw [unread m _ (by omega), front_write_next] at h
      rw [front_succ, mergeOnto_concat, if_pos joined.2]
      refine ⟨h.1, by omega, ?_⟩
      intro j hj
      rcases h.2.2 j hj with w | w
      · rcases List.mem_cons.mp w with rfl | w
        · exact Or.inr (by omega)
        · exact Or.inl w
      · exact Or.inr (by omega)
    · rename_i kept
      have h := ih (i + 1) (n + 1) (c.write n (c.get i)) (by omega)
      rw [unread n _ le, front_write_next] at h
      have eq : mergeOnto joins join (c.front n) (c.get i) = c.front n ++ [c.get i] := by
        cases n with
        | zero => simp [mergeOnto]
        | succ m =>
          rw [front_succ, mergeOnto_concat, if_neg]
          simpa using kept
      rw [eq]
      refine ⟨h.1, by omega, ?_⟩
      intro j hj
      rcases h.2.2 j hj with w | w
      · rcases List.mem_cons.mp w with rfl | w
        · exact Or.inr (by omega)
        · exact Or.inl w
      · exact Or.inr (by omega)

end Compaction

end Cells
end Linuxemu.Lib
