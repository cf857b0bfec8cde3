import Linuxemu.Registry

/-! The registry is a partial map from addresses to flags. Each loop of
`runtime_replace_locked` is compared with the list it leaves in the scratch
array, and the list with the map. -/
namespace Linuxemu.Registry
open Lib
variable {r : Table} {address length start stop : Nat} {executable : Int} {ms : List RuntimeMapping}

/-- The parts of the old entries, in order, stand behind what was there. -/
theorem splitLoop_spec (start stop : Nat) (ms : List RuntimeMapping) (n : Nat)
    (c : Cells RuntimeMapping) :
    Cells.Appended n c (splitLoop start stop ms n c).1 (splitLoop start stop ms n c).2
      (Piece.carveAll start stop ms) := by
  induction ms generalizing n c with
  | nil => exact Cells.Appended.refl n c
  | cons old rest ih =>
    simp only [splitLoop, rangesOverlap, Piece.carveAll, List.flatMap_cons, Piece.carve,
      Bool.and_eq_true, decide_eq_true_eq]
    by_cases overlap : start < old.stop ∧ old.start < stop
    · rw [if_pos overlap, if_pos overlap]
      have low := Cells.Appended.pushIf (n, c) (old.start < start)
        (⟨old.start, start, old.flag⟩ : RuntimeMapping)
      exact (low.trans (Cells.Appended.pushIf _ (stop < old.stop) _)).trans (ih _ _)
    · rw [if_neg overlap, if_neg overlap]
      exact Cells.Appended.trans (Cells.Appended.push n c old) (ih _ _)

/-- The entries before sorting: what is left of the old ones, and the new one. -/
def replacement (ms : List RuntimeMapping) (start stop : Nat) (addReplacement : Bool)
    (executable : Int) : List RuntimeMapping :=
  Piece.carveAll start stop ms ++ if addReplacement then [⟨start, stop, executable⟩] else []

theorem replacement_length {add : Bool} (h : Piece.Apart ms) :
    (replacement ms start stop add executable).length ≤ ms.length + 2 := by
  have := h.length_carveAll (s := start) (e := stop)
  unfold replacement
  cases add <;> simp <;> omega

theorem sortFrom_front (c : Cells RuntimeMapping) (n : Nat) :
    Cells.Ordered Piece.start ((c.sortFrom Piece.start (n - 1) 1).front n) ∧
    ((c.sortFrom Piece.start (n - 1) 1).front n).Perm (c.front n) ∧
    ∀ j ∈ (c.sortFrom Piece.start (n - 1) 1).written, j ∈ c.written ∨ j < n := by
  cases n with
  | zero => exact ⟨List.Pairwise.nil, List.Perm.refl _, fun j hj => Or.inl hj⟩
  | succ n =>
    have one : Cells.Ordered Piece.start (c.front 1) := List.pairwise_singleton _ _
    have h := Cells.sortFrom_spec Piece.start n 1 c one
    rw [Nat.add_comm 1 n] at h
    exact h

/-- What one replacement does: the scratch array ends with the sorted and joined
entries; they become the registry when they fit, and nothing changes otherwise. -/
theorem runtimeReplaceLocked_spec (r : Table) (start stop : Nat) (add : Bool) (executable : Int) :
    ∃ sorted, sorted.Perm (replacement r.runtimeMappings start stop add executable) ∧
      Cells.Ordered Piece.start sorted ∧
      (maxRuntimeMappings < (Piece.coalesce sorted).length →
        (runtimeReplaceLocked r start stop add executable).1 = -1 ∧
        (runtimeReplaceLocked r start stop add executable).2.runtimeMappings =
          r.runtimeMappings) ∧
      (¬ maxRuntimeMappings < (Piece.coalesce sorted).length →
        (runtimeReplaceLocked r start stop add executable).1 = 0 ∧
        (runtimeReplaceLocked r start stop add executable).2.runtimeMappings =
          Piece.coalesce sorted) ∧
      ∀ j ∈ (runtimeReplaceLocked r start stop add executable).2.runtimeMappingScratch.written,
        j ∈ r.runtimeMappingScratch.written ∨
        j < (replacement r.runtimeMappings start stop add executable).length := by
  have split := splitLoop_spec start stop r.runtimeMappings 0 r.runtimeMappingScratch
  generalize hs : splitLoop start stop r.runtimeMappings 0 r.runtimeMappingScratch = sp at split
  have added : Cells.Appended 0 r.runtimeMappingScratch
      (if add then (sp.1 + 1, sp.2.write sp.1 ⟨start, stop, executable⟩) else sp).1
      (if add then (sp.1 + 1, sp.2.write sp.1 ⟨start, stop, executable⟩) else sp).2
      (replacement r.runtimeMappings start stop add executable) :=
    split.trans (Cells.Appended.pushIf sp (add = true) _)
  generalize ha : (if add then (sp.1 + 1, sp.2.write sp.1 ⟨start, stop, executable⟩) else sp) =
    ad at added
  obtain ⟨order, perm, sortWrites⟩ := sortFrom_front ad.2 ad.1
  obtain ⟨front, _, compactWrites⟩ := Cells.compactFrom_spec Piece.touches Piece.join ad.1 0 0
    (ad.2.sortFrom Piece.start (ad.1 - 1) 1) (Nat.le_refl 0)
  generalize hc : (ad.2.sortFrom Piece.start (ad.1 - 1) 1).compactFrom Piece.touches Piece.join
    ad.1 0 0 = co at front compactWrites
  rw [← Cells.front_eq_slice, Cells.front_zero, ← Piece.coalesce] at front
  have length : co.1 = (Piece.coalesce
      ((ad.2.sortFrom Piece.start (ad.1 - 1) 1).front ad.1)).length := by
    rw [← front, Cells.front_length]
  have unfolded : runtimeReplaceLocked r start stop add executable =
      if maxRuntimeMappings < co.1 then (-1, { r with runtimeMappingScratch := co.2 })
      else (0, ⟨co.2.front co.1, co.2⟩) := by
    simp only [runtimeReplaceLocked, hs, ha, hc]
  rw [unfolded]
  refine ⟨_, perm.trans ?_, order, ?_, ?_, ?_⟩
  · rw [added.front, Cells.front_zero, List.nil_append]
  · rw [← length]
    intro full
    rw [if_pos full]
    exact ⟨rfl, rfl⟩
  · rw [← length]
    intro fits
    rw [if_neg fits]
    exact ⟨rfl, front⟩
  · have count := added.count
    intro j hj
    have hj' : j ∈ co.2.written := by
      split at hj <;> exact hj
    rcases compactWrites j hj' with w | w
    · rcases sortWrites j w with w | w
      · rcases added.written j w with w | w
        · exact Or.inl w
        · exact Or.inr (by omega)
      · exact Or.inr (by omega)
    · exact Or.inr (by omega)

/-! ## The representation invariant -/

structure Table.Valid (r : Table) : Prop where
  canonical : Piece.Canonical r.runtimeMappings
  bounded : r.runtimeMappings.length ≤ maxRuntimeMappings
  writes : ∀ j ∈ r.runtimeMappingScratch.written, j < maxRuntimeMappings + 2

def Table.flagAt (r : Table) (x : Nat) : Option Int := Piece.flagAt r.runtimeMappings x

theorem replacement_apart (lt : start < stop) (add : Bool) (executable : Int) (h : Piece.Apart ms) :
    Piece.Apart (replacement ms start stop add executable) := by
  cases add
  · simpa [replacement] using h.carveAll lt
  · exact h.append_range lt executable

theorem replacement_flagAt (lt : start < stop) (add : Bool) (executable : Int) (h : Piece.Apart ms)
    (x : Nat) :
    Piece.flagAt (replacement ms start stop add executable) x =
      if start ≤ x ∧ x < stop then (if add then some executable else none)
      else Piece.flagAt ms x := by
  cases add
  · simpa [replacement] using h.flagAt_carveAll lt x
  · exact h.flagAt_append_range lt executable x

theorem replace_valid (h : r.Valid) (lt : start < stop) (add : Bool) (executable : Int) :
    (runtimeReplaceLocked r start stop add executable).2.Valid := by
  obtain ⟨sorted, perm, order, full, fits, writes⟩ :=
    runtimeReplaceLocked_spec r start stop add executable
  have apart := (replacement_apart lt add executable h.canonical.apart).perm perm.symm
  have written : ∀ j ∈ (runtimeReplaceLocked r start stop add executable).2
      |>.runtimeMappingScratch.written, j < maxRuntimeMappings + 2 := by
    -- one entry at most was split, and one was added
    have count : (replacement r.runtimeMappings start stop add executable).length ≤
        r.runtimeMappings.length + 2 := replacement_length h.canonical.apart
    have bounded := h.bounded
    intro j hj
    rcases writes j hj with w | w
    · exact h.writes j w
    · omega
  by_cases above : maxRuntimeMappings < (Piece.coalesce sorted).length
  · obtain ⟨_, same⟩ := full above
    exact ⟨same ▸ h.canonical, same ▸ h.bounded, written⟩
  · obtain ⟨_, new⟩ := fits above
    refine ⟨?_, ?_, written⟩
    · rw [new]
      exact (Piece.coalesce_spec (apart.sorted order)).1
    · rw [new]
      omega

/-- A replacement that succeeds changes the map in its range alone. -/
theorem replace_flagAt (h : r.Valid) (lt : start < stop) (add : Bool) (executable : Int)
    (done : (runtimeReplaceLocked r start stop add executable).1 = 0) (x : Nat) :
    (runtimeReplaceLocked r start stop add executable).2.flagAt x =
      if start ≤ x ∧ x < stop then (if add then some executable else none) else r.flagAt x := by
  obtain ⟨sorted, perm, order, full, fits, _⟩ :=
    runtimeReplaceLocked_spec r start stop add executable
  have apart := replacement_apart lt add executable h.canonical.apart
  by_cases above : maxRuntimeMappings < (Piece.coalesce sorted).length
  · rw [(full above).1] at done
    cases done
  · have sortedApart := (apart.perm perm.symm).sorted order
    rw [Table.flagAt, (fits above).2, (Piece.coalesce_spec sortedApart).2 x,
      apart.flagAt_perm perm.symm x, replacement_flagAt lt add executable h.canonical.apart x]
    rfl

theorem replace_failed {add : Bool}
    (failed : (runtimeReplaceLocked r start stop add executable).1 ≠ 0) :
    (runtimeReplaceLocked r start stop add executable).2.runtimeMappings = r.runtimeMappings := by
  obtain ⟨sorted, _, _, full, fits, _⟩ := runtimeReplaceLocked_spec r start stop add executable
  by_cases above : maxRuntimeMappings < (Piece.coalesce sorted).length
  · exact (full above).2
  · exact absurd (fits above).1 failed

/-! ## Ownership queries -/

/-- The inner loop finds the largest end among the entries that start by the
cursor, or stays where it is. -/
theorem coveredEnd_spec (cursor : Nat) (ms : List RuntimeMapping) :
    (∀ m ∈ ms, m.start ≤ cursor → m.stop ≤ coveredEnd cursor ms) ∧
    (coveredEnd cursor ms = cursor ∨
      ∃ m ∈ ms, m.start ≤ cursor ∧ m.stop = coveredEnd cursor ms) := by
  have run (ms : List RuntimeMapping) (c : Nat) :
      let out := ms.foldl (fun covered m =>
        if m.start ≤ cursor ∧ covered < m.stop then m.stop else covered) c
      c ≤ out ∧ (∀ m ∈ ms, m.start ≤ cursor → m.stop ≤ out) ∧
        (out = c ∨ ∃ m ∈ ms, m.start ≤ cursor ∧ m.stop = out) := by
    induction ms generalizing c with
    | nil => simp
    | cons m ms ih =>
      simp only [List.foldl_cons]
      by_cases taken : m.start ≤ cursor ∧ c < m.stop
      · rw [if_pos taken]
        obtain ⟨ge, all, reached⟩ := ih m.stop
        refine ⟨by omega, ?_, Or.inr ?_⟩
        · intro q hq start
          rcases List.mem_cons.mp hq with rfl | hq
          · exact ge
          · exact all q hq start
        · rcases reached with same | ⟨q, hq, start, stop⟩
          · exact ⟨m, List.mem_cons_self, taken.1, same.symm⟩
          · exact ⟨q, List.mem_cons_of_mem m hq, start, stop⟩
      · rw [if_neg taken]
        obtain ⟨ge, all, reached⟩ := ih c
        refine ⟨ge, ?_, ?_⟩
        · intro q hq start
          rcases List.mem_cons.mp hq with rfl | hq
          · omega
          · exact all q hq start
        · rcases reached with same | ⟨q, hq, start, stop⟩
          · exact Or.inl same
          · exact Or.inr ⟨q, List.mem_cons_of_mem m hq, start, stop⟩
  exact (run ms cursor).2

/-- The query is exact for any list of entries, sorted or not. -/
theorem runtimeRangeOwnedLocked_iff (ms : List RuntimeMapping) (cursor stop : Nat) :
    runtimeRangeOwnedLocked ms cursor stop = true ↔
      ∀ x, cursor ≤ x → x < stop → ∃ m ∈ ms, m.Covers x := by
  induction cursor using runtimeRangeOwnedLocked.induct ms stop with
  | case1 cursor below stuck =>
    rw [runtimeRangeOwnedLocked, if_pos below, if_pos stuck]
    refine iff_of_false (by simp) ?_
    intro all
    obtain ⟨m, hm, start, high⟩ := all cursor (Nat.le_refl _) below
    have := (coveredEnd_spec cursor ms).1 m hm start
    omega
  | case2 cursor below moves ih =>
    rw [runtimeRangeOwnedLocked, if_pos below, if_neg moves, ih]
    have ge := coveredEnd_ge cursor ms
    obtain same | ⟨m, hm, start, high⟩ := (coveredEnd_spec cursor ms).2
    · exact absurd same moves
    constructor
    · intro all x lo hi
      by_cases covered : x < coveredEnd cursor ms
      · exact ⟨m, hm, by omega, by omega⟩
      · exact all x (by omega) hi
    · intro all x lo hi
      exact all x (by omega) hi
  | case3 cursor above =>
    rw [runtimeRangeOwnedLocked, if_neg above]
    exact iff_of_true rfl (fun x lo hi => by omega)

theorem owned_iff_flagAt (r : Table) (start stop : Nat) :
    runtimeRangeOwnedLocked r.runtimeMappings start stop = true ↔
      ∀ x, start ≤ x → x < stop → r.flagAt x ≠ none := by
  rw [runtimeRangeOwnedLocked_iff]
  simp only [Table.flagAt, ne_eq, Piece.flagAt_eq_none, not_forall, not_not, exists_prop]

/-! ## The three operations -/

theorem badRange_eq_false :
    badRange address length = false ↔ 0 < length ∧ address + length ≤ uintptrMax := by
  unfold badRange uintptrMax
  simp only [Bool.or_eq_false_iff, decide_eq_false_iff_not]
  omega

theorem guestMemoryRuntimeOwned_iff (r : Table) (address length : Nat) :
    guestMemoryRuntimeOwned r address length = true ↔ 0 < length ∧ address + length ≤ uintptrMax ∧
      ∀ x, address ≤ x → x < address + length → r.flagAt x ≠ none := by
  rw [guestMemoryRuntimeOwned, Bool.and_eq_true, Bool.not_eq_true', badRange_eq_false,
    owned_iff_flagAt, and_assoc]

theorem unmap_valid (h : r.Valid) (address length : Nat) :
    (guestMemoryRuntimeUnmap r address length).Valid := by
  unfold guestMemoryRuntimeUnmap
  cases bad : badRange address length
  · have := badRange_eq_false.mp bad
    exact replace_valid h (show address < address + length by omega) false 0
  · exact h

theorem map_flagAt (h : r.Valid)
    (done : (guestMemoryRuntimeMap r address length executable).code = 0) (x : Nat) :
    (guestMemoryRuntimeMap r address length executable).table.flagAt x =
      if address ≤ x ∧ x < address + length then some executable else r.flagAt x := by
  unfold guestMemoryRuntimeMap at done ⊢
  cases bad : badRange address length
  · have := badRange_eq_false.mp bad
    simp only [bad, Bool.false_eq_true, ↓reduceIte] at done ⊢
    split at done
    · rename_i ok
      rw [if_pos ok]
      exact replace_flagAt h (show address < address + length by omega) true executable ok x
    · cases done
  · simp [bad] at done

theorem map_failed (failed : (guestMemoryRuntimeMap r address length executable).code ≠ 0) :
    (guestMemoryRuntimeMap r address length executable).table.runtimeMappings =
      r.runtimeMappings := by
  unfold guestMemoryRuntimeMap at failed ⊢
  split
  · rfl
  · rename_i good
    simp only [good, Bool.false_eq_true, ↓reduceIte] at failed ⊢
    split at failed
    · exact absurd rfl failed
    · rename_i full
      rw [if_neg full]
      exact replace_failed full

/-- One entry at most is split and one is added. -/
theorem map_room (h : r.Valid) (executable : Int) (positive : 0 < length)
    (fits : address + length ≤ uintptrMax)
    (room : r.runtimeMappings.length + 2 ≤ maxRuntimeMappings) :
    (guestMemoryRuntimeMap r address length executable).code = 0 := by
  obtain ⟨sorted, perm, -, -, done, -⟩ :=
    runtimeReplaceLocked_spec r address (address + length) true executable
  have short : (Piece.coalesce sorted).length ≤ maxRuntimeMappings := by
    have count : (replacement r.runtimeMappings address (address + length) true
        executable).length ≤ r.runtimeMappings.length + 2 := replacement_length h.canonical.apart
    have joined := Piece.coalesce_length_le sorted
    rw [perm.length_eq] at joined
    omega
  unfold guestMemoryRuntimeMap
  rw [badRange_eq_false.mpr ⟨positive, fits⟩]
  simp [(done (Nat.not_lt.mpr short)).1]

/-- The three return values of `guest_memory_runtime_protect` on a range that
does not wrap. -/
theorem protect_cases (r : Table) (executable : Int) (positive : 0 < length)
    (fits : address + length ≤ uintptrMax) :
    let reply := guestMemoryRuntimeProtect r address length executable
    let replaced := runtimeReplaceLocked r address (address + length) true executable
    (¬ (∀ x, address ≤ x → x < address + length → r.flagAt x ≠ none) ∧
      reply.code = 1 ∧ reply.table = r) ∨
    (∀ x, address ≤ x → x < address + length → r.flagAt x ≠ none) ∧
      (replaced.1 = 0 ∧ reply.code = 0 ∨ replaced.1 ≠ 0 ∧ reply.code = -1) ∧
      reply.table = replaced.2 := by
  have good := badRange_eq_false.mpr ⟨positive, fits⟩
  have owned := owned_iff_flagAt r address (address + length)
  simp only [guestMemoryRuntimeProtect, good, Bool.false_eq_true, ↓reduceIte]
  cases all : runtimeRangeOwnedLocked r.runtimeMappings address (address + length)
  · rw [all] at owned
    exact Or.inl ⟨fun every => absurd (owned.mpr every) (by simp), by simp⟩
  · refine Or.inr ⟨owned.mp all, ?_⟩
    simp only [Bool.not_true, Bool.false_eq_true, ↓reduceIte]
    split
    · rename_i full
      exact ⟨Or.inr ⟨full, rfl⟩, rfl⟩
    · rename_i ok
      exact ⟨Or.inl ⟨not_not.mp ok, rfl⟩, rfl⟩

theorem protect_failed (failed : (guestMemoryRuntimeProtect r address length executable).code ≠ 0) :
    (guestMemoryRuntimeProtect r address length executable).table.runtimeMappings =
      r.runtimeMappings := by
  cases bad : badRange address length with
  | true => simp [guestMemoryRuntimeProtect, bad]
  | false =>
    obtain ⟨positive, fits⟩ := badRange_eq_false.mp bad
    obtain ⟨-, -, same⟩ | ⟨-, ⟨-, code⟩ | ⟨full, -⟩, same⟩ :=
      protect_cases r executable positive fits
    · rw [same]
    · exact absurd code failed
    · rw [same]
      exact replace_failed full

/-- A range that is protected was owned, and its bytes have the new flag. -/
theorem protect_done (h : r.Valid)
    (done : (guestMemoryRuntimeProtect r address length executable).code = 0) :
    (∀ x, address ≤ x → x < address + length → r.flagAt x ≠ none) ∧
    ∀ x, (guestMemoryRuntimeProtect r address length executable).table.flagAt x =
      if address ≤ x ∧ x < address + length then some executable else r.flagAt x := by
  cases bad : badRange address length with
  | true =>
    simp [guestMemoryRuntimeProtect, bad] at done
  | false =>
    obtain ⟨positive, fits⟩ := badRange_eq_false.mp bad
    obtain ⟨-, code, -⟩ | ⟨owned, ⟨ok, -⟩ | ⟨-, code⟩, same⟩ :=
      protect_cases r executable positive fits
    · rw [code] at done
      cases done
    · refine ⟨owned, fun x => ?_⟩
      rw [same]
      exact replace_flagAt h (by omega) true executable ok x
    · rw [code] at done
      cases done

/-! ## What stays owned -/

/-- Valid tables stay valid and owned bytes stay owned. -/
def Table.Grows (r r' : Table) : Prop :=
  r.Valid → r'.Valid ∧ ∀ x, r.flagAt x ≠ none → r'.flagAt x ≠ none

theorem Table.Grows.refl (r : Table) : r.Grows r := fun valid => ⟨valid, fun _ => id⟩

theorem Table.Grows.trans {r' r'' : Table} (first : r.Grows r') (second : r'.Grows r'') :
    r.Grows r'' := by
  intro valid
  obtain ⟨valid', kept⟩ := first valid
  obtain ⟨valid'', kept'⟩ := second valid'
  exact ⟨valid'', fun x owned => kept' x (kept x owned)⟩

theorem flagAt_congr {r' : Table} (same : r'.runtimeMappings = r.runtimeMappings) (x : Nat) :
    r'.flagAt x = r.flagAt x := by
  rw [Table.flagAt, same, Table.flagAt]

theorem replace_grows (r : Table) (lt : start < stop) (executable : Int) :
    r.Grows (runtimeReplaceLocked r start stop true executable).2 := by
  intro valid
  refine ⟨replace_valid valid lt true executable, ?_⟩
  intro x owned
  by_cases done : (runtimeReplaceLocked r start stop true executable).1 = 0
  · rw [replace_flagAt valid lt true executable done x]
    split
    · simp
    · exact owned
  · rw [flagAt_congr (replace_failed done)]
    exact owned

theorem map_grows (r : Table) (address length : Nat) (executable : Int) :
    r.Grows (guestMemoryRuntimeMap r address length executable).table := by
  unfold guestMemoryRuntimeMap
  cases bad : badRange address length with
  | true => exact .refl r
  | false =>
    have := badRange_eq_false.mp bad
    have grows := replace_grows r (show address < address + length by omega) executable
    simp only [Bool.false_eq_true, ↓reduceIte]
    split <;> exact grows

theorem protect_grows (r : Table) (address length : Nat) (executable : Int) :
    r.Grows (guestMemoryRuntimeProtect r address length executable).table := by
  unfold guestMemoryRuntimeProtect
  cases bad : badRange address length with
  | true => exact .refl r
  | false =>
    have := badRange_eq_false.mp bad
    have grows := replace_grows r (show address < address + length by omega) executable
    simp only [Bool.false_eq_true, ↓reduceIte]
    split
    · exact .refl r
    · split <;> exact grows

theorem map_valid (h : r.Valid) (address length : Nat) (executable : Int) :
    (guestMemoryRuntimeMap r address length executable).table.Valid :=
  (map_grows r address length executable h).1

theorem protect_valid (h : r.Valid) (address length : Nat) (executable : Int) :
    (guestMemoryRuntimeProtect r address length executable).table.Valid :=
  (protect_grows r address length executable h).1

/-- Unmapping does not touch bytes outside its range, even when it fails. -/
theorem unmap_outside (valid : r.Valid) {x : Nat} (outside : x < address ∨ address + length ≤ x) :
    (guestMemoryRuntimeUnmap r address length).flagAt x = r.flagAt x := by
  unfold guestMemoryRuntimeUnmap
  cases bad : badRange address length with
  | true => rfl
  | false =>
    have := badRange_eq_false.mp bad
    simp only [Bool.false_eq_true, ↓reduceIte]
    by_cases done : (runtimeReplaceLocked r address (address + length) false 0).1 = 0
    · rw [replace_flagAt valid (by omega) false 0 done x, if_neg (by omega)]
    · exact flagAt_congr (replace_failed done) x

/-- What was mapped on free bytes can always be unmapped, and the entries are then those
there were before. -/
theorem unmap_map (valid : r.Valid)
    (free : ∀ x, address ≤ x → x < address + length → r.flagAt x = none)
    (done : (guestMemoryRuntimeMap r address length executable).code = 0) :
    (guestMemoryRuntimeUnmap (guestMemoryRuntimeMap r address length executable).table
      address length).runtimeMappings = r.runtimeMappings := by
  have flags := map_flagAt valid done
  have next := map_valid valid address length executable
  have good : badRange address length = false := by
    rw [← Bool.not_eq_true]
    intro bad
    simp [guestMemoryRuntimeMap, bad] at done
  have positive := (badRange_eq_false.mp good).1
  have lt : address < address + length := by omega
  generalize (guestMemoryRuntimeMap r address length executable).table = mapped at flags next ⊢
  obtain ⟨sorted, perm, order, -, fits, -⟩ :=
    runtimeReplaceLocked_spec mapped address (address + length) false 0
  have apart := replacement_apart lt false 0 next.canonical.apart
  obtain ⟨canonical, joined⟩ := Piece.coalesce_spec ((apart.perm perm.symm).sorted order)
  have back : Piece.coalesce sorted = r.runtimeMappings := by
    refine canonical.eq_of_flagAt valid.canonical fun x => ?_
    rw [joined, apart.flagAt_perm perm.symm x, replacement_flagAt lt false 0 next.canonical.apart x]
    change (if _ then _ else mapped.flagAt x) = r.flagAt x
    rw [flags]
    split
    · rename_i inside
      exact (free x inside.1 inside.2).symm
    · rfl
  unfold guestMemoryRuntimeUnmap
  rw [good]
  exact (fits (by rw [back]; exact Nat.not_lt.mpr valid.bounded)).2.trans back

end Linuxemu.Registry
