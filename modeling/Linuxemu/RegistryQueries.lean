import Mathlib.Data.List.Count
import Linuxemu.RegistryRuns
import Linuxemu.Load

/-! The two questions that the rest of the emulator asks of the registry: is a range
owned, and is it executable. -/
namespace Linuxemu.Registry
open Lib
variable {mappings : List RuntimeMapping} {r : Table} {cursor x : Nat} {f : Int}

/-! ## Ownership -/

/-- The loop of `runtime_range_owned_locked`, cut off after so many rounds; `none` is a
loop still running. -/
def ownedWithin (mappings : List RuntimeMapping) (stop : Nat) : Nat → Nat → Option Bool
  | 0, _ => none
  | rounds + 1, cursor =>
    if cursor < stop then
      if coveredEnd cursor mappings = cursor then some false
      else ownedWithin mappings stop rounds (coveredEnd cursor mappings)
    else some true

/-- How many entries end behind the cursor. -/
def endsBehind (mappings : List RuntimeMapping) (cursor : Nat) : Nat :=
  mappings.countP fun m => decide (cursor < m.stop)

/-- Each round leaves the end of some entry behind. -/
theorem endsBehind_lt (moves : coveredEnd cursor mappings ≠ cursor) :
    endsBehind mappings (coveredEnd cursor mappings) < endsBehind mappings cursor := by
  have ge := coveredEnd_ge cursor mappings
  obtain same | ⟨m, member, -, reached⟩ := (coveredEnd_spec cursor mappings).2
  · exact absurd same moves
  · generalize coveredEnd cursor mappings = furthest at moves ge reached
    let behind := mappings.filter fun m => decide (cursor < m.stop)
    calc endsBehind mappings furthest = behind.countP fun m => decide (furthest < m.stop) := by
          rw [List.countP_filter, endsBehind]
          apply List.countP_congr
          intro q _
          simp only [Bool.and_eq_true, decide_eq_true_eq]
          omega
      _ < behind.length := List.countP_lt_length_iff.mpr
          ⟨m, List.mem_filter.mpr ⟨member, by simp; omega⟩, by simp; omega⟩
      _ = endsBehind mappings cursor := List.countP_eq_length_filter.symm

theorem ownedWithin_eq {stop rounds : Nat} (enough : endsBehind mappings cursor < rounds) :
    ownedWithin mappings stop rounds cursor =
      some (runtimeRangeOwnedLocked mappings cursor stop) := by
  induction rounds generalizing cursor with
  | zero => exact absurd enough (Nat.not_lt_zero _)
  | succ rounds ih =>
    rw [ownedWithin, runtimeRangeOwnedLocked]
    split
    · split
      · rfl
      · rename_i moves
        have fewer := endsBehind_lt moves
        exact ih (by omega)
    · rfl

/-- For any entries at all, the loop ends after at most one round more than there are
entries, and it says whether each byte of the range lies in one of them. -/
theorem runtime_owned_exact (r : Table) (address length : Nat) :
    ownedWithin r.runtimeMappings (address + length) (r.runtimeMappings.length + 1) address =
      some (runtimeRangeOwnedLocked r.runtimeMappings address (address + length)) ∧
    (guestMemoryRuntimeOwned r address length = true ↔
      0 < length ∧ address + length ≤ 2 ^ 32 - 1 ∧
      ∀ x, address ≤ x → x < address + length →
        ∃ m ∈ r.runtimeMappings, m.start ≤ x ∧ x < m.stop) := by
  constructor
  · apply ownedWithin_eq
    exact Nat.lt_succ_of_le List.countP_le_length
  · rw [guestMemoryRuntimeOwned, Bool.and_eq_true, Bool.not_eq_true', badRange_eq_false,
      runtimeRangeOwnedLocked_iff, and_assoc]
    rfl

/-! ## Executability -/

/-- The value of a comparison in C. -/
def comparison (holds : Bool) : Int := if holds then 1 else 0

/-- The states that the emulator's calls can reach. Every caller passes 0 or the value of
a comparison for `executable`. -/
inductive Called : Table → Prop
  | start : Called empty
  | map {r : Table} (address length : Nat) (executable : Bool) : Called r →
      Called (guestMemoryRuntimeMap r address length (comparison executable)).table
  | protect {r : Table} (address length : Nat) (executable : Bool) : Called r →
      Called (guestMemoryRuntimeProtect r address length (comparison executable)).table
  | unmap {r : Table} (address length : Nat) : Called r →
      Called (guestMemoryRuntimeUnmap r address length)

theorem Called.valid (h : Called r) : r.Valid := by
  apply reachable_valid
  induction h with
  | start => exact .start
  | map address length executable _ ih => exact .map address length _ ih
  | protect address length executable _ ih => exact .protect address length _ ih
  | unmap address length _ ih => exact .unmap address length ih

theorem unmap_flag_before (valid : r.Valid) {address length : Nat}
    (found : (guestMemoryRuntimeUnmap r address length).flagAt x = some f) :
    r.flagAt x = some f := by
  unfold guestMemoryRuntimeUnmap at found
  cases bad : badRange address length with
  | true =>
    rw [bad] at found
    exact found
  | false =>
    have := badRange_eq_false.mp bad
    simp only [bad, Bool.false_eq_true, ↓reduceIte] at found
    by_cases done : (runtimeReplaceLocked r address (address + length) false 0).1 = 0
    · rw [replace_flagAt valid (by omega) false 0 done x] at found
      split at found
      · cases found
      · exact found
    · rwa [flagAt_congr (replace_failed done)] at found

/-- So there is only one flag for code. -/
theorem Called.flag (h : Called r) (found : r.flagAt x = some f) :
    f = 0 ∨ f = 1 := by
  have truth (b : Bool) : comparison b = 0 ∨ comparison b = 1 := by cases b <;> decide
  induction h with
  | start => cases found
  | @map r address length executable before ih =>
    by_cases done : (guestMemoryRuntimeMap r address length (comparison executable)).code = 0
    · rw [map_flagAt before.valid done] at found
      split at found
      · cases found
        exact truth executable
      · exact ih found
    · rw [flagAt_congr (map_failed done)] at found
      exact ih found
  | @protect r address length executable before ih =>
    by_cases done : (guestMemoryRuntimeProtect r address length (comparison executable)).code = 0
    · rw [(protect_done before.valid done).2] at found
      split at found
      · cases found
        exact truth executable
      · exact ih found
    · rw [flagAt_congr (protect_failed done)] at found
      exact ih found
  | unmap address length before ih => exact ih (unmap_flag_before before.valid found)

end Linuxemu.Registry

namespace Linuxemu.Guest
open Lib Registry

/-- A range of at least one byte that meets no load segment is executable exactly when it
does not wrap and each of its bytes lies in a runtime mapping flagged as code: neighbours
with one flag are always one entry. -/
theorem executable_query_per_byte (m : Machine) (registry : Called m.registry)
    (address length : Nat) (positive : 1 ≤ length)
    (clear : ∀ x ∈ m.loadSegments,
      rangesOverlap address (address + length) x.mapStart (x.mapStart + x.mapLength) = false) :
    m.guestMemoryIsExecutable address length = true ↔
      address + length < 2 ^ 32 ∧ ∀ x, address ≤ x → x < address + length →
        ∃ p ∈ m.registry.runtimeMappings, p.Covers x ∧ p.flag ≠ 0 := by
  have noSegment : (m.loadSegments.any fun x =>
      x.finalProtection.exec && decide (x.mapStart ≤ address) &&
        decide (address + length ≤ x.mapStart + x.mapLength)) = false := by
    rw [List.any_eq_false]
    intro x member inside
    have apart := clear x member
    simp only [rangesOverlap, Bool.and_eq_false_iff, decide_eq_false_iff_not] at apart
    simp only [Bool.and_eq_true, decide_eq_true_eq] at inside
    omega
  have wraps : (!decide (uintptrMax - address < length)) = true ↔ address + length < 2 ^ 32 := by
    rw [Bool.not_eq_true', decide_eq_false_iff_not, uintptrMax]
    omega
  have apart := registry.valid.canonical.apart
  rw [Machine.guestMemoryIsExecutable, noSegment, Bool.false_or, Bool.and_eq_true, wraps,
    List.any_eq_true]
  refine and_congr_right fun _ => ⟨?_, ?_⟩
  · rintro ⟨p, member, inside⟩ x low high
    simp only [Bool.and_eq_true, decide_eq_true_eq] at inside
    exact ⟨p, member, ⟨by omega, by omega⟩, inside.1.1⟩
  · intro bytes
    have flags (x : Nat) (low : address ≤ x) (high : x < address + length) :
        m.registry.flagAt x = some 1 := by
      obtain ⟨p, member, covers, code⟩ := bytes x low high
      have found : m.registry.flagAt x = some p.flag :=
        apart.flagAt_eq_some.mpr ⟨p, member, covers, rfl⟩
      obtain zero | one := registry.flag found
      · exact absurd zero code
      · rw [found, one]
    obtain ⟨p, member, flag, low, high⟩ :=
      registry.valid.canonical.one_piece (by omega : address < address + length) flags
    refine ⟨p, member, ?_⟩
    simp only [Bool.and_eq_true, decide_eq_true_eq]
    exact ⟨⟨by rw [flag]; decide, low⟩, high⟩

/-- Two mappings of code side by side, made by two calls, answer for a range across both. -/
theorem executable_across_two_mappings :
    let one := (guestMemoryRuntimeMap Registry.empty 0x20000 4096 1).table
    let two := (guestMemoryRuntimeMap one 0x21000 4096 1).table
    Machine.guestMemoryIsExecutable { bareMachine with registry := two } 0x20ffe 4 = true := by
  intro one two
  have called : Called two := .map 0x21000 4096 true (.map 0x20000 4096 true .start)
  have entries : two.runtimeMappings = [⟨0x20000, 0x22000, 1⟩] := by decide +kernel
  refine (executable_query_per_byte { bareMachine with registry := two } called 0x20ffe 4
    (by decide) (by simp [bareMachine])).mpr ⟨by decide, ?_⟩
  intro x low high
  refine ⟨⟨0x20000, 0x22000, 1⟩, ?_, ⟨by dsimp only; omega, by dsimp only; omega⟩, by decide⟩
  show _ ∈ two.runtimeMappings
  rw [entries]
  exact List.mem_cons_self

end Linuxemu.Guest
