import Linuxemu.RegistryMap

/-! Every state of the registry that calls can reach. -/
namespace Linuxemu.Registry
open Lib

inductive Reachable : Table → Prop
  | start : Reachable empty
  | map {r : Table} (address length : Nat) (executable : Int) : Reachable r →
      Reachable (guestMemoryRuntimeMap r address length executable).table
  | protect {r : Table} (address length : Nat) (executable : Int) : Reachable r →
      Reachable (guestMemoryRuntimeProtect r address length executable).table
  | unmap {r : Table} (address length : Nat) : Reachable r →
      Reachable (guestMemoryRuntimeUnmap r address length)

theorem reachable_valid {r : Table} (h : Reachable r) : r.Valid := by
  induction h with
  | start => exact ⟨Piece.canonical_nil, by decide, by simp [empty]⟩
  | map address length executable _ ih => exact map_valid ih address length executable
  | protect address length executable _ ih => exact protect_valid ih address length executable
  | unmap address length _ ih => exact unmap_valid ih address length

/-- Mapping and protecting change the flag of exactly the bytes of their range,
and a call that fails changes nothing. -/
theorem registry_is_flag_map {r : Table} (h : Reachable r) (address length : Nat)
    (executable : Int) (positive : 0 < length) (fits : address + length ≤ uintptrMax) :
    let mapped := guestMemoryRuntimeMap r address length executable
    let protect := guestMemoryRuntimeProtect r address length executable
    (mapped.code = 0 → ∀ x, mapped.table.flagAt x =
      if address ≤ x ∧ x < address + length then some executable else r.flagAt x) ∧
    (mapped.code ≠ 0 → mapped.table.runtimeMappings = r.runtimeMappings) ∧
    (protect.code = 0 →
      (∀ x, protect.table.flagAt x =
        if address ≤ x ∧ x < address + length then some executable else r.flagAt x) ∧
      ∀ x, address ≤ x → x < address + length → r.flagAt x ≠ none) ∧
    (protect.code = 1 ↔ ∃ x, address ≤ x ∧ x < address + length ∧ r.flagAt x = none) ∧
    (protect.code ≠ 0 → protect.table.runtimeMappings = r.runtimeMappings) := by
  intro mapped protect
  have valid := reachable_valid h
  refine ⟨map_flagAt valid, map_failed, fun done => ?_, ?_, protect_failed⟩
  · obtain ⟨owned, flags⟩ := protect_done valid done
    exact ⟨flags, owned⟩
  · obtain ⟨hole, code, -⟩ | ⟨owned, codes, -⟩ := protect_cases r executable positive fits
    · exact iff_of_true code (by simpa using hole)
    · have refused : protect.code ≠ 1 := by
        obtain ⟨-, code⟩ | ⟨-, code⟩ := codes <;> exact code ▸ by decide
      refine iff_of_false refused ?_
      rintro ⟨x, low, high, missing⟩
      exact owned x low high missing

/-- A page of code inside a data mapping: the flag changes there and nowhere else. -/
theorem protect_inside_data :
    let r := (guestMemoryRuntimeMap empty 4096 12288 0).table
    (guestMemoryRuntimeProtect r 8192 4096 1).table.flagAt 8191 = some 0 ∧
    (guestMemoryRuntimeProtect r 8192 4096 1).table.flagAt 8192 = some 1 := by
  intro r
  have spec := registry_is_flag_map (.map 4096 12288 0 .start) 8192 4096 1 (by decide) (by decide)
  have flags := (spec.2.2.1 (by decide +kernel)).1
  exact ⟨(flags 8191).trans (by decide +kernel), (flags 8192).trans (by decide +kernel)⟩

/-- The entries of every reachable registry are non-empty, in strict order,
disjoint and joined as far as they can be; they fit, and no call ever wrote past
the scratch array. -/
theorem registry_invariant {r : Table} (h : Reachable r) :
    (∀ m ∈ r.runtimeMappings, m.start < m.stop) ∧
    r.runtimeMappings.Pairwise (fun m n => m.start < n.start) ∧
    r.runtimeMappings.Pairwise (fun m n => ∀ x, ¬ (m.Covers x ∧ n.Covers x)) ∧
    r.runtimeMappings.IsChain (fun m n => ¬ (m.stop = n.start ∧ m.flag = n.flag)) ∧
    r.runtimeMappings.length ≤ maxRuntimeMappings ∧
    ∀ i ∈ r.runtimeMappingScratch.written, i < maxRuntimeMappings + 2 := by
  have valid := reachable_valid h
  obtain ⟨full, sorted⟩ := valid.canonical.sorted
  refine ⟨full, ?_, ?_, ?_, valid.bounded, valid.writes⟩
  · apply sorted.imp_of_mem
    intro m n hm _ le
    have := full m hm
    omega
  · apply sorted.imp
    intro m n le x both
    simp only [Piece.Covers] at both
    omega
  · apply valid.canonical.split.imp
    intro m n apart both
    rw [Piece.touches_iff.mpr both] at apart
    cases apart

/-- A page made executable and plain again leaves one entry behind. -/
theorem protected_back_is_one_entry :
    let data := (guestMemoryRuntimeMap empty 4096 12288 0).table
    let code := (guestMemoryRuntimeProtect data 8192 4096 1).table
    let back := (guestMemoryRuntimeProtect code 8192 4096 0).table
    code.runtimeMappings.length = 3 ∧ back.runtimeMappings = [⟨4096, 16384, 0⟩] ∧
    ∀ i ∈ back.runtimeMappingScratch.written, i < maxRuntimeMappings + 2 := by
  intro data code back
  have h : Reachable back := .protect 8192 4096 0 (.protect 8192 4096 1 (.map 4096 12288 0 .start))
  exact ⟨by decide +kernel, by decide +kernel, (registry_invariant h).2.2.2.2.2⟩

end Linuxemu.Registry
