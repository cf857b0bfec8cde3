import Linuxemu.MemoryRuns
import Linuxemu.MmapOutcome

/-! The ranges that memory calls pass to the host. `mmap2`, `mprotect` and `munmap`
pass only what the registry owns, a load segment, or what they have just received. -/
namespace Linuxemu.Guest
open Lib Registry
variable {result : Int × Machine} {m : Machine} {length start : Nat} {r : Registers} {e : MmapHost}
variable {protection : Protection} {a b c : Machine}

/-- The registry owns the range, or it is an `mprotect` inside a load segment, or the
mapping that the same call has just received. -/
def HostCall.allowed (c : HostCall) : Bool :=
  c.owned || (decide (c.kind = .mprotect) && c.inSegment) || c.justReceived

/-- A step that leaves the heap and the segments alone and makes allowed host calls. -/
structure Steady (m m' : Machine) : Prop where
  segments : m'.loadSegments = m.loadSegments
  current : m'.currentBreak = m.currentBreak
  minimum : m'.minimumBreak = m.minimumBreak
  mappingEnd : m'.breakMappingEnd = m.breakMappingEnd
  pageSize : m'.image.host.pageSize = m.image.host.pageSize
  calls : ∀ c ∈ m'.calls, c ∈ m.calls ∨ c.allowed = true

/-- A steady step that takes nothing from the registry. -/
structure Kept (m m' : Machine) : Prop extends Steady m m' where
  registry : m.registry.Grows m'.registry

theorem Kept.refl (m : Machine) : Kept m m :=
  ⟨⟨rfl, rfl, rfl, rfl, rfl, fun _ => Or.inl⟩, .refl _⟩

theorem Steady.trans (first : Steady a b) (second : Steady b c) :
    Steady a c where
  segments := second.segments.trans first.segments
  current := second.current.trans first.current
  minimum := second.minimum.trans first.minimum
  mappingEnd := second.mappingEnd.trans first.mappingEnd
  pageSize := second.pageSize.trans first.pageSize
  calls := by
    intro x member
    obtain old | fine := second.calls x member
    · exact first.calls x old
    · exact Or.inr fine

theorem Kept.trans (first : Kept a b) (second : Kept b c) : Kept a c :=
  ⟨first.toSteady.trans second.toSteady, first.registry.trans second.registry⟩

theorem Kept.image (m : Machine) {image : Image}
    (size : image.host.pageSize = m.image.host.pageSize) : Kept m { m with image } :=
  ⟨⟨rfl, rfl, rfl, rfl, size, fun _ => Or.inl⟩, .refl _⟩

theorem Steady.table (m : Machine) (registry : Table) : Steady m { m with registry } :=
  ⟨rfl, rfl, rfl, rfl, rfl, fun _ => Or.inl⟩

theorem Kept.table (m : Machine) {registry : Table} (grows : m.registry.Grows registry) :
    Kept m { m with registry } :=
  ⟨.table m registry, grows⟩

/-- The host may be given this range now. -/
def Machine.MayPass (m : Machine) (kind : HostCallKind) (start length : Nat) : Prop :=
  m.guestMemoryRuntimeOwned start length = true ∨
  (kind = .mprotect ∧ m.insideSegment start length = true) ∨ m.received = some (start, length)

theorem note_kept {kind : HostCallKind} (may : m.MayPass kind start length) :
    Kept m (m.note kind start length) := by
  refine ⟨⟨rfl, rfl, rfl, rfl, rfl, ?_⟩, .refl _⟩
  intro c member
  cases member with
  | tail _ old => exact Or.inl old
  | head =>
    right
    obtain owned | ⟨kind, inside⟩ | received := may
    · simp [HostCall.allowed, owned]
    · simp [HostCall.allowed, kind, inside]
    · simp [HostCall.allowed, received]

theorem munmap_kept (may : m.MayPass .munmap start length) :
    Kept m (m.munmap start length) :=
  (note_kept may).trans (.image _ rfl)

theorem mprotect_kept (protection : Protection) (failure : Option Errno)
    (may : m.MayPass .mprotect start length) :
    let m' := (m.mprotect start length protection failure).2
    Kept m m' ∧ m'.received = m.received ∧ m'.registry = m.registry := by
  have noted := note_kept may
  obtain ⟨errno, asked⟩ | asked := mprotect_cases m start length protection failure
  · rw [asked]
    exact ⟨noted, rfl, rfl⟩
  · rw [asked]
    exact ⟨noted.trans (.image _ rfl), rfl, rfl⟩

theorem mmap_kept {address : Nat} (protection : Protection) {flags : MapFlags}
    (descriptor offset : Int) (outcome : Except Errno Nat)
    (may : flags.fixed = true → m.MayPass .mmapFixed address (alignUp length m.pageBytes)) :
    let result := m.mmap address length protection flags descriptor offset outcome
    Kept m result.2 ∧ result.2.registry = m.registry ∧ ∀ mapping, result.1 = .ok mapping →
      result.2.received = some (mapping, alignUp length m.pageBytes) := by
  have noted : Kept m (m.noteFixed flags address (alignUp length m.pageBytes)) := by
    unfold Machine.noteFixed
    split
    · rename_i fixed
      exact note_kept (may fixed)
    · exact .refl m
  obtain ⟨calls, same⟩ := noteFixed_frame m flags address (alignUp length m.pageBytes)
  obtain ⟨errno, -, result⟩ | ⟨mapping, host, asked, result⟩ :=
    mmap_cases m address length protection flags descriptor offset outcome
  · rw [result]
    rw [same] at noted ⊢
    exact ⟨noted, rfl, fun _ wrong => by cases wrong⟩
  · have size : host.pageSize = m.image.host.pageSize := by
      rw [(mmap_granted asked).after]
      rfl
    rw [result]
    rw [same] at noted ⊢
    refine ⟨⟨⟨rfl, rfl, rfl, rfl, size, noted.calls⟩, .refl _⟩, rfl, ?_⟩
    intro mapping same
    cases same
    rfl

/-! ## mmap2 -/

section Mmap2
variable {m : Machine} {address length : Nat}

theorem abandon_kept (received : m.received = some (address, length)) :
    Kept m (m.abandon address length) := by
  refine (Kept.image m ?_).trans (munmap_kept (Or.inr (Or.inr received)))
  rfl

theorem registerMapping_kept (protection : Protection)
    (received : m.received = some (address, length)) :
    Kept m (m.registerMapping protection address length).2 := by
  have table := Kept.table m (map_grows m.registry address length
    (if protection.exec then 1 else 0))
  obtain ⟨-, result⟩ | ⟨-, result⟩ := registerMapping_cases m protection address length
  · rw [result]
    exact table.trans (abandon_kept received)
  · rw [result]
    exact table

theorem settleMapping_kept (r : Registers) (e : MmapHost) (protection : Protection)
    (received : m.received = some (address, length)) :
    Kept m (m.settleMapping r e protection address length).2 := by
  unfold Machine.settleMapping
  split
  · exact abandon_kept received
  · split
    · exact registerMapping_kept protection received
    · obtain ⟨kept, same, -⟩ := mprotect_kept protection e.mprotect (Or.inr (Or.inr received))
      rw [received] at same
      split
      · rename_i result
        rw [result] at kept same
        exact kept.trans (abandon_kept same)
      · rename_i result
        rw [result] at kept same
        exact kept.trans (registerMapping_kept protection same)

theorem patchMapping_kept (received : m.received = some (address, length))
    (fits : address + length ≤ 2 ^ 32)
    (done : m.patchMapping r e protection address length = some result) : Kept m result.2 := by
  unfold Machine.patchMapping at done
  dsimp only at done
  have scan {error : Option Errno} {patched : Image}
      (step : (if r.mapAnonymous then some (none, armPatchForgetRange address length m.image)
        else armPatchElfMapping r.descriptor r.offset address length e.elf
          (armPatchForgetRange address length m.image)) = some (error, patched)) :
      patched.host.pageSize = m.image.host.pageSize := by
    split at step
    · cases step
      rfl
    · obtain ⟨bytes, frame⟩ := (armPatchElfMapping_patched fits step).frame
      rw [frame]
      rfl
  split at done
  · cases done
  · rename_i step
    cases done
    exact (Kept.image m (scan step)).trans (abandon_kept received)
  · rename_i step
    cases done
    exact (Kept.image m (scan step)).trans (settleMapping_kept r e protection received)

theorem finishMmap2_kept (received : m.received = some (address, length))
    (done : m.finishMmap2 r e protection address length = some result) : Kept m result.2 := by
  have taken : Kept m (m.munmap address length) := munmap_kept (Or.inr (Or.inr received))
  unfold Machine.finishMmap2 at done
  split at done
  · cases done
    exact taken
  · rename_i inside
    have fits : address + length ≤ 2 ^ 32 := by
      unfold guestMaxAddress at inside
      omega
    by_cases copies : r.copies protection = true
    · rw [if_pos copies] at done
      split at done
      · cases done
      · cases done
        exact taken
      · rename_i m₂ copied
        obtain ⟨_, _, wrong⟩ | ⟨_, _, same⟩ := copyExecutableFile_cases copied
        · cases wrong
        · cases same
          refine Kept.trans ?_ (patchMapping_kept ?_ fits done)
          · exact .image m rfl
          · exact received
    · rw [if_neg copies] at done
      exact patchMapping_kept received fits done

end Mmap2

theorem linuxMmap2_kept (call : linuxMmap2 r e m = some result) : Kept m result.2 := by
  unfold linuxMmap2 at call
  split at call
  · cases call
    exact .refl m
  · rename_i protection checked
    obtain ⟨kept, -, received⟩ := mmap_kept (r.mappingProtection protection)
      (if r.copies protection then -1 else r.descriptor)
      (if r.copies protection then 0 else r.offset) e.mmap
      (fun fixed : (r.hostFlags protection).fixed = true =>
        Or.inl ((checkMmap2_ok checked).fixed fixed).2)
    split at call
    · rename_i asked
      cases call
      rw [asked] at kept
      exact kept
    · rename_i address m₁ asked
      rw [asked] at kept received
      refine kept.trans (finishMmap2_kept ?_ call)
      rw [received address rfl, Machine.pageBytes, Machine.pageBytes, kept.pageSize]

/-! ## mprotect -/

theorem rollback_kept (m : Machine) {patchesBefore : Nat} {image : Image}
    (undone : armPatchRollback patchesBefore m.image = some image) : Kept m { m with image } := by
  obtain ⟨⟨bytes, frame⟩, -⟩ := armPatchRollback_spec undone
  exact .image m (by rw [frame])

section Mprotect
variable {m : Machine} {patchesBefore address length : Nat} {protection : Protection}
  {e : MprotectHost} {result : Int × Machine}

section
variable (owned : m.guestMemoryRuntimeOwned address length = true)
include owned

theorem undoPatches_kept {errno : Errno}
    (done : m.undoPatches patchesBefore address length protection errno e = some result) :
    Kept m result.2 := by
  unfold Machine.undoPatches at done
  split at done
  · cases done
  · rename_i image undone
    cases done
    refine (rollback_kept m undone).trans (mprotect_kept protection e.relock ?_).1
    exact Or.inl owned

theorem finalProtect_kept
    (done : m.finalProtect patchesBefore address length protection e = some result) :
    Kept m result.2 := by
  have kept := (mprotect_kept protection e.final (Or.inl owned)).1
  unfold Machine.finalProtect at done
  split at done
  · rename_i errno m₁ asked
    rw [asked] at kept
    by_cases exec : protection.exec = true
    · rw [if_pos exec] at done
      split at done
      · cases done
      · rename_i image undone
        cases done
        exact kept.trans (rollback_kept m₁ undone)
    · rw [if_neg exec] at done
      cases done
      exact kept
  · rename_i m₁ asked
    rw [asked] at kept
    cases done
    exact kept.trans (.table m₁ (protect_grows _ _ _ _))

theorem protectRuntime_kept (done : m.protectRuntime address length protection e = some result) :
    Kept m result.2 := by
  unfold Machine.protectRuntime at done
  dsimp only at done
  split at done
  · exact finalProtect_kept owned done
  · obtain ⟨kept, -, same⟩ := mprotect_kept ⟨true, true, true⟩ e.unlock (Or.inl owned)
    split at done
    · rename_i asked
      rw [asked] at kept
      cases done
      exact kept
    · rename_i m₁ asked
      rw [asked] at kept same
      have stillOwned : m₁.guestMemoryRuntimeOwned address length = true := by
        rw [Machine.guestMemoryRuntimeOwned, same]
        exact owned
      have scanned {error : Option Errno} {image : Image}
          (step : armPatchRange address length m₁.image = some (error, image)) :
          Kept m { m₁ with image } := by
        obtain ⟨bytes, frame⟩ := (armPatchRange_patched step).frame
        exact kept.trans (.image m₁ (by rw [frame]))
      split at done
      · cases done
      · rename_i step
        exact (scanned step).trans (undoPatches_kept stillOwned done)
      · rename_i step
        split at done
        · exact (scanned step).trans (undoPatches_kept stillOwned done)
        · exact (scanned step).trans (finalProtect_kept stillOwned done)

end

theorem protectSegment_kept (foreign : m.guestMemoryRuntimeOwned address length = false) :
    Kept m (m.protectSegment address length protection e).2 := by
  unfold Machine.protectSegment
  split
  · exact .refl m
  · rename_i refused
    have owned : m.guestMemoryRangeOwned address length = true := by simpa using refused
    have inside : m.insideSegment address length = true := by
      rw [Machine.guestMemoryRangeOwned, Bool.and_eq_true, Bool.or_eq_true] at owned
      obtain ⟨good, inside | runtime⟩ := owned
      · exact inside
      · rw [Machine.guestMemoryRuntimeOwned, Registry.guestMemoryRuntimeOwned, good,
          runtime] at foreign
        cases foreign
    have kept := (mprotect_kept protection e.final (Or.inr (Or.inl ⟨rfl, inside⟩))).1
    split
    · exact .refl m
    · split
      · rename_i asked
        rw [asked] at kept
        exact kept
      · rename_i asked
        rw [asked] at kept
        exact kept

end Mprotect

theorem linuxMprotectRuntime_kept {address length protection : UInt32} {e : MprotectHost}
    (call : linuxMprotectRuntime address length protection e m = some result) :
    Kept m result.2 := by
  unfold linuxMprotectRuntime at call
  split at call
  · cases call
    exact .refl m
  · split at call
    · cases call
      exact .refl m
    · dsimp only at call
      split at call
      · rename_i owned
        exact protectRuntime_kept owned call
      · rename_i foreign
        cases call
        exact protectSegment_kept (by simpa using foreign)

/-! ## munmap -/

/-- `munmap` passes a range that the registry owns, and takes at most that range out of it. -/
theorem linuxMunmapRuntime_steady (address length : UInt32) (e : MunmapHost) (m : Machine) :
    let m' := (linuxMunmapRuntime address length e m).2
    Steady m m' ∧ (m'.registry = m.registry ∨ m'.registry =
      guestMemoryRuntimeUnmap m.registry address.toNat (alignUp length.toNat m.pageBytes)) := by
  have outcome := linuxMunmapRuntime_outcome address length e m
  generalize linuxMunmapRuntime address length e m = result at outcome
  cases outcome with
  | refused => exact ⟨(Kept.refl m).toSteady, .inl rfl⟩
  | deferred => exact ⟨⟨rfl, rfl, rfl, rfl, rfl, fun _ => Or.inl⟩, .inl rfl⟩
  | failed owned => exact ⟨(note_kept (.inl owned)).toSteady, .inl rfl⟩
  | unmapped _ _ owned =>
    have may : m.MayPass .munmap address.toNat (alignUp length.toNat m.pageBytes) := .inl owned
    have kept := (munmap_kept may).toSteady
    exact ⟨⟨kept.segments, kept.current, kept.minimum, kept.mappingEnd, kept.pageSize, kept.calls⟩,
      .inr rfl⟩

end Linuxemu.Guest
