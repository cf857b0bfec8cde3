import Linuxemu.HeapWindow
import Linuxemu.Lib.Hull

/-! The unmapping of its own stack that a thread puts off to its end (`guest_thread.c`):
several ranges are kept as one. -/
namespace Linuxemu.Guest
open Lib Registry

/-- `finish_guest_thread` as far as memory goes. -/
def finishGuestThread (m : Machine) : Machine :=
  if m.deferredUnmapLength ≠ 0 then
    let unmapped := m.munmap m.deferredUnmapStart m.deferredUnmapLength
    { unmapped with
      image := armPatchForgetRange m.deferredUnmapStart m.deferredUnmapLength unmapped.image
      registry :=
        guestMemoryRuntimeUnmap m.registry m.deferredUnmapStart m.deferredUnmapLength }
  else m

/-- The thread's end passes this page to `munmap`. -/
def Machine.finishUnmaps (m : Machine) (page : Nat) : Prop :=
  ∃ c ∈ (finishGuestThread m).calls.take ((finishGuestThread m).calls.length - m.calls.length),
    c.kind = .munmap ∧ m.image.host.inSpan c.start c.length page = true

theorem finishUnmaps_iff (m : Machine) (page : Nat) :
    m.finishUnmaps page ↔ m.deferredUnmapLength ≠ 0 ∧
      m.image.host.inSpan m.deferredUnmapStart m.deferredUnmapLength page = true := by
  unfold Machine.finishUnmaps finishGuestThread
  by_cases some : m.deferredUnmapLength ≠ 0
  · rw [if_pos some]
    simp [Machine.munmap, Machine.note, some]
  · rw [if_neg some]
    simp [some]

/-- A range to unmap, in bytes. -/
structure Deferral where
  address : Nat
  length : Nat
  deriving DecidableEq, Repr

def Deferral.span (d : Deferral) : Span := ⟨d.address, d.address + d.length⟩

/-- Calls of `munmap` by one thread that have been put off, the last one first. In between
anything may happen that leaves the thread's own record alone. -/
inductive Deferrals : List Deferral → Machine → Prop
  | start {m : Machine} (fresh : m.deferredUnmapLength = 0) : Deferrals [] m
  | munmap {ranges : List Deferral} {m m' : Machine} {address length : UInt32} {e : MunmapHost}
      (before : Deferrals ranges m) (done : linuxMunmapRuntime address length e m = (0, m'))
      (deferred : (guestThreadDeferActiveStackUnmap address.toNat
        (alignUp length.toNat m.pageBytes) e.activeStack m).isSome = true) :
      Deferrals (⟨address.toNat, alignUp length.toNat m.pageBytes⟩ :: ranges) m'
  | other {ranges : List Deferral} {m m' : Machine} (before : Deferrals ranges m)
      (start : m'.deferredUnmapStart = m.deferredUnmapStart)
      (length : m'.deferredUnmapLength = m.deferredUnmapLength)
      (pageSize : m'.image.host.pageSize = m.image.host.pageSize) : Deferrals ranges m'

variable {ranges : List Deferral} {m : Machine}

/-- Such a call has passed the checks of `munmap` and ends with the deferral. -/
theorem munmap_deferred {address length : UInt32} {e : MunmapHost} {m' : Machine}
    (done : linuxMunmapRuntime address length e m = (0, m'))
    (deferred : (guestThreadDeferActiveStackUnmap address.toNat
      (alignUp length.toNat m.pageBytes) e.activeStack m).isSome = true) :
    address.toNat % m.pageBytes = 0 ∧ 0 < alignUp length.toNat m.pageBytes ∧
    guestThreadDeferActiveStackUnmap address.toNat (alignUp length.toNat m.pageBytes)
      e.activeStack m = some m' := by
  obtain ⟨later, found⟩ := Option.isSome_iff_exists.mp deferred
  unfold linuxMunmapRuntime at done
  dsimp only at done
  split at done
  · cases done
  · rename_i good
    split at done
    · cases done
    · rename_i foreign
      have owned : m.guestMemoryRuntimeOwned address.toNat
          (alignUp length.toNat m.pageBytes) = true := by simpa using foreign
      rw [found] at done
      cases done
      exact ⟨by omega, ((guestMemoryRuntimeOwned_iff _ _ _).mp owned).1, found⟩

/-- What is kept of the ranges: their hull. -/
structure Deferred (ranges : List Deferral) (m : Machine) : Prop where
  aligned : ∀ d ∈ ranges, d.address % m.pageBytes = 0 ∧ d.length % m.pageBytes = 0 ∧ 0 < d.length
  none : ranges = [] → m.deferredUnmapLength = 0
  hull : ranges ≠ [] → Hull (ranges.map Deferral.span)
    ⟨m.deferredUnmapStart, m.deferredUnmapStart + m.deferredUnmapLength⟩

theorem Deferred.full (kept : Deferred ranges m) :
    ∀ s ∈ ranges.map Deferral.span, s.start < s.stop := by
  intro s member
  obtain ⟨d, known, rfl⟩ := List.mem_map.mp member
  exact Nat.lt_add_of_pos_right (kept.aligned d known).2.2

/-- Something is put off as soon as there is a range. -/
theorem Deferred.length_ne (kept : Deferred ranges m) :
    m.deferredUnmapLength ≠ 0 ↔ ranges ≠ [] := by
  refine ⟨fun some empty => some (kept.none empty), fun nonempty zero => ?_⟩
  have hull := kept.hull nonempty
  obtain ⟨s, member, start⟩ := hull.start
  have low : s.start = m.deferredUnmapStart := start
  have most : s.stop ≤ m.deferredUnmapStart + m.deferredUnmapLength := hull.most s member
  have := kept.full s member
  omega

theorem Deferred.munmap {m' : Machine} {address length : Nat} {stack : Option Nat}
    (kept : Deferred ranges m) (aligned : address % m.pageBytes = 0)
    (whole : length % m.pageBytes = 0) (positive : 0 < length)
    (deferred : guestThreadDeferActiveStackUnmap address length stack m = some m') :
    Deferred (⟨address, length⟩ :: ranges) m' := by
  unfold guestThreadDeferActiveStackUnmap at deferred
  split at deferred
  · cases deferred
  split at deferred
  · cases deferred
  cases deferred
  refine ⟨?_, fun empty => absurd empty (List.cons_ne_nil _ _), fun _ => ?_⟩
  · intro d member
    obtain rfl | member := List.mem_cons.mp member
    · exact ⟨aligned, whole, positive⟩
    · exact kept.aligned d member
  · by_cases empty : ranges = []
    · have none := kept.none empty
      have single := Hull.single (Deferral.span ⟨address, length⟩)
      simp only [empty, none, ne_eq, not_true_eq_false, false_and, ↓reduceIte, List.map_cons,
        List.map_nil, Nat.add_sub_cancel_left]
      exact single
    · have some := kept.length_ne.mpr empty
      have hull := (kept.hull empty).cons (Deferral.span ⟨address, length⟩)
      rw [List.map_cons]
      convert hull using 2
      · simp only [some, ne_eq, not_false_eq_true, true_and, Deferral.span]
        split <;> omega
      · simp only [some, ne_eq, not_false_eq_true, true_and, Deferral.span]
        split <;> split <;> omega

theorem Deferrals.kept (run : Deferrals ranges m) :
    Deferred ranges m := by
  induction run with
  | start fresh => exact ⟨by simp, fun _ => fresh, fun some => absurd rfl some⟩
  | @munmap _ m _ _ length _ _ done deferred ih =>
    obtain ⟨aligned, positive, later⟩ := munmap_deferred done deferred
    exact ih.munmap aligned (alignUp_aligned m.image.host length.toNat) positive later
  | other _ start length pageSize ih =>
    refine ⟨?_, ?_, ?_⟩
    · rw [Machine.pageBytes, pageSize]
      exact ih.aligned
    · rw [length]
      exact ih.none
    · rw [start, length]
      exact ih.hull

/-- A page is in the hull, or in a range, as its addresses are. -/
theorem inSpan_span {start length : Nat} (aligned : start % m.pageBytes = 0)
    (whole : length % m.pageBytes = 0) (a : Nat) :
    m.image.host.inSpan start length (a / m.pageBytes) = true ↔
      (Span.mk start (start + length)).Has a := by
  rw [Machine.pageBytes, inSpan_iff m.image.host aligned, pageCount_exact m.image.host whole]
  rfl

/-- The hull begins and ends on page boundaries, as every range does. -/
theorem Deferred.hull_aligned (kept : Deferred ranges m) (nonempty : ranges ≠ []) :
    m.deferredUnmapStart % m.pageBytes = 0 ∧
      m.deferredUnmapLength % m.pageBytes = 0 := by
  have hull := kept.hull nonempty
  obtain ⟨s, member, start⟩ := hull.start
  obtain ⟨t, other, stop⟩ := hull.stop
  obtain ⟨d, known, rfl⟩ := List.mem_map.mp member
  obtain ⟨e, there, rfl⟩ := List.mem_map.mp other
  have low : d.address = m.deferredUnmapStart := start
  have high : e.address + e.length = m.deferredUnmapStart + m.deferredUnmapLength := stop
  have first : m.deferredUnmapStart % m.pageBytes = 0 := low ▸ (kept.aligned d known).1
  obtain ⟨aligned, whole, -⟩ := kept.aligned e there
  have last : (m.deferredUnmapStart + m.deferredUnmapLength) % m.pageBytes = 0 := by
    rw [← high, Nat.add_mod, aligned, whole, Nat.zero_mod]
  exact ⟨first, (Nat.dvd_add_right (Nat.dvd_of_mod_eq_zero first)).mp
    (Nat.dvd_of_mod_eq_zero last) |> Nat.mod_eq_zero_of_dvd⟩

/-- At its end a thread unmaps exactly the pages it has asked for when its ranges leave no gap
between them, and only then. -/
theorem deferred_unmap_exact_iff {ranges : List Deferral} {m : Machine}
    (run : Deferrals ranges m) :
    (∀ page, m.finishUnmaps page ↔
      ∃ d ∈ ranges, m.image.host.inSpan d.address d.length page = true) ↔
    Gapless (ranges.map Deferral.span) := by
  have kept := run.kept
  by_cases empty : ranges = []
  · have none := kept.none empty
    simp [finishUnmaps_iff, none, empty, Gapless]
  have some := kept.length_ne.mpr empty
  obtain ⟨aligned, whole⟩ := kept.hull_aligned empty
  rw [← (kept.hull empty).exact_iff kept.full]
  have positive : 0 < m.pageBytes := m.image.host.pageSize.bytes_pos
  have ranged (a : Nat) : (∃ d ∈ ranges, m.image.host.inSpan d.address d.length
      (a / m.pageBytes) = true) ↔ ∃ s ∈ ranges.map Deferral.span, s.Has a := by
    simp only [List.mem_map, exists_exists_and_eq_and]
    refine exists_congr fun d => and_congr_right fun known => ?_
    obtain ⟨first, last, -⟩ := kept.aligned d known
    exact inSpan_span first last a
  have hulled (a : Nat) : m.finishUnmaps (a / m.pageBytes) ↔
      (Span.mk m.deferredUnmapStart (m.deferredUnmapStart + m.deferredUnmapLength)).Has a := by
    rw [finishUnmaps_iff, inSpan_span aligned whole]
    exact and_iff_right some
  constructor
  · intro exactly a
    rw [← hulled, ← ranged]
    exact exactly _
  · intro exactly page
    have same := exactly (page * m.pageBytes)
    rw [← hulled, ← ranged, Nat.mul_div_cancel _ positive] at same
    exact same

/-! ### Two stacks -/

/-- The lowest page of the stack is to be unmapped, while the thread runs on it. -/
def firstDeferral : Machine :=
  (linuxMunmapRuntime 0x40000000 0x1000 ⟨some 0x40000800, none⟩ smallProgram).2

/-- Then the second page, with the stack pointer there. -/
def adjacentDeferral : Machine :=
  (linuxMunmapRuntime 0x40001000 0x1000 ⟨some 0x40001800, none⟩ firstDeferral).2

/-- Or the third. -/
def distantDeferral : Machine :=
  (linuxMunmapRuntime 0x40002000 0x1000 ⟨some 0x40002800, none⟩ firstDeferral).2

/-- A call at a page of the stack, from a stack pointer on that page. -/
theorem Deferrals.page (before : Deferrals ranges m) (address : UInt32) (stack : Nat)
    (facts : (linuxMunmapRuntime address 0x1000 ⟨some stack, none⟩ m).1 = 0 ∧
      alignUp 0x1000 m.pageBytes = 0x1000 ∧
      (guestThreadDeferActiveStackUnmap address.toNat 0x1000 (some stack) m).isSome = true) :
    Deferrals (⟨address.toNat, 0x1000⟩ :: ranges)
      (linuxMunmapRuntime address 0x1000 ⟨some stack, none⟩ m).2 := by
  obtain ⟨code, rounded, deferred⟩ := facts
  have length : alignUp (0x1000 : UInt32).toNat m.pageBytes = 0x1000 := rounded
  have next : Deferrals (⟨address.toNat, alignUp (0x1000 : UInt32).toNat m.pageBytes⟩ :: ranges)
      (linuxMunmapRuntime address 0x1000 ⟨some stack, none⟩ m).2 :=
    .munmap before (eq_pair code) (by rw [length]; exact deferred)
  rwa [length] at next

theorem firstDeferral_run : Deferrals [⟨0x40000000, 0x1000⟩] firstDeferral :=
  Deferrals.page (m := smallProgram) (.start (by decide +kernel)) 0x40000000 0x40000800
    (by decide +kernel)

/-- Neighbouring ranges are unmapped, and nothing else. -/
theorem adjacent_stacks_unmapped :
    Deferrals [⟨0x40001000, 0x1000⟩, ⟨0x40000000, 0x1000⟩] adjacentDeferral ∧
    ∀ page, adjacentDeferral.finishUnmaps page ↔ ∃ d ∈
      [(⟨0x40001000, 0x1000⟩ : Deferral), ⟨0x40000000, 0x1000⟩],
      adjacentDeferral.image.host.inSpan d.address d.length page = true := by
  have run : Deferrals [⟨0x40001000, 0x1000⟩, ⟨0x40000000, 0x1000⟩] adjacentDeferral :=
    firstDeferral_run.page 0x40001000 0x40001800 (by decide +kernel)
  exact ⟨run, (deferred_unmap_exact_iff run).mpr (by decide)⟩

/-- The page between two ranges goes with them: it was mapped, nobody asked to unmap it, and
the thread's end takes it away. -/
theorem page_between_stacks_unmapped :
    let ranges : List Deferral := [⟨0x40002000, 0x1000⟩, ⟨0x40000000, 0x1000⟩]
    Deferrals ranges distantDeferral ∧ distantDeferral.finishUnmaps 0x40001 ∧
      (¬ ∃ d ∈ ranges, distantDeferral.image.host.inSpan d.address d.length 0x40001 = true) ∧
      (distantDeferral.image.host.pages 0x40001).isSome = true ∧
      (finishGuestThread distantDeferral).image.host.pages 0x40001 = none := by
  intro ranges
  refine ⟨firstDeferral_run.page 0x40002000 0x40002800 (by decide +kernel), ?_⟩
  rw [finishUnmaps_iff]
  decide +kernel

end Linuxemu.Guest
