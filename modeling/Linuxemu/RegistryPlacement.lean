import Linuxemu.HeapWindow
import Linuxemu.MprotectOutcome

/-! Where runtime mappings are: in whole pages, inside the guest's window, and away from
the load segments. The segments are never tested for; they stay mapped, and what the
registry takes in was free or its own. -/
namespace Linuxemu.Registry
open Lib
variable {length address start x : Nat}

/-- The flags change at page boundaries only, and only `free` bytes have one. -/
structure Table.Laid (page : Nat) (free : Nat → Prop) (r : Table) : Prop where
  valid : r.Valid
  paged : ∀ x, r.flagAt x = r.flagAt (x / page * page)
  inside : ∀ x, r.flagAt x ≠ none → free x

section Laid
variable {page : Nat} {free : Nat → Prop} {r r' : Table}

theorem Table.Laid.same (laid : r.Laid page free) (valid : r'.Valid)
    (entries : r'.runtimeMappings = r.runtimeMappings) : r'.Laid page free where
  valid := valid
  paged x := by
    rw [flagAt_congr entries, flagAt_congr entries]
    exact laid.paged x
  inside x owned := by
    rw [flagAt_congr entries] at owned
    exact laid.inside x owned

/-- An aligned range holds a whole page or nothing of it. -/
theorem page_inside_iff (positive : 0 < page) (aligned : start % page = 0)
    (whole : length % page = 0) : (start ≤ x / page * page ∧ x / page * page < start + length) ↔
      (start ≤ x ∧ x < start + length) := by
  obtain ⟨i, rfl⟩ := Nat.dvd_of_mod_eq_zero aligned
  obtain ⟨n, rfl⟩ := Nat.dvd_of_mod_eq_zero whole
  rw [← Nat.mul_add, Nat.mul_comm page i, Nat.mul_comm page (i + n),
    Nat.mul_le_mul_right_iff positive, Nat.mul_lt_mul_right positive, Nat.le_div_iff_mul_le positive,
    Nat.div_lt_iff_lt_mul positive]

section
variable (laid : r.Laid page free) (positive : 0 < page)
include laid positive

/-- A change of the flags in an aligned range. -/
theorem Table.Laid.change {value : Option Int} (aligned : start % page = 0)
    (whole : length % page = 0) (valid : r'.Valid)
    (flags : ∀ x, r'.flagAt x = if start ≤ x ∧ x < start + length then value else r.flagAt x)
    (fits : value ≠ none → ∀ x, start ≤ x → x < start + length → free x) : r'.Laid page free where
  valid := valid
  paged x := by
    rw [flags, flags, laid.paged x]
    simp only [page_inside_iff positive aligned whole]
  inside x owned := by
    rw [flags] at owned
    split at owned
    · rename_i here
      exact fits owned x here.1 here.2
    · exact laid.inside x owned

theorem Table.Laid.map (executable : Int) (aligned : address % page = 0) (whole : length % page = 0)
    (fits : ∀ x, address ≤ x → x < address + length → free x) :
    (guestMemoryRuntimeMap r address length executable).table.Laid page free := by
  have valid := map_valid laid.valid address length executable
  by_cases done : (guestMemoryRuntimeMap r address length executable).code = 0
  · exact laid.change positive aligned whole valid (map_flagAt laid.valid done) fun _ => fits
  · exact laid.same valid (map_failed done)

theorem Table.Laid.protect (executable : Int) (aligned : address % page = 0)
    (whole : length % page = 0) :
    (guestMemoryRuntimeProtect r address length executable).table.Laid page free := by
  have valid := protect_valid laid.valid address length executable
  by_cases done : (guestMemoryRuntimeProtect r address length executable).code = 0
  · obtain ⟨owned, flags⟩ := protect_done laid.valid done
    exact laid.change positive aligned whole valid flags
      fun _ x low high => laid.inside x (owned x low high)
  · exact laid.same valid (protect_failed done)

theorem Table.Laid.unmap (aligned : address % page = 0) (whole : length % page = 0) :
    (guestMemoryRuntimeUnmap r address length).Laid page free := by
  have valid := unmap_valid laid.valid address length
  unfold guestMemoryRuntimeUnmap at valid ⊢
  cases bad : badRange address length with
  | true => exact laid
  | false =>
    have := badRange_eq_false.mp bad
    rw [bad] at valid
    by_cases done : (runtimeReplaceLocked r address (address + length) false 0).1 = 0
    · exact laid.change positive aligned whole valid
        (replace_flagAt laid.valid (by omega) false 0 done) fun wrong => absurd rfl wrong
    · exact laid.same valid (replace_failed done)

end

theorem div_pred (positive : 0 < page) (off : x % page ≠ 0) :
    (x - 1) / page = x / page := by
  have split := Nat.div_add_mod x page
  have small := Nat.mod_lt x positive
  rw [show x - 1 = page * (x / page) + (x % page - 1) by omega, Nat.mul_add_div positive,
    Nat.div_eq_of_lt (show x % page - 1 < page by omega), Nat.add_zero]

/-- With flags that change at page boundaries, entries begin and end there: an entry that
began inside a page would be joined to the one before it. -/
theorem Table.Laid.entry (laid : r.Laid page free) (positive : 0 < page) {p : RuntimeMapping}
    (member : p ∈ r.runtimeMappings) : p.start % page = 0 ∧ p.stop % page = 0 ∧
      ∀ x, p.Covers x → free x := by
  have apart := laid.valid.canonical.apart
  have full := apart.full p member
  have here {x : Nat} (covers : p.Covers x) : r.flagAt x = some p.flag :=
    apart.flagAt_eq_some.mpr ⟨p, member, covers, rfl⟩
  have near {x : Nat} (off : x % page ≠ 0) : r.flagAt (x - 1) = r.flagAt x := by
    rw [laid.paged (x - 1), laid.paged x, div_pred positive off]
  refine ⟨?_, ?_, fun x covers => laid.inside x (by simp [here covers])⟩
  · by_contra off
    have some : p.start ≠ 0 := fun zero => off (zero ▸ Nat.zero_mod page)
    obtain ⟨q, known, ⟨low, high⟩, same⟩ :=
      apart.flagAt_eq_some.mp ((near off).trans (here ⟨Nat.le_refl _, full⟩))
    have meet : q.stop = p.start := by
      obtain before | behind := apart.beside known member (by rintro rfl; omega)
      · omega
      · omega
    exact laid.valid.canonical.flag_ne known member meet same
  · by_contra off
    obtain ⟨q, known, ⟨low, high⟩, same⟩ :=
      apart.flagAt_eq_some.mp ((near off).symm.trans (here ⟨by omega, by omega⟩))
    have meet : p.stop = q.start := by
      obtain before | behind := apart.beside member known (by rintro rfl; omega)
      · omega
      · omega
    exact laid.valid.canonical.flag_ne member known meet same.symm

end Laid
end Linuxemu.Registry

namespace Linuxemu.Guest
open Lib Registry
variable {m m' : Machine} {a : Nat} {code : Int}

/-! ## The invariant -/

def Machine.SegmentAt (m : Machine) (a : Nat) : Prop := ∃ x ∈ m.loadSegments, x.Holds a

/-- Inside the window and outside the program image. -/
def Machine.Free (m : Machine) (a : Nat) : Prop :=
  guestMinAddress ≤ a ∧ a < guestMaxAddress ∧ ¬ m.SegmentAt a

/-- Runtime mappings and the heap are on free bytes, and the load segments are there. The
stack is whole pages, as it is with pages of up to 1 MiB. -/
structure Machine.Placed (m : Machine) : Prop where
  stack : m.pageBytes ∣ guestStackSize
  heap : m.HeapOk
  low : guestMinAddress ≤ m.minimumBreak
  laid : m.registry.Laid m.pageBytes m.Free
  whole : ∀ x ∈ m.loadSegments,
    x.mapStart % m.pageBytes = 0 ∧ m.image.host.pageCount x.mapLength * m.pageBytes = x.mapLength
  below : m.SegmentsBelow
  mapped : ∀ a, m.SegmentAt a → (m.image.host.page a).isSome = true
  window : ∀ a, alignUp m.minimumBreak m.pageBytes ≤ a → a < m.breakMappingEnd → m.Free a

theorem pageBytes_pos (m : Machine) : 0 < m.pageBytes := m.image.host.pageSize.bytes_pos

/-- A step that leaves the segments alone and the heap on free bytes. -/
theorem Machine.Placed.step (placed : m.Placed) (segments : m'.loadSegments = m.loadSegments)
    (minimum : m'.minimumBreak = m.minimumBreak)
    (pageSize : m'.image.host.pageSize = m.image.host.pageSize) (heap : m'.HeapOk)
    (mapped : ∀ a, m.SegmentAt a → (m'.image.host.page a).isSome = true)
    (laid : m'.registry.Laid m.pageBytes m.Free)
    (window : ∀ a, alignUp m.minimumBreak m.pageBytes ≤ a → a < m'.breakMappingEnd → m.Free a) :
    m'.Placed := by
  have pages : m'.pageBytes = m.pageBytes := congrArg PageSize.bytes pageSize
  have at_eq : m'.SegmentAt = m.SegmentAt := by
    unfold Machine.SegmentAt
    rw [segments]
  have free_eq : m'.Free = m.Free := by
    unfold Machine.Free
    rw [at_eq]
  refine ⟨pages ▸ placed.stack, heap, minimum ▸ placed.low, ?_, ?_, ?_, at_eq ▸ mapped, ?_⟩
  · rw [pages, free_eq]
    exact laid
  · rw [segments, pages]
    intro x known
    rw [Host.pageCount, pageSize]
    exact placed.whole x known
  · rw [Machine.SegmentsBelow, segments]
    exact placed.below
  · rw [minimum, pages, free_eq]
    exact window

theorem Machine.Placed.steady (placed : m.Placed) (steady : Steady m m')
    (mapped : ∀ a, m.SegmentAt a → (m'.image.host.page a).isSome = true)
    (laid : m'.registry.Laid m.pageBytes m.Free) : m'.Placed :=
  placed.step steady.segments steady.minimum steady.pageSize (steady.heapOk placed.heap) mapped
    laid (steady.mappingEnd ▸ placed.window)

theorem Machine.Placed.entered (placed : m.Placed) : m.entered.Placed :=
  placed.steady ⟨rfl, rfl, rfl, rfl, rfl, fun _ => Or.inl⟩ placed.mapped placed.laid

/-- Pages that are not mapped, or of free bytes, are not the program's. -/
theorem Machine.Placed.spares (placed : m.Placed) {start length : Nat}
    (aligned : start % m.pageBytes = 0)
    (range : (∀ n, m.image.host.inSpan start length n = true → m.image.host.pages n = none) ∨
      ∀ x, start ≤ x → x < start + m.image.host.pageCount length * m.pageBytes → m.Free x)
    (segment : m.SegmentAt a) :
    m.image.host.inSpan start length (a / m.image.host.pageSize.bytes) = false := by
  by_contra inside
  rw [Bool.not_eq_false] at inside
  obtain unmapped | free := range
  · have there := placed.mapped a segment
    rw [Host.page, unmapped _ inside] at there
    cases there
  · obtain ⟨low, high⟩ := (inSpan_iff m.image.host aligned length a).mp inside
    exact (free a low high).2.2 segment

/-- Unmapping whole pages of free bytes. -/
theorem Machine.Placed.munmap_mapped (placed : m.Placed) {start length : Nat}
    (aligned : start % m.pageBytes = 0) (whole : length % m.pageBytes = 0)
    (free : ∀ x, start ≤ x → x < start + length → m.Free x) (segment : m.SegmentAt a) :
    ((m.image.host.munmap start length).page a).isSome = true := by
  have outside : m.image.host.inSpan start length (a / m.image.host.pageSize.bytes) = false := by
    refine placed.spares aligned (.inr ?_) segment
    rw [Machine.pageBytes, pageCount_exact m.image.host whole]
    exact free
  rw [Host.page, Host.munmap]
  dsimp only
  rw [outside]
  exact placed.mapped a segment

/-! ## One call -/

/-- What `mmap2` is given is not the program's. -/
theorem Machine.Placed.maps_spares (placed : m.Placed) {r : Registers} {e : MmapHost}
    {protection : Protection} {address : Nat} {host : Host}
    (maps : m.Maps r e protection address host) (segment : m.SegmentAt a) :
    m.image.host.inSpan address r.length (a / m.image.host.pageSize.bytes) = false := by
  have granted := mmap_granted maps.asked
  refine placed.spares granted.aligned ?_ segment
  cases fixed : r.mapFixed with
  | false => exact .inl (granted.free fixed)
  | true =>
    right
    obtain rfl := granted.fixed fixed
    obtain ⟨-, -, owned⟩ := (guestMemoryRuntimeOwned_iff _ _ _).mp
      ((checkMmap2_ok maps.checked).fixed fixed).2
    rw [← Machine.mappedLength, maps_mappedLength maps] at owned
    exact fun x low high => placed.laid.inside x (owned x low high)

theorem linuxMmap2_placed {r : Registers} {e : MmapHost} (placed : m.Placed)
    (call : linuxMmap2 r e m = some (code, m')) : m'.Placed := by
  have steady := (linuxMmap2_kept call).toSteady
  have outcome := linuxMmap2_outcome call
  refine placed.steady steady ?_ ?_
  · intro a segment
    rw [Host.page, steady.pageSize, outcome.page_kept fun _ _ _ maps =>
      placed.maps_spares maps segment]
    exact placed.mapped a segment
  · cases outcome with
    | refused _ _ _ registry | dropped _ _ _ registry =>
      rw [registry]
      exact placed.laid
    | abandoned _ _ _ _ _ _ registry =>
      obtain same | ⟨failed, same⟩ := registry
      · rw [same]
        exact placed.laid
      · rw [same]
        exact placed.laid.same (map_valid placed.laid.valid _ _ _) (map_failed failed)
    | @mapped _ _ address _ _ _ maps low high _ _ _ _ _ _ registry =>
      have granted := mmap_granted maps.asked
      have length := maps_mappedLength maps
      rw [registry]
      refine placed.laid.map (pageBytes_pos m) _ granted.aligned ?_ ?_
      · rw [length]
        exact Nat.mul_mod_left _ _
      · intro x above below
        refine ⟨by omega, by omega, fun segment => ?_⟩
        have outside := placed.maps_spares maps segment
        rw [(inSpan_iff m.image.host granted.aligned r.length x).mpr
          ⟨above, length ▸ below⟩] at outside
        cases outside

theorem linuxMprotectRuntime_placed {address length linux : UInt32} {e : MprotectHost}
    (placed : m.Placed) (call : linuxMprotectRuntime address length linux e m = some (code, m')) :
    m'.Placed := by
  have steady := (linuxMprotectRuntime_kept call).toSteady
  refine placed.steady steady ?_ ?_
  · intro a segment
    rw [Host.page, steady.pageSize, linuxMprotectRuntime_pages call]
    exact placed.mapped a segment
  · obtain ⟨-, -, -, registry⟩ | ⟨-, registry, -⟩ | ⟨protection, protects, outcome⟩ :=
      linuxMprotectRuntime_outcome call
    · rw [registry]
      exact placed.laid
    · rw [registry]
      exact placed.laid
    · cases outcome with
      | refused _ _ _ registry | undone _ _ _ _ _ _ _ _ registry
        | left _ _ _ _ _ _ _ _ _ registry =>
        rw [registry]
        exact placed.laid
      | settled _ _ _ _ _ _ registry =>
        rw [registry]
        exact placed.laid.protect (pageBytes_pos m) _ protects.aligned
          (alignUp_aligned m.image.host _)

theorem linuxMunmapRuntime_placed (placed : m.Placed) (address length : UInt32) (e : MunmapHost) :
    (linuxMunmapRuntime address length e m).2.Placed := by
  have steady := (linuxMunmapRuntime_steady address length e m).1
  have outcome := linuxMunmapRuntime_outcome address length e m
  generalize linuxMunmapRuntime address length e m = result at steady outcome
  cases outcome with
  | refused => exact placed
  | deferred => exact placed.steady steady placed.mapped placed.laid
  | failed => exact placed.steady steady placed.mapped placed.laid
  | unmapped aligned _ owned =>
    have whole := alignUp_aligned m.image.host length.toNat
    refine placed.steady steady (fun a segment => ?_)
      (placed.laid.unmap (pageBytes_pos m) aligned whole)
    have free (x : Nat) (low : address.toNat ≤ x)
        (high : x < address.toNat + alignUp length.toNat m.pageBytes) : m.Free x :=
      placed.laid.inside x (((guestMemoryRuntimeOwned_iff _ _ _).mp owned).2.2 x low high)
    exact placed.munmap_mapped aligned whole free segment

/-- A `brk` that gives nothing back keeps every page that is there, and moves the end of
the heap only over pages that were free. -/
theorem guestBrkSet_quiet (valid : m.registry.Valid) (requested : Nat)
    (quiet : m.releases requested = false) (outcome : Except Errno Nat) :
    let m' := (guestBrkSet requested outcome m).2
    HostKept m.image.host m'.image.host ∧
    (m'.breakMappingEnd = m.breakMappingEnd ∧ m'.registry.Valid ∧
        m'.registry.runtimeMappings = m.registry.runtimeMappings ∨
      m.breakMappingEnd < m'.breakMappingEnd ∧ ∀ page, m.image.host.inSpan m.breakMappingEnd
        (alignUp requested m.pageBytes - m.breakMappingEnd) page = true →
          m.image.host.pages page = none) := by
  have refl : HostKept m.image.host m.image.host := ⟨rfl, fun _ _ => rfl, fun _ _ => rfl⟩
  have step := guestBrkSet_step requested outcome m
  generalize guestBrkSet requested outcome m = result at step
  cases step with
  | refused | moved | failed => exact ⟨refl, .inl ⟨rfl, valid, rfl⟩⟩
  | released releases =>
    rw [releases_iff.mpr releases] at quiet
    cases quiet
  | elsewhere grows asked =>
    have change := granted_onFree (mmap_granted asked) rfl
    exact ⟨change.munmap.kept, .inl ⟨rfl, valid, rfl⟩⟩
  | full grows asked refused =>
    have change := granted_onFree (mmap_granted asked) rfl
    exact ⟨change.munmap.kept, .inl ⟨rfl, map_valid valid _ _ _, map_failed refused⟩⟩
  | grown grows asked =>
    have change := granted_onFree (mmap_granted asked) rfl
    exact ⟨change.kept, .inr ⟨grows.above, change.free⟩⟩

/-- The heap ends inside the window, as the window does on a page boundary. -/
theorem Machine.Placed.alignUp_le (placed : m.Placed) {value : Nat}
    (high : value < guestMaxAddress) : alignUp value m.pageBytes ≤ guestMaxAddress := by
  have small : m.pageBytes ≤ guestStackSize := Nat.le_of_dvd (by decide) placed.stack
  have whole : guestMaxAddress % m.pageBytes = 0 :=
    Nat.mod_eq_zero_of_dvd (placed.stack.trans (by decide))
  have fits : guestMaxAddress ≤ uintptrMax - (m.pageBytes - 1) := by
    unfold guestStackSize at small
    unfold guestMaxAddress uintptrMax
    omega
  calc alignUp value m.pageBytes ≤ alignUp guestMaxAddress m.pageBytes :=
        alignUp_mono m.image.host (Nat.le_of_lt high) fits
    _ = guestMaxAddress := alignUp_self m.image.host whole (by decide)

theorem Machine.HeapOk.le_mappingEnd (heap : m.HeapOk) :
    m.currentBreak ≤ m.breakMappingEnd := by
  rw [heap.mappingEnd, Machine.pageBytes,
    alignUp_eq m.image.host (guestMax_fits m.image.host heap.high)]
  exact le_pageCount_mul m.image.host m.currentBreak

section
variable (placed : m.Placed)
include placed

/-- Free pages from the end of the heap on are free bytes. -/
theorem Machine.Placed.growth_free {requested : Nat} (high : requested < guestMaxAddress)
    (free : ∀ page, m.image.host.inSpan m.breakMappingEnd
      (alignUp requested m.pageBytes - m.breakMappingEnd) page = true →
        m.image.host.pages page = none)
    {x : Nat} (above : m.breakMappingEnd ≤ x) (below : x < alignUp requested m.pageBytes) :
    m.Free x := by
  have top := placed.alignUp_le high
  have bottom := placed.heap.le_mappingEnd
  have start := placed.heap.low
  have least := placed.low
  refine ⟨by omega, by omega, fun segment => ?_⟩
  have outside := placed.spares placed.heap.end_aligned (.inl free) segment
  have whole : (alignUp requested m.pageBytes - m.breakMappingEnd) % m.pageBytes = 0 :=
    Nat.sub_mod_eq_zero_of_mod_eq
      ((alignUp_aligned m.image.host _).trans placed.heap.end_aligned.symm)
  rw [(inSpan_iff m.image.host placed.heap.end_aligned _ x).mpr
    ⟨above, by rw [pageCount_exact m.image.host whole]; omega⟩] at outside
  cases outside

theorem HostKept.mapped {h' : Host} (kept : HostKept m.image.host h') {a : Nat}
    (segment : m.SegmentAt a) : (h'.page a).isSome = true := by
  have there := placed.mapped a segment
  rw [kept.page a there]
  exact there

theorem guestBrkSet_placed (requested : Nat) (answer : Except Errno Nat) :
    (guestBrkSet requested answer m).2.Placed := by
  have facts := fun quiet => guestBrkSet_quiet placed.laid.valid requested quiet answer
  have outcome := guestBrkSet_outcome placed.heap requested answer
  have heap := outcome.heapOk placed.heap
  generalize (guestBrkSet requested answer m).2 = m' at facts outcome heap
  cases outcome with
  | kept quiet kept =>
    obtain ⟨host, ⟨-, valid, entries⟩ | ⟨moves, -⟩⟩ := facts quiet
    · exact placed.steady kept.toSteady (fun a => HostKept.mapped placed host)
        (placed.laid.same valid entries)
    · have := kept.mappingEnd
      omega
  | moved quiet =>
    exact placed.step rfl rfl rfl heap placed.mapped placed.laid placed.window
  | released release =>
    simp only [Machine.releases, Bool.and_eq_true, decide_eq_true_iff] at release
    obtain ⟨⟨⟨-, low⟩, lower⟩, below⟩ := release
    have order : alignUp m.minimumBreak m.pageBytes ≤ alignUp requested m.pageBytes :=
      alignUp_mono m.image.host low
        (guestMax_fits m.image.host (Nat.lt_trans lower placed.heap.high))
    have aligned := alignUp_aligned m.image.host requested
    have whole : (m.breakMappingEnd - alignUp requested m.pageBytes) % m.pageBytes = 0 :=
      Nat.sub_mod_eq_zero_of_mod_eq (placed.heap.end_aligned.trans aligned.symm)
    refine placed.step rfl rfl rfl heap (fun a => ?_) ?_ ?_
    · exact placed.munmap_mapped aligned whole
        (fun x start stop => placed.window x (by omega) (by omega))
    · exact placed.laid.unmap (pageBytes_pos m) aligned whole
    · exact fun a start stop => placed.window a start (Nat.lt_trans stop below)
  | grown quiet steady low high above done =>
    obtain ⟨host, ⟨same, -⟩ | ⟨-, free⟩⟩ := facts quiet
    · dsimp only at same
      omega
    · have range {x : Nat} := placed.growth_free high free (x := x)
      refine placed.step steady.segments steady.minimum steady.pageSize heap
        (fun a => HostKept.mapped placed host) ?_ ?_
      · refine placed.laid.map (pageBytes_pos m) 0 placed.heap.end_aligned ?_ ?_
        · exact Nat.sub_mod_eq_zero_of_mod_eq
            ((alignUp_aligned m.image.host _).trans placed.heap.end_aligned.symm)
        · intro x start stop
          exact range start (by omega)
      · intro a start stop
        by_cases old : a < m.breakMappingEnd
        · exact placed.window a start old
        · exact range (Nat.le_of_not_lt old) stop

theorem call_placed {c : MemoryCall} (done : m.call c = some (code, m')) : m'.Placed := by
  cases c with
  | mmap2 r e => exact linuxMmap2_placed placed.entered done
  | mprotect address length protection e => exact linuxMprotectRuntime_placed placed.entered done
  | munmap address length e =>
    have next := linuxMunmapRuntime_placed placed.entered address length e
    rw [Machine.call, Option.some.injEq] at done
    rw [done] at next
    exact next
  | brk requested outcome =>
    have next := guestBrkSet_placed placed.entered requested.toNat outcome
    rw [Machine.call, Option.some.injEq, Prod.mk.injEq] at done
    rw [done.2] at next
    exact next

/-! ## From the load on -/

/-- The first stack is mapped on free pages of the window. -/
theorem createGuestStack_placed {outcome : Except Errno Nat} {content : Nat → UInt8}
    (stack : createGuestStack outcome content m = some m') : m'.Placed := by
  have steady := (createGuestStack_frame stack).1
  unfold createGuestStack at stack
  obtain ⟨errno, -, result⟩ | ⟨lowerBound, host, asked, result⟩ := mmap_cases m 0 guestStackSize
    brkProtection brkFlags (-1) 0 outcome
  · rw [result] at stack
    cases stack
  · have granted := mmap_granted asked
    have change := granted_onFree granted rfl
    have whole : guestStackSize % m.pageBytes = 0 := Nat.mod_eq_zero_of_dvd placed.stack
    rw [result] at stack
    dsimp only at stack
    split at stack
    · cases stack
    · rename_i window
      cases stack
      have later := placed.steady steady (fun a => HostKept.mapped placed change.kept) ?_
      · exact ⟨later.stack, ⟨later.heap.low, later.heap.high, later.heap.mappingEnd⟩, later.low,
          later.laid, later.whole, later.below, later.mapped, later.window⟩
      · refine placed.laid.map (pageBytes_pos m) 0 granted.aligned whole ?_
        intro x low high
        refine ⟨by omega, by omega, fun segment => ?_⟩
        have outside := placed.spares granted.aligned (.inl change.free) segment
        rw [(inSpan_iff m.image.host granted.aligned guestStackSize x).mpr
          ⟨low, by rw [pageCount_exact m.image.host whole]; exact high⟩] at outside
        cases outside

end

theorem empty_laid (page : Nat) (free : Nat → Prop) : empty.Laid page free :=
  ⟨⟨Piece.canonical_nil, by decide, by simp [empty]⟩, fun _ => rfl, fun _ owned => absurd rfl owned⟩

theorem Finalized.placed {a c : Machine} {initialBreak : Nat} (final : Finalized a initialBreak c)
    (small : c.pageBytes ∣ guestStackSize) : c.Placed := by
  have ok := loading_loadOk final.loading
  have bytes : c.pageBytes = a.pageBytes := congrArg PageSize.bytes final.pageSize
  refine ⟨small, final.heapOk, final.minimum ▸ final.low, ?_, ?_, ?_, ?_, ?_⟩
  · rw [final.registry]
    exact empty_laid _ _
  · rw [final.segments, bytes]
    intro x known
    rw [Host.pageCount, final.pageSize]
    exact ok.whole x known
  · rw [Machine.SegmentsBelow, final.segments]
    exact loading_below final.loading
  · rintro address ⟨x, known, holds⟩
    rw [final.segments] at known
    obtain ⟨page, there, -⟩ := ok.own x known address holds
    rw [Host.page, final.pageSize, final.pages]
    exact Option.isSome_iff_exists.mpr ⟨page, there⟩
  · intro address above below
    rw [final.minimum] at above
    rw [final.mappingEnd] at below
    omega

theorem loaded_placed (loaded : Loaded m) (small : m.pageBytes ∣ guestStackSize) :
    m.Placed := by
  obtain ⟨a, initialBreak, c, outcome, content, d, final, stack, rfl⟩ := loaded.parts
  have same : d.pageBytes = c.pageBytes :=
    congrArg PageSize.bytes (createGuestStack_frame stack).1.pageSize
  have next := createGuestStack_placed (final.placed (same ▸ small)) stack
  exact ⟨next.stack, ⟨next.heap.low, next.heap.high, next.heap.mappingEnd⟩, next.low, next.laid,
    next.whole, next.below, next.mapped, next.window⟩

/-- A page of a load segment belongs to the guest. -/
theorem Machine.Placed.guestPage (placed : m.Placed) (segment : m.SegmentAt a) :
    m.guestPage (a / m.pageBytes) = true := by
  have there := placed.mapped a segment
  obtain ⟨x, known, holds⟩ := segment
  have positive := pageBytes_pos m
  obtain ⟨aligned, whole⟩ := placed.whole x known
  have length : x.mapLength % m.pageBytes = 0 := whole ▸ Nat.mul_mod_left _ _
  obtain ⟨low, high⟩ := (page_inside_iff positive aligned length).mpr holds
  -- The page ends where the segment ends, or before.
  have fits : a / m.pageBytes * m.pageBytes + m.pageBytes ≤ x.mapStart + x.mapLength := by
    obtain ⟨i, start⟩ := Nat.dvd_of_mod_eq_zero aligned
    obtain ⟨n, count⟩ := Nat.dvd_of_mod_eq_zero length
    rw [start, count, ← Nat.mul_add, Nat.mul_comm] at high ⊢
    have below := Nat.lt_of_mul_lt_mul_left high
    calc m.pageBytes * (a / m.pageBytes) + m.pageBytes
        = m.pageBytes * (a / m.pageBytes + 1) := by rw [Nat.mul_add, Nat.mul_one]
      _ ≤ m.pageBytes * (i + n) := Nat.mul_le_mul_left _ below
  have window := placed.below x known
  have good : badRange (a / m.pageBytes * m.pageBytes) m.pageBytes = false := by
    rw [badRange_eq_false]
    unfold guestMaxAddress at window
    unfold uintptrMax
    omega
  have inside : m.insideSegment (a / m.pageBytes * m.pageBytes) m.pageBytes = true := by
    rw [Machine.insideSegment, List.any_eq_true]
    exact ⟨x, known, by simp [low, fits]⟩
  rw [Machine.guestPage, Machine.guestMemoryRangeOwned, good, inside, Bool.and_eq_true]
  exact ⟨there, rfl⟩

theorem run_placed {may : Machine → MemoryCall → Prop} {start : Machine} (placed : start.Placed)
    (run : RunUnder may start m) : m.Placed := by
  induction run with
  | start => exact placed
  | call _ _ done ih => exact call_placed ih done
  | store _ done ih =>
    obtain ⟨image, rfl, size, -, pages, -⟩ := guestStore_frame done
    refine ih.steady (Kept.image _ size).toSteady (fun a segment => ?_) ih.laid
    rw [Host.page, size, pages]
    exact ih.mapped a segment
  | @emulator m pages bytes _ spared _ ih =>
    have size : (m.withHost pages bytes).image.host.pageSize = m.image.host.pageSize := rfl
    refine ih.steady (Kept.image m size).toSteady (fun a segment => ?_) ih.laid
    have same : pages (a / m.pageBytes) = m.image.host.page a := spared _ (ih.guestPage segment)
    exact (congrArg Option.isSome same).trans (ih.mapped a segment)

theorem pageSize_dvd {size : PageSize} (small : size.bytes ≤ guestStackSize) :
    size.bytes ∣ guestStackSize := by
  have stack : guestStackSize = 2 ^ 20 := by decide
  rw [stack] at small ⊢
  exact Nat.pow_dvd_pow 2 ((Nat.pow_le_pow_iff_right (by decide)).mp small)

/-- From the load on, runtime mappings are whole pages of the window and hold no byte of the
program image. The host's pages are no larger than the first stack. -/
theorem runtime_mappings_placed {start m : Machine} (loaded : Loaded start)
    (small : start.pageBytes ≤ guestStackSize) (run : RunUnder (fun _ _ => True) start m)
    {p : RuntimeMapping} (member : p ∈ m.registry.runtimeMappings) :
    p.start % m.pageBytes = 0 ∧ p.stop % m.pageBytes = 0 ∧
      guestMinAddress ≤ p.start ∧ p.stop ≤ guestMaxAddress ∧
      ∀ x ∈ m.loadSegments, ∀ a, p.Covers a → ¬ x.Holds a := by
  have placed := run_placed (loaded_placed loaded (pageSize_dvd small)) run
  obtain ⟨low, high, free⟩ := placed.laid.entry (pageBytes_pos m) member
  have full := placed.laid.valid.canonical.apart.full p member
  have first := free p.start ⟨Nat.le_refl _, full⟩
  have last := free (p.stop - 1) ⟨by omega, by omega⟩
  refine ⟨low, high, first.1, ?_, fun x known a covers holds => ?_⟩
  · have below := last.2.1
    omega
  · exact (free a covers).2.2 ⟨x, known, holds⟩

theorem grown_heap_placed : smallProgram.pageBytes ≤ guestStackSize ∧
    ⟨0x11000, 0x13000, 0⟩ ∈ grownHeap.registry.runtimeMappings ∧
    ∀ x ∈ grownHeap.loadSegments, ∀ a, 0x11000 ≤ a ∧ a < 0x13000 → ¬ x.Holds a := by
  have small : smallProgram.pageBytes ≤ guestStackSize := by decide +kernel
  have member : ⟨0x11000, 0x13000, 0⟩ ∈ grownHeap.registry.runtimeMappings := by decide +kernel
  have placed := runtime_mappings_placed smallProgram_loaded small
    (.call .start trivial grownHeap_step) member
  exact ⟨small, member, placed.2.2.2.2⟩

end Linuxemu.Guest
