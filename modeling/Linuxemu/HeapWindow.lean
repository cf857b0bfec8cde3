import Linuxemu.BreakSteps
import Linuxemu.HostRanges
import Linuxemu.LoadedImage

/-! The heap window of `brk` against the registry: which pages `brk` gives back to
the host, and when the registry owns them. -/
namespace Linuxemu.Guest
open Lib Registry
variable {m m' start : Machine} {requested : Nat} {outcome : Except Errno Nat} {c : MemoryCall}
  {code : Int}

/-- `current_break` is in range and `break_mapping_end` is its rounding. -/
structure Machine.HeapOk (m : Machine) : Prop where
  low : m.minimumBreak ≤ m.currentBreak
  high : m.currentBreak < guestMaxAddress
  mappingEnd : m.breakMappingEnd = alignUp m.currentBreak m.pageBytes

/-- This request gives pages back to the host. -/
def Machine.releases (m : Machine) (requested : Nat) : Bool :=
  decide (requested ≠ 0) && decide (m.minimumBreak ≤ requested) &&
  decide (requested < m.currentBreak) && decide (alignUp requested m.pageBytes < m.breakMappingEnd)

/-- The pages that it gives back are all owned by the registry. -/
def Machine.releasesOwned (m : Machine) (requested : Nat) : Bool :=
  !m.releases requested || m.guestMemoryRuntimeOwned (alignUp requested m.pageBytes)
    (m.breakMappingEnd - alignUp requested m.pageBytes)

/-- Every way `brk` can end. -/
inductive BrkOutcome (m : Machine) (requested : Nat) : Machine → Prop
  | kept {m' : Machine} (quiet : m.releases requested = false) (kept : Kept m m') :
      BrkOutcome m requested m'
  | moved (quiet : m.releases requested = false) (low : m.minimumBreak ≤ requested)
      (high : requested < guestMaxAddress)
      (same : m.breakMappingEnd = alignUp requested m.pageBytes) :
      BrkOutcome m requested { m with currentBreak := requested }
  | released (release : m.releases requested = true) :
      BrkOutcome m requested
        { m.munmap (alignUp requested m.pageBytes)
            (m.breakMappingEnd - alignUp requested m.pageBytes) with
          registry := guestMemoryRuntimeUnmap m.registry (alignUp requested m.pageBytes)
            (m.breakMappingEnd - alignUp requested m.pageBytes)
          breakMappingEnd := alignUp requested m.pageBytes
          currentBreak := requested }
  | grown {m₁ : Machine} (quiet : m.releases requested = false) (steady : Steady m m₁)
      (low : m.minimumBreak ≤ requested) (high : requested < guestMaxAddress)
      (above : m.breakMappingEnd < alignUp requested m.pageBytes)
      (done : (guestMemoryRuntimeMap m.registry m.breakMappingEnd
        (alignUp requested m.pageBytes - m.breakMappingEnd) 0).code = 0) :
      BrkOutcome m requested { m₁ with
        registry := (guestMemoryRuntimeMap m.registry m.breakMappingEnd
          (alignUp requested m.pageBytes - m.breakMappingEnd) 0).table
        breakMappingEnd := alignUp requested m.pageBytes
        currentBreak := requested }

theorem Machine.HeapOk.end_aligned (heap : m.HeapOk) :
    m.breakMappingEnd % m.pageBytes = 0 := by
  rw [heap.mappingEnd]
  exact alignUp_aligned m.image.host _

/-- The heap grows by whole pages. -/
theorem Machine.HeapOk.growth (heap : m.HeapOk) (requested : Nat) :
    alignUp (alignUp requested m.pageBytes - m.breakMappingEnd) m.pageBytes =
      alignUp requested m.pageBytes - m.breakMappingEnd := by
  apply alignUp_self m.image.host
  · apply Nat.sub_mod_eq_zero_of_mod_eq
    rw [heap.mappingEnd]
    exact (alignUp_aligned m.image.host _).trans (alignUp_aligned m.image.host _).symm
  · exact Nat.lt_of_le_of_lt (Nat.sub_le _ _) (alignUp_lt m.image.host requested)

theorem releases_iff :
    m.releases requested = true ↔ m.ReleasesPages requested := by
  simp only [Machine.releases, Bool.and_eq_true, decide_eq_true_iff]
  exact ⟨fun ⟨⟨⟨nonzero, low⟩, lower⟩, below⟩ => ⟨nonzero, low, lower, below⟩,
    fun h => ⟨⟨⟨h.nonzero, h.low⟩, h.lower⟩, h.below⟩⟩

theorem Machine.Grows.quiet (grows : m.Grows requested) :
    m.releases requested = false := by
  rw [← Bool.not_eq_true, releases_iff]
  exact fun releases => Nat.not_lt.mpr grows.upward releases.lower

theorem gotGrowth_kept {mapping : Nat} {host : Host}
    (asked : m.askGrowth requested outcome = .ok (mapping, host)) :
    Kept m (m.gotGrowth requested mapping host) := by
  have size : host.pageSize = m.image.host.pageSize := by
    rw [(mmap_granted asked).after]
    rfl
  exact ⟨⟨rfl, rfl, rfl, rfl, size, fun _ => Or.inl⟩, .refl _⟩

/-- A request within the pages of the heap leaves their end where it is. -/
theorem Machine.MovesBreak.level (heap : m.HeapOk) (moves : m.MovesBreak requested) :
    requested < guestMaxAddress ∧ m.breakMappingEnd = alignUp requested m.pageBytes := by
  obtain ⟨lower, above⟩ | ⟨upward, high, below⟩ := moves.within
  · have order : alignUp requested m.pageBytes ≤ m.breakMappingEnd := by
      rw [heap.mappingEnd]
      exact alignUp_mono m.image.host (Nat.le_of_lt lower) (guestMax_fits m.image.host heap.high)
    exact ⟨Nat.lt_trans lower heap.high, Nat.le_antisymm above order⟩
  · have order : m.breakMappingEnd ≤ alignUp requested m.pageBytes := by
      rw [heap.mappingEnd]
      exact alignUp_mono m.image.host upward (guestMax_fits m.image.host high)
    exact ⟨high, Nat.le_antisymm order below⟩

theorem guestBrkSet_outcome (heap : m.HeapOk) (requested : Nat) (outcome : Except Errno Nat) :
    BrkOutcome m requested (guestBrkSet requested outcome m).2 := by
  have step := guestBrkSet_step requested outcome m
  generalize guestBrkSet requested outcome m = result at step
  have whole : alignUp (m.growth requested) m.pageBytes = m.growth requested :=
    heap.growth requested
  cases step with
  | refused why =>
    refine .kept ?_ (.refl m)
    rw [← Bool.not_eq_true, releases_iff]
    intro releases
    obtain zero | below | ⟨upward, -⟩ := why
    · exact releases.nonzero zero
    · exact Nat.not_lt.mpr releases.low below
    · exact Nat.not_lt.mpr upward releases.lower
  | moved moves =>
    obtain ⟨high, same⟩ := moves.level heap
    refine .moved ?_ moves.low high same
    rw [← Bool.not_eq_true, releases_iff]
    exact fun releases => absurd same (Nat.ne_of_gt releases.below)
  | released releases => exact .released (releases_iff.mpr releases)
  | failed grows errno asked => exact .kept grows.quiet (.refl m)
  | elsewhere grows asked other =>
    refine .kept grows.quiet ((gotGrowth_kept asked).trans (munmap_kept (.inr (.inr ?_))))
    rw [Machine.gotGrowth, whole]
  | @full grows host asked refused =>
    have table := Kept.table (m.gotGrowth requested m.breakMappingEnd host)
      (map_grows m.registry m.breakMappingEnd (m.growth requested) 0)
    refine .kept grows.quiet
      ((gotGrowth_kept asked).trans (table.trans (munmap_kept (.inr (.inr ?_)))))
    rw [Machine.gotGrowth, whole]
  | grown grows asked owned =>
    exact .grown grows.quiet (gotGrowth_kept asked).toSteady grows.low grows.high grows.above owned

/-! ## One call -/

/-- What `brk` gives back is owned by the registry. Other calls are free. -/
def ReleasesOwned (m : Machine) : MemoryCall → Prop
  | .brk requested _ => m.releasesOwned requested.toNat = true
  | _ => True

def Machine.AllAllowed (m : Machine) : Prop := ∀ x ∈ m.calls, x.allowed = true

theorem Steady.heapOk (steady : Steady m m') (heap : m.HeapOk) : m'.HeapOk := by
  constructor
  · rw [steady.minimum, steady.current]
    exact heap.low
  · rw [steady.current]
    exact heap.high
  · rw [steady.mappingEnd, steady.current, heap.mappingEnd, Machine.pageBytes, Machine.pageBytes,
      steady.pageSize]

theorem Steady.allAllowed (steady : Steady m m') (all : m.AllAllowed) :
    m'.AllAllowed := by
  intro x member
  obtain old | fine := steady.calls x member
  · exact all x old
  · exact fine

/-- Every call but `brk` is steady. -/
theorem call_steady (done : m.call c = some (code, m'))
    (other : ∀ requested outcome, c ≠ .brk requested outcome) :
    Steady m m' := by
  have fresh : Steady m m.entered :=
    ⟨rfl, rfl, rfl, rfl, rfl, fun _ => Or.inl⟩
  cases c with
  | mmap2 r e => exact fresh.trans (linuxMmap2_kept done).toSteady
  | mprotect address length protection e =>
    exact fresh.trans (linuxMprotectRuntime_kept done).toSteady
  | munmap address length e =>
    have steady := (linuxMunmapRuntime_steady address length e m.entered).1
    rw [Machine.call, Option.some.injEq] at done
    rw [done] at steady
    exact fresh.trans steady
  | brk requested outcome => exact absurd rfl (other requested outcome)

section
variable (heap : m.HeapOk)
include heap

theorem call_brk {requested : UInt32} (done : m.call (.brk requested outcome) = some (code, m')) :
    BrkOutcome m.entered requested.toNat m' := by
  have heap' : m.entered.HeapOk := ⟨heap.low, heap.high, heap.mappingEnd⟩
  rw [Machine.call, Option.some.injEq, Prod.mk.injEq] at done
  rw [← done.2]
  exact guestBrkSet_outcome heap' requested.toNat outcome

theorem BrkOutcome.heapOk (h : BrkOutcome m requested m') : m'.HeapOk := by
  cases h with
  | kept _ kept => exact kept.toSteady.heapOk heap
  | moved _ low high same => exact ⟨low, high, same⟩
  | released release =>
    simp only [Machine.releases, Bool.and_eq_true, decide_eq_true_iff] at release
    obtain ⟨⟨⟨-, low⟩, lower⟩, -⟩ := release
    exact ⟨low, Nat.lt_trans lower heap.high, rfl⟩
  | grown _ steady low high =>
    refine ⟨?_, high, ?_⟩
    · dsimp only
      rw [steady.minimum]
      exact low
    · dsimp only [Machine.pageBytes]
      rw [steady.pageSize]

theorem call_heapOk (done : m.call c = some (code, m')) : m'.HeapOk := by
  by_cases brk : ∃ requested outcome, c = .brk requested outcome
  · obtain ⟨requested, outcome, rfl⟩ := brk
    have entered : m.entered.HeapOk := ⟨heap.low, heap.high, heap.mappingEnd⟩
    exact (call_brk heap done).heapOk entered
  · exact (call_steady done fun requested outcome same => brk ⟨requested, outcome, same⟩).heapOk heap

/-- After allowed calls, the next call's ranges are all allowed exactly when it gives
back only what the registry owns. -/
theorem call_allAllowed (all : m.AllAllowed) (done : m.call c = some (code, m')) :
    m'.AllAllowed ↔ ReleasesOwned m c := by
  by_cases brk : ∃ requested outcome, c = .brk requested outcome
  · obtain ⟨requested, outcome, rfl⟩ := brk
    have before : m.entered.AllAllowed := all
    have free (quiet : m.entered.releases requested.toNat = false) :
        ReleasesOwned m (.brk requested outcome) := by
      have same : m.releases requested.toNat = false := quiet
      simp [ReleasesOwned, Machine.releasesOwned, same]
    cases call_brk heap done with
    | kept quiet kept => exact iff_of_true (kept.toSteady.allAllowed before) (free quiet)
    | moved quiet => exact iff_of_true before (free quiet)
    | grown quiet steady => exact iff_of_true (steady.allAllowed before) (free quiet)
    | released release =>
      have same : m.releases requested.toNat = true := release
      have unfolded : ReleasesOwned m (.brk requested outcome) ↔
          m.guestMemoryRuntimeOwned (alignUp requested.toNat m.pageBytes)
            (m.breakMappingEnd - alignUp requested.toNat m.pageBytes) = true := by
        simp [ReleasesOwned, Machine.releasesOwned, same]
      rw [unfolded]
      constructor
      · intro allowed
        have newest := allowed _ List.mem_cons_self
        simp only [HostCall.allowed, Machine.entered, reduceCtorEq, decide_false, Bool.false_and,
          Bool.or_false] at newest
        exact newest
      · intro owned x member
        cases member with
        | tail _ old => exact all x old
        | head => exact Bool.or_eq_true_iff.mpr (Or.inl (Bool.or_eq_true_iff.mpr (Or.inl owned)))
  · apply iff_of_true
    · exact (call_steady done fun requested outcome same =>
        brk ⟨requested, outcome, same⟩).allAllowed all
    · cases c with
      | brk requested outcome => exact absurd ⟨requested, outcome, rfl⟩ brk
      | mmap2 | mprotect | munmap => trivial

/-! ## The window stays owned while no `munmap` takes from it -/

/-- The registry owns every byte of the heap's pages. -/
structure Machine.WindowOwned (m : Machine) : Prop where
  valid : m.registry.Valid
  owned : ∀ x, alignUp m.minimumBreak m.pageBytes ≤ x → x < m.breakMappingEnd →
    m.registry.flagAt x ≠ none

/-- No `munmap` range meets the heap's pages. -/
def SparesHeap (m : Machine) : MemoryCall → Prop
  | .munmap address length _ =>
    address.toNat + alignUp length.toNat m.pageBytes ≤ alignUp m.minimumBreak m.pageBytes ∨
      m.breakMappingEnd ≤ address.toNat
  | _ => True

theorem Machine.WindowOwned.releasesOwned (window : m.WindowOwned) (c : MemoryCall) :
    ReleasesOwned m c := by
  cases c with
  | mmap2 | mprotect | munmap => trivial
  | brk requested outcome =>
    show m.releasesOwned requested.toNat = true
    cases release : m.releases requested.toNat with
    | false => simp [Machine.releasesOwned, release]
    | true =>
      have facts := release
      simp only [Machine.releases, Bool.and_eq_true, decide_eq_true_iff] at facts
      obtain ⟨⟨⟨-, low⟩, lower⟩, pages⟩ := facts
      have order : alignUp m.minimumBreak m.pageBytes ≤ alignUp requested.toNat m.pageBytes :=
        alignUp_mono m.image.host low
          (guestMax_fits m.image.host (Nat.lt_trans lower heap.high))
      have bound : m.breakMappingEnd < 2 ^ 32 := by
        rw [heap.mappingEnd]
        exact alignUp_lt m.image.host _
      rw [Machine.releasesOwned, release]
      refine (guestMemoryRuntimeOwned_iff _ _ _).mpr ⟨by omega, ?_, ?_⟩
      · unfold uintptrMax
        omega
      · intro x above below
        exact window.owned x (by omega) (by omega)

end

theorem Kept.windowOwned (kept : Kept m m') (window : m.WindowOwned) :
    m'.WindowOwned := by
  obtain ⟨valid, grows⟩ := kept.registry window.valid
  refine ⟨valid, ?_⟩
  intro x above below
  rw [kept.minimum, Machine.pageBytes, kept.pageSize] at above
  rw [kept.mappingEnd] at below
  exact grows x (window.owned x above below)

theorem BrkOutcome.windowOwned (window : m.WindowOwned) (h : BrkOutcome m requested m') :
    m'.WindowOwned := by
  cases h with
  | kept _ kept => exact kept.windowOwned window
  | moved => exact ⟨window.valid, window.owned⟩
  | released release =>
    simp only [Machine.releases, Bool.and_eq_true, decide_eq_true_iff] at release
    obtain ⟨-, pages⟩ := release
    refine ⟨unmap_valid window.valid _ _, ?_⟩
    intro x above below
    dsimp only at below ⊢
    rw [unmap_outside window.valid (Or.inl below)]
    exact window.owned x above (Nat.lt_trans below pages)
  | @grown m₁ _ steady _ _ pages done =>
    refine ⟨map_valid window.valid _ _ _, ?_⟩
    intro x above below
    replace above : alignUp m₁.minimumBreak m₁.pageBytes ≤ x := above
    rw [steady.minimum, Machine.pageBytes, steady.pageSize] at above
    dsimp only at below ⊢
    rw [map_flagAt window.valid done]
    split
    · simp
    · exact window.owned x above (by omega)

theorem call_windowOwned (heap : m.HeapOk) (window : m.WindowOwned) (spares : SparesHeap m c)
    (done : m.call c = some (code, m')) :
    m'.WindowOwned := by
  have entered : m.entered.WindowOwned := ⟨window.valid, window.owned⟩
  cases c with
  | mmap2 r e => exact (linuxMmap2_kept done).windowOwned entered
  | mprotect address length protection e =>
    exact (linuxMprotectRuntime_kept done).windowOwned entered
  | munmap address length e =>
    obtain ⟨steady, registry⟩ := linuxMunmapRuntime_steady address length e m.entered
    rw [Machine.call, Option.some.injEq] at done
    rw [done] at steady registry
    dsimp only at steady registry
    obtain same | taken := registry
    · exact Kept.windowOwned ⟨steady, by rw [same]; exact .refl _⟩ entered
    · refine ⟨by rw [taken]; exact unmap_valid window.valid _ _, ?_⟩
      intro x above below
      rw [steady.minimum, Machine.pageBytes, steady.pageSize] at above
      rw [steady.mappingEnd] at below
      rw [taken, show m.entered.registry = m.registry from rfl, unmap_outside window.valid]
      · exact window.owned x above below
      · obtain before | behind := spares
        · exact Or.inr (Nat.le_trans before above)
        · exact Or.inl (Nat.lt_of_lt_of_le below behind)
  | brk requested outcome => exact (call_brk heap done).windowOwned entered

/-! ## From the load on -/

/-- Only protections change. -/
theorem finalizeSegments_frame (answer : LoadSegment → Option Errno × Option Errno)
    (segments : List LoadSegment) (m : Machine) :
    ∃ pages calls, (m.finalizeSegments answer segments).2 =
        { m with image := { m.image with host := { m.image.host with pages } }, calls } ∧
      ∀ page, (pages page).isSome = (m.image.host.pages page).isSome := by
  induction segments generalizing m with
  | nil => exact ⟨_, _, rfl, fun _ => rfl⟩
  | cons x rest ih =>
    unfold Machine.finalizeSegments
    obtain ⟨errno, asked⟩ | asked :=
      mprotect_cases m x.mapStart x.mapLength x.finalProtection (answer x).1
    · rw [asked]
      exact ⟨_, _, rfl, fun _ => rfl⟩
    · rw [asked]
      dsimp only
      have first := protect_isSome m.image.host x.mapStart x.mapLength x.finalProtection
      split
      · exact ⟨_, _, rfl, first⟩
      · obtain ⟨pages, calls, same, there⟩ := ih { m.note .mprotect x.mapStart x.mapLength with
          image := { m.image with
            host := m.image.host.protect x.mapStart x.mapLength x.finalProtection } }
        exact ⟨pages, calls, same, fun page => (there page).trans (first page)⟩

theorem createGuestStack_frame {content : Nat → UInt8} {c d : Machine}
    (stack : createGuestStack outcome content c = some d) :
    Steady c { d with calls := c.calls } ∧
      ∃ address, d.registry = (guestMemoryRuntimeMap c.registry address guestStackSize 0).table := by
  obtain ⟨kept, registry, -⟩ := mmap_kept brkProtection (-1) 0 outcome
    (fun fixed : brkFlags.fixed = true => by cases fixed)
  unfold createGuestStack at stack
  split at stack
  · cases stack
  · rename_i address m₁ asked
    rw [asked] at kept registry
    dsimp only at stack kept registry
    split at stack
    · cases stack
    · cases stack
      exact ⟨⟨kept.segments, kept.current, kept.minimum, kept.mappingEnd, kept.pageSize,
        fun _ => Or.inl⟩, address, by rw [registry]⟩

/-- The machine between load and stack: the loader's, with final protections and an empty
heap that begins in the window. -/
structure Finalized (a : Machine) (initialBreak : Nat) (c : Machine) : Prop where
  loading : Loading a
  low : guestMinAddress ≤ initialBreak
  high : initialBreak < guestMaxAddress
  segments : c.loadSegments = a.loadSegments
  registry : c.registry = Registry.empty
  current : c.currentBreak = initialBreak
  minimum : c.minimumBreak = initialBreak
  mappingEnd : c.breakMappingEnd = alignUp initialBreak c.pageBytes
  pageSize : c.image.host.pageSize = a.image.host.pageSize
  pages : ∀ page, (c.image.host.pages page).isSome = (a.image.host.pages page).isSome

theorem Loaded.parts (h : Loaded m) :
    ∃ a initialBreak c outcome content d, Finalized a initialBreak c ∧
      createGuestStack outcome content c = some d ∧ m = { d with received := none, calls := [] } := by
  cases h with
  | @load a b c d entry initialBreak answer outcome content loading _ _ heap final stack =>
    refine ⟨a, initialBreak, c, outcome, content, d, ?_, stack, rfl⟩
    unfold guestBrkInitialize at heap
    split at heap
    · cases heap
    · rename_i inside
      obtain rfl := Option.some.inj heap
      obtain ⟨pages, calls, frame, there⟩ := finalizeSegments_frame answer a.loadSegments
        { a with
          currentBreak := initialBreak
          minimumBreak := initialBreak
          breakMappingEnd := alignUp initialBreak a.pageBytes }
      obtain rfl := (congrArg Prod.snd final).symm.trans frame
      exact ⟨loading, by omega, by omega, rfl, (loading_loadOk loading).registry, rfl, rfl, rfl, rfl,
        there⟩

theorem Finalized.heapOk {a c : Machine} {initialBreak : Nat}
    (final : Finalized a initialBreak c) : c.HeapOk := by
  refine ⟨?_, ?_, ?_⟩
  · rw [final.minimum, final.current]
  · rw [final.current]
    exact final.high
  · rw [final.mappingEnd, final.current]

/-- A loaded program has an empty heap, a valid registry and no host call behind it. -/
theorem loaded_start (h : Loaded m) :
    m.HeapOk ∧ m.WindowOwned ∧ m.calls = [] := by
  obtain ⟨a, initialBreak, c, outcome, content, d, final, stack, rfl⟩ := h.parts
  obtain ⟨steady, address, registry⟩ := createGuestStack_frame stack
  have heap := steady.heapOk final.heapOk
  have valid : c.registry.Valid := by
    rw [final.registry]
    exact ⟨Piece.canonical_nil, by decide, by simp [Registry.empty]⟩
  refine ⟨⟨heap.low, heap.high, heap.mappingEnd⟩, ⟨?_, ?_⟩, rfl⟩
  · show d.registry.Valid
    rw [registry]
    exact map_valid valid _ _ _
  · intro x above below
    have minimum : d.minimumBreak = initialBreak := steady.minimum.trans final.minimum
    have current : d.currentBreak = initialBreak := steady.current.trans final.current
    have ending : d.breakMappingEnd = alignUp d.currentBreak d.pageBytes := heap.mappingEnd
    replace above : alignUp d.minimumBreak d.pageBytes ≤ x := above
    replace below : x < d.breakMappingEnd := below
    rw [minimum] at above
    rw [ending, current] at below
    omega

/-! ## Runs -/

theorem Machine.HeapOk.image (heap : m.HeapOk) {image : Image}
    (size : image.host.pageSize = m.image.host.pageSize) :
    ({ m with image } : Machine).HeapOk :=
  (Kept.image m size).toSteady.heapOk heap

theorem loaded_allAllowed (loaded : Loaded start) : start.AllAllowed := by
  intro x member
  rw [(loaded_start loaded).2.2] at member
  cases member

theorem run_releasing (loaded : Loaded start) (run : RunUnder ReleasesOwned start m) :
    m.HeapOk ∧ m.AllAllowed := by
  refine run.invariant (fun m => m.HeapOk ∧ m.AllAllowed)
    ⟨(loaded_start loaded).1, loaded_allAllowed loaded⟩ ?_ ?_
  · rintro m image size ⟨heap, all⟩
    exact ⟨heap.image size, all⟩
  · rintro m m' c code allowed done ⟨heap, all⟩
    exact ⟨call_heapOk heap done, (call_allAllowed heap all done).mpr allowed⟩

theorem run_sparing (loaded : Loaded start) (run : RunUnder SparesHeap start m) :
    m.HeapOk ∧ m.WindowOwned ∧ m.AllAllowed := by
  obtain ⟨heap, window, -⟩ := loaded_start loaded
  refine run.invariant (fun m => m.HeapOk ∧ m.WindowOwned ∧ m.AllAllowed)
    ⟨heap, window, loaded_allAllowed loaded⟩ ?_ ?_
  · rintro m image size ⟨heap, window, all⟩
    exact ⟨heap.image size, (Kept.image m size).windowOwned window, all⟩
  · rintro m m' c code allowed done ⟨heap, window, all⟩
    exact ⟨call_heapOk heap done, call_windowOwned heap window allowed done,
      (call_allAllowed heap all done).mpr (window.releasesOwned heap c)⟩

/-- While every shrinking `brk` gives back pages that the registry owns, every range
passed to the host is an allowed one, and the next call keeps that exactly when it
does so too. It is so in particular as long as no `munmap` takes pages of the heap. -/
theorem host_ranges_allowed {start m : Machine} (loaded : Loaded start) :
    (RunUnder ReleasesOwned start m → m.AllAllowed ∧
      ∀ c code m', m.call c = some (code, m') → (m'.AllAllowed ↔ ReleasesOwned m c)) ∧
    (RunUnder SparesHeap start m → m.AllAllowed) := by
  constructor
  · intro run
    obtain ⟨heap, all⟩ := run_releasing loaded run
    exact ⟨all, fun c code m' done => call_allAllowed heap all done⟩
  · intro run
    exact (run_sparing loaded run).2.2

/-! ### A heap of two pages -/

def grownHeap : Machine :=
  after smallProgram (smallProgram.call (.brk 0x13000 (.ok 0x11000)))

theorem grownHeap_step :
    smallProgram.call (.brk 0x13000 (.ok 0x11000)) = some (0x13000, grownHeap) :=
  after_eq (by decide +kernel)

/-- Growing and shrinking the heap passes an owned range. -/
theorem shrunk_heap_allowed :
    (after grownHeap (grownHeap.call (.brk 0x10058 (.error .enomem)))).AllAllowed := by
  have growing : SparesHeap smallProgram (.brk 0x13000 (.ok 0x11000)) := trivial
  have shrinking : SparesHeap grownHeap (.brk 0x10058 (.error .enomem)) := trivial
  have shrunk : grownHeap.call (.brk 0x10058 (.error .enomem)) = some (0x10058, after grownHeap
      (grownHeap.call (.brk 0x10058 (.error .enomem)))) := after_eq (by decide +kernel)
  exact (host_ranges_allowed smallProgram_loaded).2
    (.call (.call .start growing grownHeap_step) shrinking shrunk)

/-- The guest has unmapped the second page. -/
def holedHeap : Machine := after grownHeap (grownHeap.call (.munmap 0x12000 0x1000 ⟨none, none⟩))

/-- The emulator has got that page for itself. -/
def takenPage : Machine :=
  holedHeap.withHost (fun page => if page = 0x12 then some ⟨⟨true, true, false⟩, none, false⟩
    else holedHeap.image.host.pages page) holedHeap.image.host.bytes

/-- Shrinking the heap then unmaps the emulator's page. -/
theorem shrunk_heap_unmaps_emulator :
    let shrunk := after takenPage (takenPage.call (.brk 0x10058 (.error .enomem)))
    Reached takenPage ∧ Reached shrunk ∧ (∃ x ∈ shrunk.calls, x.allowed = false) ∧
      (takenPage.image.host.pages 0x12).isSome = true ∧ shrunk.image.host.pages 0x12 = none := by
  intro shrunk
  have grown : Reached grownHeap :=
    (show Reached smallProgram from ⟨_, smallProgram_loaded, .start⟩).call grownHeap_step
  have facts : (grownHeap.call (.munmap 0x12000 0x1000 ⟨none, none⟩)).map Prod.fst = some 0 ∧
      holedHeap.guestPage 0x12 = false ∧
      (takenPage.call (.brk 0x10058 (.error .enomem))).map Prod.fst = some 0x10058 ∧
      (∃ x ∈ shrunk.calls, x.allowed = false) ∧
      (takenPage.image.host.pages 0x12).isSome = true ∧ shrunk.image.host.pages 0x12 = none := by
    decide +kernel
  obtain ⟨holed, free, back, reported⟩ := facts
  have unmapped : Reached holedHeap := grown.call (after_eq holed)
  have taken : Reached takenPage := by
    obtain ⟨start, loaded, run⟩ := unmapped
    refine ⟨start, loaded, .emulator run ?_ fun _ _ => rfl⟩
    intro page guest
    by_cases here : page = 0x12
    · rw [here, free] at guest
      cases guest
    · rw [if_neg here]
  exact ⟨taken, taken.call (after_eq back), reported⟩

end Linuxemu.Guest
