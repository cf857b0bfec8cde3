import Linuxemu.HeapWindow

/-! `brk` over whole runs: where the break is, which pages the heap has, and what a call
returns. -/
namespace Linuxemu.Guest
open Lib Registry
variable {m start m' : Machine} {requested : Nat} {outcome : Except Errno Nat}

/-- One call of `guest_brk_set`. Other calls may have left any registry at all. -/
structure BrkCall where
  requested : UInt32
  outcome : Except Errno Nat
  registry : Table

/-- The machine as the call finds it. -/
def Machine.found (m : Machine) (c : BrkCall) : Machine := { m with registry := c.registry }

def Machine.brkCall (m : Machine) (c : BrkCall) : Nat × Machine :=
  guestBrkSet c.requested.toNat c.outcome (m.found c)

def Machine.brkRun (m : Machine) : List BrkCall → Machine
  | [] => m
  | c :: rest => (m.brkCall c).2.brkRun rest

/-- The host gives the pages that the heap grows by, and gives them where the heap ends. -/
def Machine.placesGrowth (m : Machine) (requested : Nat) (outcome : Except Errno Nat) : Bool :=
  match m.askGrowth requested outcome with
  | .ok (mapping, _) => decide (mapping = m.breakMappingEnd)
  | .error _ => false

/-- A request is granted inside the window, from the first break on, when it needs no other
pages than the heap has or the host and the registry both take the new ones. -/
def Machine.grantsBreak (m : Machine) (requested : Nat) (outcome : Except Errno Nat) : Bool :=
  decide (requested ≠ 0) && decide (m.minimumBreak ≤ requested) &&
  decide (requested < guestMaxAddress) &&
  (decide (alignUp requested m.pageBytes ≤ m.breakMappingEnd) ||
    m.placesGrowth requested outcome && decide ((m.ownGrowth requested).code = 0))

/-- Tables, pages, bytes and the break are as they were. -/
structure Machine.Unmoved (m m' : Machine) : Prop where
  current : m'.currentBreak = m.currentBreak
  minimum : m'.minimumBreak = m.minimumBreak
  mappingEnd : m'.breakMappingEnd = m.breakMappingEnd
  segments : m'.loadSegments = m.loadSegments
  mappings : m'.registry.runtimeMappings = m.registry.runtimeMappings
  patches : m'.image.patches = m.image.patches
  pages : m'.image.host.pages = m.image.host.pages
  host : Intact m.image.host m'.image.host

theorem Machine.Unmoved.refl (m : Machine) : m.Unmoved m :=
  ⟨rfl, rfl, rfl, rfl, rfl, rfl, rfl, .refl _⟩

/-! ## What a call returns -/

theorem Machine.Grows.nonzero (grows : m.Grows requested) :
    requested ≠ 0 := by
  rintro rfl
  have above := grows.above
  have zero : alignUp 0 m.pageBytes = 0 := alignUp_self m.image.host (Nat.zero_mod _) (by decide)
  omega

/-- Where more pages are needed, the host and the registry decide. -/
theorem Machine.Grows.grantsBreak (grows : m.Grows requested) (outcome : Except Errno Nat) :
    m.grantsBreak requested outcome =
      (m.placesGrowth requested outcome && decide ((m.ownGrowth requested).code = 0)) := by
  have short : ¬ alignUp requested m.pageBytes ≤ m.breakMappingEnd := Nat.not_le.mpr grows.above
  simp [Machine.grantsBreak, grows.nonzero, grows.low, grows.high, short]

theorem gotGrowth_munmap {mapping : Nat} {host : Host}
    (asked : m.askGrowth requested outcome = .ok (mapping, host)) :
    (host.munmap mapping (m.growth requested)).pages = m.image.host.pages ∧
      Intact m.image.host (host.munmap mapping (m.growth requested)) := by
  have granted := mmap_granted asked
  have change := granted_onFree granted rfl
  have files := granted_files granted
  exact ⟨change.munmap_pages, change.munmap.kept, files.pageSize, files.inode, files.size,
    files.bytes⟩

theorem BrkStep.returns {result : Nat × Machine} (heap : m.HeapOk)
    (step : BrkStep m requested outcome result) :
    result.1 = result.2.currentBreak ∧
    (m.grantsBreak requested outcome = true → result.2.currentBreak = requested) ∧
    (m.grantsBreak requested outcome = false → m.Unmoved result.2) := by
  have placed {mapping : Nat} {host : Host}
      (asked : m.askGrowth requested outcome = .ok (mapping, host)) :
      m.placesGrowth requested outcome = decide (mapping = m.breakMappingEnd) := by
    rw [Machine.placesGrowth, asked]
  cases step with
  | refused why =>
    have refuses : m.grantsBreak requested outcome = false := by
      obtain zero | below | ⟨-, high⟩ := why
      · simp [Machine.grantsBreak, zero]
      · simp [Machine.grantsBreak, below]
      · simp [Machine.grantsBreak, Nat.not_lt.mpr high]
    exact ⟨rfl, fun grants => absurd grants (by simp [refuses]), fun _ => .refl m⟩
  | moved moves =>
    obtain ⟨high, same⟩ := moves.level heap
    refine ⟨rfl, fun _ => rfl, fun refuses => ?_⟩
    simp [Machine.grantsBreak, moves.nonzero, moves.low, high, ← same] at refuses
  | released releases =>
    refine ⟨rfl, fun _ => rfl, fun refuses => ?_⟩
    simp [Machine.grantsBreak, releases.nonzero, releases.low,
      Nat.lt_trans releases.lower heap.high, Nat.le_of_lt releases.below] at refuses
  | failed grows errno asked =>
    refine ⟨rfl, fun grants => ?_, fun _ => .refl m⟩
    simp [grows.grantsBreak, Machine.placesGrowth, asked] at grants
  | elsewhere grows asked other =>
    obtain ⟨pages, host⟩ := gotGrowth_munmap asked
    refine ⟨rfl, fun grants => ?_, fun _ => ⟨rfl, rfl, rfl, rfl, rfl, rfl, pages, host⟩⟩
    simp [grows.grantsBreak, placed asked, other] at grants
  | full grows asked refused =>
    obtain ⟨pages, host⟩ := gotGrowth_munmap asked
    refine ⟨rfl, fun grants => ?_,
      fun _ => ⟨rfl, rfl, rfl, rfl, map_failed refused, rfl, pages, host⟩⟩
    simp [grows.grantsBreak, refused] at grants
  | grown grows asked owned =>
    refine ⟨rfl, fun _ => rfl, fun refuses => ?_⟩
    simp [grows.grantsBreak, placed asked, owned] at refuses

/-! ## The pages of the heap -/

/-- A page of anonymous memory that can be read and written. -/
def heapPage : Page := ⟨brkProtection, none, false⟩

/-- The heap has exactly the pages from its first break to the end of its mapping, and
every other page is as it was at the start. -/
structure HeapExact (start m : Machine) : Prop extends Machine.HeapOk m where
  minimum : m.minimumBreak = start.minimumBreak
  pageSize : m.image.host.pageSize = start.image.host.pageSize
  heap : ∀ a, alignUp start.minimumBreak start.pageBytes ≤ a → a < m.breakMappingEnd →
    start.image.host.page a = none ∧ m.image.host.page a = some heapPage
  other : ∀ a, a < alignUp start.minimumBreak start.pageBytes ∨ m.breakMappingEnd ≤ a →
    m.image.host.page a = start.image.host.page a

theorem HeapExact.found (held : HeapExact start m) (c : BrkCall) :
    HeapExact start (m.found c) :=
  ⟨⟨held.low, held.high, held.mappingEnd⟩, held.minimum, held.pageSize, held.heap,
    held.other⟩

/-- The same break and the same pages. -/
theorem HeapExact.same (held : HeapExact start m) (same : m.Unmoved m') : HeapExact start m' := by
  have size := same.host.kept.pageSize
  have page (a : Nat) : m'.image.host.page a = m.image.host.page a := by
    rw [Host.page, Host.page, size, same.pages]
  refine ⟨⟨?_, ?_, ?_⟩, ?_, ?_, fun a => ?_, fun a => ?_⟩
  · rw [same.minimum, same.current]
    exact held.low
  · rw [same.current]
    exact held.high
  · rw [same.mappingEnd, same.current, Machine.pageBytes, size]
    exact held.mappingEnd
  · rw [same.minimum]
    exact held.minimum
  · rw [size]
    exact held.pageSize
  · rw [same.mappingEnd, page]
    exact held.heap a
  · rw [same.mappingEnd, page]
    exact held.other a

/-- The pages between two page boundaries. -/
theorem inSpan_between (h : Host) {low high : Nat} (first : low % h.pageSize.bytes = 0)
    (last : high % h.pageSize.bytes = 0) (order : low ≤ high) (a : Nat) :
    h.inSpan low (high - low) (a / h.pageSize.bytes) = true ↔ low ≤ a ∧ a < high := by
  have whole : (high - low) % h.pageSize.bytes = 0 :=
    Nat.sub_mod_eq_zero_of_mod_eq (last.trans first.symm)
  rw [inSpan_iff h first, pageCount_exact h whole, Nat.add_sub_of_le order]

section
variable (held : HeapExact start m)
include held

/-- The heap never ends below its first page boundary. -/
theorem HeapExact.first_le (low : m.minimumBreak ≤ requested) (high : requested < guestMaxAddress) :
    alignUp start.minimumBreak start.pageBytes ≤ alignUp requested m.pageBytes := by
  rw [← held.minimum, Machine.pageBytes, ← held.pageSize]
  exact alignUp_mono m.image.host low (guestMax_fits m.image.host high)

theorem HeapExact.released (releases : m.ReleasesPages requested)
    (minimum : m'.minimumBreak = m.minimumBreak) (current : m'.currentBreak = requested)
    (mappingEnd : m'.breakMappingEnd = alignUp requested m.pageBytes)
    (host : m'.image.host = m.image.host.munmap (alignUp requested m.pageBytes)
      (m.breakMappingEnd - alignUp requested m.pageBytes)) : HeapExact start m' := by
  have high := Nat.lt_trans releases.lower held.high
  have below := releases.below
  have first := held.first_le releases.low high
  have span (a : Nat) : m.image.host.inSpan (alignUp requested m.pageBytes)
      (m.breakMappingEnd - alignUp requested m.pageBytes)
      (a / m.image.host.pageSize.bytes) = true ↔
        alignUp requested m.pageBytes ≤ a ∧ a < m.breakMappingEnd :=
    inSpan_between m.image.host (alignUp_aligned m.image.host requested)
      held.toHeapOk.end_aligned (Nat.le_of_lt below) a
  have page (a : Nat) : m'.image.host.page a =
      if alignUp requested m.pageBytes ≤ a ∧ a < m.breakMappingEnd then none
      else m.image.host.page a := by
    rw [host]
    simp only [Host.page, Host.munmap, ← span a]
  refine ⟨⟨?_, ?_, ?_⟩, minimum.trans held.minimum, ?_, fun a => ?_, fun a => ?_⟩
  · rw [minimum, current]
    exact releases.low
  · rw [current]
    exact high
  · rw [mappingEnd, current, Machine.pageBytes, Machine.pageBytes, host]
    rfl
  · rw [host]
    exact held.pageSize
  · intro above inside
    rw [mappingEnd] at inside
    rw [page a, if_neg (by omega)]
    exact held.heap a above (by omega)
  · intro outside
    rw [mappingEnd] at outside
    rw [page a]
    split
    · exact (held.heap a (by omega) (by omega)).1.symm
    · exact held.other a (by omega)

theorem HeapExact.grown (grows : m.Grows requested)
    (asked : m.askGrowth requested outcome = .ok (m.breakMappingEnd, m'.image.host))
    (minimum : m'.minimumBreak = m.minimumBreak) (current : m'.currentBreak = requested)
    (mappingEnd : m'.breakMappingEnd = alignUp requested m.pageBytes) : HeapExact start m' := by
  have granted := mmap_granted asked
  have above := grows.above
  have size : m'.image.host.pageSize = m.image.host.pageSize := (granted_files granted).pageSize
  have first : alignUp start.minimumBreak start.pageBytes ≤ m.breakMappingEnd := by
    rw [held.mappingEnd]
    exact held.first_le held.low held.high
  have span (a : Nat) : m.image.host.inSpan m.breakMappingEnd (m.growth requested)
      (a / m.image.host.pageSize.bytes) = true ↔
        m.breakMappingEnd ≤ a ∧ a < alignUp requested m.pageBytes :=
    inSpan_between m.image.host held.toHeapOk.end_aligned
      (alignUp_aligned m.image.host requested) (Nat.le_of_lt above) a
  have page (a : Nat) : m'.image.host.page a =
      if m.breakMappingEnd ≤ a ∧ a < alignUp requested m.pageBytes then some heapPage
      else m.image.host.page a := by
    rw [granted.after]
    simp only [Host.page, Host.map, ← span a]
    rfl
  refine ⟨⟨?_, ?_, ?_⟩, minimum.trans held.minimum, size.trans held.pageSize, fun a => ?_,
    fun a => ?_⟩
  · rw [minimum, current]
    exact grows.low
  · rw [current]
    exact grows.high
  · rw [mappingEnd, current, Machine.pageBytes, Machine.pageBytes, size]
  · intro low inside
    rw [mappingEnd] at inside
    rw [page a]
    split
    · rename_i fresh
      have free : m.image.host.page a = none := granted.free rfl _ ((span a).mpr fresh)
      rw [held.other a (.inr fresh.1)] at free
      exact ⟨free, rfl⟩
    · exact held.heap a low (by omega)
  · intro outside
    rw [mappingEnd] at outside
    rw [page a, if_neg (by omega)]
    exact held.other a (by omega)

theorem HeapExact.step (c : BrkCall) : HeapExact start (m.brkCall c).2 := by
  have found := held.found c
  have step := guestBrkSet_step c.requested.toNat c.outcome (m.found c)
  have returns := step.returns found.toHeapOk
  unfold Machine.brkCall
  generalize guestBrkSet c.requested.toNat c.outcome (m.found c) = result at step returns
  obtain ⟨-, -, unmoved⟩ := returns
  cases grants : (m.found c).grantsBreak c.requested.toNat c.outcome with
  | false => exact found.same (unmoved grants)
  | true =>
    cases step with
    | refused | failed => exact found
    | moved moves =>
      obtain ⟨high, level⟩ := moves.level found.toHeapOk
      exact ⟨⟨moves.low, high, level⟩, found.minimum, found.pageSize, found.heap, found.other⟩
    | released releases => exact found.released releases rfl rfl rfl rfl
    | elsewhere grows asked other =>
      rw [grows.grantsBreak, Machine.placesGrowth, asked] at grants
      simp [other] at grants
    | full grows asked refused =>
      rw [grows.grantsBreak] at grants
      simp [refused] at grants
    | grown grows asked => exact found.grown grows asked rfl rfl rfl

theorem HeapExact.run (calls : List BrkCall) : HeapExact start (m.brkRun calls) := by
  induction calls generalizing m with
  | nil => exact held
  | cons c rest ih => exact ih (held.step c)

end

theorem guestBrkInitialize_heapExact {b0 : Nat} (begun : guestBrkInitialize b0 m = some start) :
    start.minimumBreak = b0 ∧ HeapExact start start := by
  unfold guestBrkInitialize at begun
  split at begun
  · cases begun
  · rename_i inside
    cases begun
    refine ⟨rfl, ⟨Nat.le_refl _, ?_, rfl⟩, rfl, rfl, fun a low high => ?_, fun _ _ => rfl⟩
    · dsimp only
      omega
    · exact absurd (Nat.lt_of_le_of_lt low high) (Nat.lt_irrefl _)

/-- After any calls of `brk`, whatever the host and the registry answered: the break is in
its window, the mapping ends at its rounding, the heap has exactly the pages from the first
break on, taken from free ones, and the next call returns the new break: the request if it
is granted, and otherwise the old one, with nothing changed. -/
theorem brk_bookkeeping {b0 : Nat} {m₀ start : Machine}
    (begun : guestBrkInitialize b0 m₀ = some start) (calls : List BrkCall) (c : BrkCall) :
    let m := start.brkRun calls
    let result := m.brkCall c
    (b0 ≤ m.currentBreak ∧ m.currentBreak < guestMaxAddress) ∧
    m.breakMappingEnd = alignUp m.currentBreak m.pageBytes ∧
    (∀ a, alignUp b0 m.pageBytes ≤ a → a < m.breakMappingEnd →
      start.image.host.page a = none ∧ m.image.host.page a = some heapPage) ∧
    (∀ a, a < alignUp b0 m.pageBytes ∨ m.breakMappingEnd ≤ a →
      m.image.host.page a = start.image.host.page a) ∧
    result.1 = result.2.currentBreak ∧
    ((m.found c).grantsBreak c.requested.toNat c.outcome = true →
      result.2.currentBreak = c.requested.toNat) ∧
    ((m.found c).grantsBreak c.requested.toNat c.outcome = false →
      (m.found c).Unmoved result.2) := by
  intro m result
  obtain ⟨minimum, first⟩ := guestBrkInitialize_heapExact begun
  have held : HeapExact start m := first.run calls
  have same : alignUp b0 m.pageBytes = alignUp start.minimumBreak start.pageBytes := by
    rw [minimum, Machine.pageBytes, Machine.pageBytes, held.pageSize]
  have step := guestBrkSet_step c.requested.toNat c.outcome (m.found c)
  refine ⟨⟨?_, held.high⟩, held.mappingEnd, ?_, ?_, step.returns (held.found c).toHeapOk⟩
  · rw [← minimum, ← held.minimum]
    exact held.low
  · rw [same]
    exact held.heap
  · rw [same]
    exact held.other

/-- The heap of the small program, grown by two pages. -/
def twoPageHeap : Machine :=
  (smallHeap.getD bareMachine).brkRun [⟨0x12345, .ok 0x11000, Registry.empty⟩]

/-- A request for one page more, which the host puts elsewhere. -/
def misplacedCall : BrkCall := ⟨0x13001, .ok 0x50000000, Registry.empty⟩

theorem misplaced_page_is_refused :
    twoPageHeap.currentBreak = 0x12345 ∧ twoPageHeap.breakMappingEnd = 0x13000 ∧
    (twoPageHeap.brkCall misplacedCall).1 = 0x12345 ∧
    (twoPageHeap.found misplacedCall).Unmoved (twoPageHeap.brkCall misplacedCall).2 := by
  have facts : smallHeap.isSome = true ∧
      (twoPageHeap.found misplacedCall).grantsBreak 0x13001 (.ok 0x50000000) = false ∧
      twoPageHeap.currentBreak = 0x12345 ∧ twoPageHeap.breakMappingEnd = 0x13000 ∧
      (twoPageHeap.brkCall misplacedCall).1 = 0x12345 := by decide +kernel
  obtain ⟨there, refused, first, last, result⟩ := facts
  have begun : smallHeap = some (smallHeap.getD bareMachine) := eq_some_getD bareMachine there
  obtain ⟨-, -, -, -, -, -, unmoved⟩ := brk_bookkeeping begun
    [⟨0x12345, .ok 0x11000, Registry.empty⟩] misplacedCall
  exact ⟨first, last, result, unmoved refused⟩

end Linuxemu.Guest
