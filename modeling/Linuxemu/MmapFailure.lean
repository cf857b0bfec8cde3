import Linuxemu.MemoryRuns
import Linuxemu.MmapOutcome

/-! What a failed `mmap2` leaves: are the pages that the registry reports owned still
mapped, and the addresses that patch records name? -/
namespace Linuxemu.Guest
open Lib Registry
variable {m m' : Machine} {r : Registers} {e : MmapHost}

def Machine.mapped (m : Machine) (page : Nat) : Bool := (m.image.host.pages page).isSome

def Machine.ownsPage (m : Machine) (page : Nat) : Bool :=
  m.guestMemoryRuntimeOwned (page * m.pageBytes) m.pageBytes

/-- Every page that the registry reports owned is mapped. -/
def Machine.Truthful (m : Machine) : Prop := ∀ page, m.ownsPage page = true → m.mapped page = true

/-- Every record that named a mapped address still does. -/
def RecordsStay (m m' : Machine) : Prop :=
  ∀ r ∈ m'.image.patches, m.mapped (r.address / m.pageBytes) = true →
    m'.mapped (r.address / m.pageBytes) = true

/-- What a failed call has done: nothing, or it has unmapped exactly the pages that
the host had mapped for it, and left the registry as it was. -/
theorem failed_mmap2 {code : Int} (call : linuxMmap2 r e m = some (code, m')) (failed : code < 0) :
    m'.registry.runtimeMappings = m.registry.runtimeMappings ∧ m'.pageBytes = m.pageBytes ∧
    ((m.mmapGranted r e = false ∧ ∀ page, m'.mapped page = m.mapped page) ∨
      ∃ protection address host, m.Maps r e protection address host ∧ ∀ page, m'.mapped page =
        (!m.image.host.inSpan address r.length page && m.mapped page)) := by
  have taken {protection : Protection} {address : Nat} {host left : Host}
      (maps : m.Maps r e protection address host) (size : left.pageSize = host.pageSize)
      (pages : left.pages = host.pages) (page : Nat) :
      ((left.munmap address (m.mappedLength r)).pages page).isSome =
        (!m.image.host.inSpan address r.length page && m.mapped page) := by
    rw [taken_pages maps size pages]
    cases m.image.host.inSpan address r.length page <;> rfl
  cases linuxMmap2_outcome call with
  | refused _ granted image registry =>
    refine ⟨by rw [registry], by rw [Machine.pageBytes, image]; rfl, Or.inl ⟨granted, ?_⟩⟩
    intro page
    rw [Machine.mapped, image]
    rfl
  | @dropped _ _ protection address host _ maps image registry =>
    refine ⟨by rw [registry], ?_, Or.inr ⟨protection, address, host, maps, ?_⟩⟩
    · rw [Machine.pageBytes, image]
      exact congrArg PageSize.bytes (maps_pages maps 0).1
    · intro page
      rw [Machine.mapped, image]
      exact taken maps rfl rfl page
  | @abandoned _ _ protection address host filled patched _ maps _ copied scan image registry =>
    obtain ⟨bytes, frame⟩ := scan.frame
    have size : patched.host.pageSize = host.pageSize := by
      rw [frame]
      exact copied.pages.1
    have pages : patched.host.pages = host.pages := by
      rw [frame]
      exact copied.pages.2
    refine ⟨?_, ?_, Or.inr ⟨protection, address, host, maps, ?_⟩⟩
    · obtain registry | ⟨full, registry⟩ := registry
      · rw [registry]
      · rw [registry]
        exact map_failed full
    · rw [Machine.pageBytes, image]
      exact congrArg PageSize.bytes (size.trans (maps_pages maps 0).1)
    · intro page
      rw [Machine.mapped, image]
      exact taken maps size pages page
  | mapped => omega

theorem ownsPage_congr (registry : m'.registry.runtimeMappings = m.registry.runtimeMappings)
    (size : m'.pageBytes = m.pageBytes) (page : Nat) : m'.ownsPage page = m.ownsPage page := by
  simp only [Machine.ownsPage, Machine.guestMemoryRuntimeOwned, Registry.guestMemoryRuntimeOwned,
    registry, size]

/-- A fixed mapping lies on pages that the registry reports owned. -/
theorem fixed_owned {protection : Protection} {address : Nat} {host : Host}
    (maps : m.Maps r e protection address host) (fixed : r.mapFixed = true) :
    m.ownsPage (address / m.pageBytes) = true ∧
      m.image.host.inSpan address r.length (address / m.pageBytes) = true := by
  have checked := checkMmap2_ok maps.checked
  have granted := mmap_granted maps.asked
  have same : address = r.address := granted.fixed fixed
  have aligned := granted.aligned
  have whole : address / m.pageBytes * m.pageBytes = address :=
    Nat.div_mul_cancel (Nat.dvd_of_mod_eq_zero aligned)
  have long := pageBytes_le_span m.image.host checked.positive
  have short := m.image.host.pageSize.bytes_pos
  have owned := (checked.fixed fixed).2
  have length : alignUp r.length m.pageBytes = m.image.host.pageCount r.length * m.pageBytes :=
    maps_mappedLength maps
  rw [length, ← same] at owned
  obtain ⟨-, fits, flags⟩ := (guestMemoryRuntimeOwned_iff _ _ _).mp owned
  constructor
  · rw [Machine.ownsPage, whole]
    refine (guestMemoryRuntimeOwned_iff _ _ _).mpr ⟨short, ?_, ?_⟩
    · exact Nat.le_trans (Nat.add_le_add_left long _) fits
    · intro x low high
      exact flags x low (Nat.lt_of_lt_of_le high (Nat.add_le_add_left long _))
  · exact (inSpan_iff m.image.host aligned r.length address).mpr
      ⟨Nat.le_refl _, by have := long; omega⟩

/-- `Truthful` entry by entry, for a registry of aligned entries. -/
def Machine.entriesMapped (m : Machine) : Bool :=
  m.registry.runtimeMappings.all fun x => decide (x.start % m.pageBytes = 0) &&
    m.image.host.spanAll x.start (x.stop - x.start) Option.isSome

theorem truthful_of_entries (entries : m.entriesMapped = true) : m.Truthful := by
  intro page owned
  obtain ⟨positive, -, flags⟩ := (guestMemoryRuntimeOwned_iff _ _ _).mp owned
  have first := flags (page * m.pageBytes) (Nat.le_refl _) (by omega)
  simp only [Table.flagAt, ne_eq, Piece.flagAt_eq_none, not_forall, not_not] at first
  obtain ⟨x, member, covers⟩ := first
  have entry := List.all_eq_true.mp entries x member
  rw [Bool.and_eq_true, decide_eq_true_iff, spanAll_iff] at entry
  apply entry.2
  have page_eq : page * m.pageBytes / m.pageBytes = page := Nat.mul_div_cancel _ positive
  rw [← page_eq]
  refine (inSpan_iff m.image.host entry.1 _ _).mpr ⟨covers.1, ?_⟩
  have long := le_pageCount_mul m.image.host (x.stop - x.start)
  have inside := covers.2
  omega

/-- A failed `mmap2` keeps the registry and the patch table truthful exactly when it
did not get pages from the host with `MAP_FIXED`: those it has unmapped, and the
registry still reports them owned. -/
theorem failed_mmap2_truthful_iff {m m' : Machine} {r : Registers} {e : MmapHost} {code : Int}
    (truthful : m.Truthful) (call : linuxMmap2 r e m = some (code, m')) (failed : code < 0) :
    (m'.Truthful ∧ RecordsStay m m') ↔ ¬ (r.mapFixed = true ∧ m.mmapGranted r e = true) := by
  obtain ⟨registry, size, result⟩ := failed_mmap2 call failed
  have owns := ownsPage_congr registry size
  have unchanged (pages : ∀ page, m'.mapped page = m.mapped page) :
      m'.Truthful ∧ RecordsStay m m' := by
    constructor
    · intro page owned
      rw [owns] at owned
      rw [pages]
      exact truthful page owned
    · intro record _ before
      rw [pages]
      exact before
  obtain ⟨refused, pages⟩ | ⟨protection, address, host, maps, pages⟩ := result
  · refine iff_of_true (unchanged pages) ?_
    rintro ⟨-, granted⟩
    rw [refused] at granted
    cases granted
  · have granted := maps_granted maps
    cases fixed : r.mapFixed with
    | true =>
      refine iff_of_false ?_ (by simp [granted])
      rintro ⟨stillTruthful, -⟩
      obtain ⟨owned, inside⟩ := fixed_owned maps fixed
      have mapped := stillTruthful _ ((owns _).trans owned)
      rw [pages, inside] at mapped
      cases mapped
    | false =>
      refine iff_of_true (unchanged ?_) (by simp)
      intro page
      rw [pages]
      cases inside : m.image.host.inSpan address r.length page with
      | false => rfl
      | true =>
        have free := (mmap_granted maps.asked).free fixed page inside
        rw [Machine.mapped, free]
        rfl

/-- A private executable mapping of a descriptor that is not open, anywhere or (`fixed`)
at 0x20000000. -/
def closedFile (fixed : Bool) : Registers :=
  ⟨0x20000000, 4096, 5, if fixed then 0x12 else 0x2, 9, 0⟩

def anonymousPage : Registers := ⟨0, 4096, 3, 0x22, 0, 0⟩

/-- Without `MAP_FIXED` the pages go back to the host and nobody owned them. -/
theorem closed_file_truthful :
    (after smallProgram (linuxMmap2 (closedFile false) (willingHost 0x20000000)
      smallProgram)).Truthful :=
  ((failed_mmap2_truthful_iff (truthful_of_entries (by decide +kernel))
    (after_eq (show _ = some (-9) by decide +kernel)) (by decide)).mpr (by decide +kernel)).1

/-- A page of anonymous memory, mapped over with `MAP_FIXED` from a descriptor that is
not open: the call fails, the page is gone, and the registry reports it owned. -/
theorem fixed_closed_file_untruthful :
    let mapped := after smallProgram
      (smallProgram.call (.mmap2 anonymousPage (willingHost 0x20000000)))
    let failing := linuxMmap2 (closedFile true) (willingHost 0x20000000) mapped
    Reached mapped ∧ mapped.Truthful ∧ failing.map Prod.fst = some (-9) ∧
      (after mapped failing).ownsPage 0x20000 = true ∧
      (after mapped failing).mapped 0x20000 = false := by
  intro mapped failing
  have facts : (smallProgram.call (.mmap2 anonymousPage (willingHost 0x20000000))).map Prod.fst =
      some 0x20000000 ∧ failing.map Prod.fst = some (-9) ∧
      (after mapped failing).ownsPage 0x20000 = true ∧
      (after mapped failing).mapped 0x20000 = false := by decide +kernel
  obtain ⟨code, reported⟩ := facts
  have call : smallProgram.call (.mmap2 anonymousPage (willingHost 0x20000000)) =
      some (0x20000000, mapped) := after_eq code
  have reached : Reached smallProgram := ⟨_, smallProgram_loaded, .start⟩
  exact ⟨reached.call call, truthful_of_entries (by decide +kernel), reported⟩

end Linuxemu.Guest
