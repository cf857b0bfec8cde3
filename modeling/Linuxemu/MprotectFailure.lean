import Linuxemu.MemoryRuns
import Linuxemu.ProtectedPage

/-! What a failed `mprotect` leaves behind. -/
namespace Linuxemu.Guest
open Lib Registry
variable {protection : Protection} {m m' : Machine}

/-- Words, patch table, registry and the protection of every page are as they were. -/
structure Machine.Unchanged (m m' : Machine) : Prop where
  words : ∀ a, m'.image.host.peek a = m.image.host.peek a
  patches : m'.image.patches = m.image.patches
  registry : m'.registry.runtimeMappings = m.registry.runtimeMappings
  protection : ∀ n, (m'.image.host.pages n).map Page.protection =
    (m.image.host.pages n).map Page.protection

/-- Every page of the range has this protection. -/
def Machine.PagesHave (m : Machine) (address length : Nat) (protection : Protection) : Prop :=
  ∀ n page, m.image.host.inSpan address length n = true → m.image.host.pages n = some page →
    page.protection = protection

/-- The number of instructions to patch in the range. -/
def Machine.codeCount (m : Machine) (address length : Nat) : Nat :=
  m.image.host.codeCount (length / 4) address

/-- If the call fails, it fails before it has changed anything, or it changes the pages of
the range to the protection they have. -/
def Machine.LeavesNothing (m : Machine) (address length : Nat) (protection : Protection)
    (e : MprotectHost) : Prop :=
  m.spanMapped address length = false ∨
  if protection.exec = false then e.final ≠ none ∨ m.PagesHave address length protection
  else e.unlock ≠ none ∨
    if TooMany m.image.patches.length (m.codeCount address length) ∨ e.msync ≠ none then
      m.PagesHave address length (if e.relock = none then protection else ⟨true, true, true⟩)
    else if e.final ≠ none then m.PagesHave address length ⟨true, true, true⟩
    else m.PagesHave address length protection ∧ m.codeCount address length = 0

/-! ## Protections -/

/-- Giving pages a protection changes none exactly when they have it. -/
theorem protect_same_iff (m : Machine) (address length : Nat) (protection : Protection) :
    (∀ n, ((m.image.host.protect address length protection).pages n).map Page.protection =
      (m.image.host.pages n).map Page.protection) ↔ m.PagesHave address length protection := by
  constructor
  · intro same n page inside there
    have here := same n
    rw [Host.protect] at here
    simp only [inside, ↓reduceIte, there, Option.map_some, Option.some.injEq] at here
    exact here.symm
  · intro have_it n
    rw [Host.protect]
    dsimp only
    split
    · rename_i inside
      cases there : m.image.host.pages n with
      | none => rfl
      | some page => simp [have_it n page inside there]
    · rfl

theorem Machine.Unchanged.of_same (image : m'.image = m.image)
    (registry : m'.registry = m.registry) : m.Unchanged m' :=
  ⟨fun _ => by rw [image], by rw [image], by rw [registry], fun _ => by rw [image]⟩

theorem unchanged_iff {address length : Nat}
    (host : m'.image.host = m.image.host.protect address length protection)
    (patches : m'.image.patches = m.image.patches)
    (registry : m'.registry.runtimeMappings = m.registry.runtimeMappings) :
    m.Unchanged m' ↔ m.PagesHave address length protection := by
  rw [← protect_same_iff]
  constructor
  · intro same
    rw [← host]
    exact same.protection
  · intro same
    refine ⟨fun a => ?_, patches, registry, ?_⟩
    · rw [host]
      exact peek_protect _ _ _ _ _
    · rw [host]
      exact same

/-! ## The exits -/

section Exits
variable {m m' : Machine} {address length : Nat} {protection : Protection} {e : MprotectHost}
  {code : Int} {error : Option Errno} {patched restored : Image}

/-- A scan that adds no record has changed nothing. -/
theorem Patched.eq_of_length {within : Nat → Prop} {s t : Image} (h : Patched within s t)
    (length : t.patches.length = s.patches.length) : t = s := by
  cases h with
  | refl => rfl
  | trap _ _ _ _ trapped rest =>
    obtain ⟨host, -, rfl⟩ := trap_some trapped
    obtain ⟨new, appended, -⟩ := rest.patches
    rw [appended] at length
    simp at length

/-- Whole words, inside the address space. -/
structure Scannable (address length : Nat) : Prop where
  aligned : address % 4 = 0
  words : length % 4 = 0
  fits : address + length ≤ uintptrMax

/-- Opening the pages does not change how much there is to patch. -/
theorem Scannable.count (range : Scannable address length)
    (scan : armPatchRange address length (m.opened address length) = some (error, patched)) :
    (error ≠ none ∧ TooMany m.image.patches.length (m.codeCount address length)) ∨
    (error = none ∧ ¬ TooMany m.image.patches.length (m.codeCount address length) ∧
      patched.patches.length = m.image.patches.length + m.codeCount address length) := by
  have count := armPatchRange_count range.aligned range.words range.fits scan
  have same : (m.opened address length).host.codeCount (length / 4) address =
      m.codeCount address length := by
    rw [Machine.codeCount, Host.codeCount, codePlaces_protect, Host.codeCount]
  rwa [same] at count

theorem MprotectOutcome.unchanged_iff (range : Scannable address length) (failed : code < 0)
    (outcome : MprotectOutcome m address length protection e (code, m')) :
    m.Unchanged m' ↔ m.LeavesNothing address length protection e := by
  unfold Machine.LeavesNothing
  cases outcome with
  | refused _ why image registry =>
    refine iff_of_true (.of_same image registry) ?_
    obtain answer | absent := why
    · right
      cases exec : protection.exec with
      | false =>
        rw [exec] at answer
        exact .inl answer
      | true =>
        rw [exec] at answer
        exact .inl answer
    · exact .inl absent
  | undone _ exec unlock there scan why rolled image registry =>
    obtain ⟨host, patches⟩ := rolled_opened scan rolled
    have exhausted : TooMany m.image.patches.length (m.codeCount address length) ∨
        e.msync ≠ none := by
      obtain ⟨-, many⟩ | ⟨fine, -⟩ := range.count scan
      · exact .inl many
      · exact .inr (why.resolve_left fun wrong => wrong fine)
    simp only [there, exec, unlock, exhausted, Bool.true_eq_false, ne_eq, not_true_eq_false,
      false_or, ↓reduceIte]
    by_cases relock : e.relock = none
    · rw [if_pos relock] at image ⊢
      refine Guest.unchanged_iff ?_ (by rw [image]; exact patches) (by rw [registry])
      rw [image]
      dsimp only
      rw [host, protect_protect]
    · rw [if_neg relock] at image ⊢
      exact Guest.unchanged_iff (by rw [image]; exact host) (by rw [image]; exact patches)
        (by rw [registry])
  | left _ exec unlock there scan msync final rolled image registry =>
    obtain ⟨host, patches⟩ := rolled_opened scan rolled
    obtain ⟨wrong, -⟩ | ⟨-, few, -⟩ := range.count scan
    · exact absurd rfl wrong
    · simp only [there, exec, unlock, few, msync, final, Bool.true_eq_false, ne_eq,
        not_true_eq_false, not_false_eq_true, false_or, ↓reduceIte]
      exact Guest.unchanged_iff (by rw [image]; exact host) (by rw [image]; exact patches)
        (by rw [registry])
  | settled final there data scan image result registry =>
    have full : (m.protectReply address length protection).code ≠ 0 := by
      intro zero
      rw [if_neg (not_not.mpr zero)] at result
      omega
    have table : m'.registry.runtimeMappings = m.registry.runtimeMappings := by
      rw [registry]
      exact protect_failed full
    cases exec : protection.exec with
    | false =>
      simp only [there, final, Bool.true_eq_false, ne_eq, not_true_eq_false, false_or, ↓reduceIte]
      have same := data exec
      exact Guest.unchanged_iff (by rw [image, same]) (by rw [image, same]) table
    | true =>
      obtain ⟨unlock, msync, scanned⟩ := scan exec
      obtain ⟨wrong, -⟩ | ⟨-, few, length'⟩ := range.count scanned
      · exact absurd rfl wrong
      simp only [there, final, unlock, msync, few, Bool.true_eq_false, ne_eq, not_true_eq_false,
        false_or, ↓reduceIte]
      by_cases none : m.codeCount address length = 0
      · rw [and_iff_left none]
        obtain rfl := (armPatchRange_patched scanned).eq_of_length (by rw [length', none]; rfl)
        refine Guest.unchanged_iff ?_ (by rw [image]) table
        rw [image]
        exact protect_protect _ _ _ _ _
      · refine iff_of_false (fun same => none ?_) fun both => none both.2
        have := same.patches
        rw [image] at this
        rw [this] at length'
        omega

end Exits

theorem Machine.Protects.scannable {address length linux : UInt32}
    (protects : m.Protects address length linux protection) :
    Scannable address.toNat (alignUp length.toNat m.pageBytes) := by
  have four := m.image.host.pageSize.four_dvd
  refine ⟨?_, ?_, ((guestMemoryRuntimeOwned_iff _ _ _).mp protects.owned).2.1⟩
  · exact Nat.mod_eq_zero_of_dvd (four.trans (Nat.dvd_of_mod_eq_zero protects.aligned))
  · exact Nat.mod_eq_zero_of_dvd
      (four.trans (Nat.dvd_of_mod_eq_zero (alignUp_aligned m.image.host _)))

/-- A call that fails leaves everything as it was exactly when it fails early, or changes
the pages of the range to the protection they have. -/
theorem failed_mprotect_iff {m m' : Machine} {address length linux : UInt32} {e : MprotectHost}
    {code : Int} (call : linuxMprotectRuntime address length linux e m = some (code, m'))
    (failed : code < 0) :
    m.Unchanged m' ↔ ∀ protection, m.Protects address length linux protection →
      m.LeavesNothing address.toNat (alignUp length.toNat m.pageBytes) protection e := by
  obtain ⟨-, never, image, registry⟩ | ⟨zero, -⟩ | ⟨protection, protects, outcome⟩ :=
    linuxMprotectRuntime_outcome call
  · exact iff_of_true (.of_same image registry) fun protection protects =>
      absurd protects (never protection)
  · omega
  · rw [outcome.unchanged_iff protects.scannable failed]
    constructor
    · intro leaves protection' protects'
      cases protects.translated.symm.trans protects'.translated
      exact leaves
    · intro leaves
      exact leaves protection protects

/-- The host refuses to make a page of the stack read-only, and nothing has changed. -/
theorem refused_mprotect_unchanged :
    let call := linuxMprotectRuntime 0x40000000 4096 1 ⟨none, none, none, some .eio, .enomem⟩
      smallProgram
    call.map Prod.fst = some (-5) ∧ smallProgram.Unchanged (after smallProgram call) := by
  intro call
  have code : call.map Prod.fst = some (-5) := by decide +kernel
  refine ⟨code, (failed_mprotect_iff (after_eq code) (by decide)).mpr ?_⟩
  intro protection protects
  have data : translateProtection 1 = some ⟨true, false, false⟩ := by decide
  cases data.symm.trans protects.translated
  exact .inr (.inl (by simp))

/-- The instruction cache of a page of the stack cannot be synchronised: the call that was
to make the page executable fails and the page is executable, no longer writable. -/
theorem unsynchronised_page_changed :
    ∃ m, Reached m ∧ ∃ m', linuxMprotectRuntime 0x40000000 4096 5
        ⟨none, some .eio, none, none, .enomem⟩ m = some (-5, m') ∧
      (m.image.host.pages 0x40000).map Page.protection = some ⟨true, true, false⟩ ∧
      (m'.image.host.pages 0x40000).map Page.protection = some ⟨true, false, true⟩ := by
  have all : smallProgram.pageBytes = 4096 ∧
      smallProgram.image.host.pages ((0x40000000 : UInt32).toNat / 4096) =
        some ⟨⟨true, true, false⟩, none, false⟩ ∧
      smallProgram.guestMemoryRuntimeOwned (0x40000000 : UInt32).toNat 4096 = true ∧
      smallProgram.image.patches.length ≤ 3072 := by decide +kernel
  obtain ⟨size, page, owned, few⟩ := all
  have stack : OwnPage smallProgram 0x40000000 := ⟨size, by decide, ⟨_, page⟩, owned, few⟩
  obtain ⟨m', call, changed⟩ := stack.unsynced (e := ⟨none, some .eio, none, none, .enomem⟩)
    rfl rfl rfl
  have number : (0x40000000 : UInt32).toNat / 4096 = 0x40000 := by decide
  rw [number] at page changed
  refine ⟨smallProgram, ⟨_, smallProgram_loaded, .start⟩, m', call, ?_, changed⟩
  rw [page]
  rfl

end Linuxemu.Guest
