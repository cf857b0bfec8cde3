import Linuxemu.LoadUndo
import Linuxemu.PatchTable

/-! What holds of memory and the patch table while a program is loaded: every record
names a trap in a load segment. So a loaded program starts with a sound table. -/
namespace Linuxemu.Guest
open Lib Registry
variable {m m' n : Machine} {error : Option Errno} {header : ProgramHeader} {descriptor : Int}
  {e : SegmentHost} {loadBias fileSize : Nat}
variable {x : LoadSegment} {image s t : Image} {length start : Nat}

/-! ## The invariant of the loader -/

def LoadSegment.Holds (x : LoadSegment) (a : Nat) : Prop :=
  x.mapStart ≤ a ∧ a < x.mapStart + x.mapLength

def LoadSegment.Apart (x y : LoadSegment) : Prop :=
  x.mapStart + x.mapLength ≤ y.mapStart ∨ y.mapStart + y.mapLength ≤ x.mapStart

theorem LoadSegment.Apart.not_holds {y : LoadSegment} (apart : x.Apart y) {a : Nat}
    (holds : x.Holds a) : ¬ y.Holds a := by
  rintro ⟨low, high⟩
  obtain ⟨above, below⟩ := holds
  unfold LoadSegment.Apart at apart
  omega

/-- Records are of traps in load segments; segments are whole pages of the process's
own memory, apart from each other. -/
structure Machine.LoadOk (m : Machine) : Prop where
  sound : m.image.Sound
  traps : ∀ r ∈ m.image.patches, m.image.host.peek r.address = some armUdfTrap
  inside : ∀ r ∈ m.image.patches, ∃ x ∈ m.loadSegments, x.Holds r.address
  own : ∀ x ∈ m.loadSegments, ∀ a, x.Holds a → m.image.host.Own a
  whole : ∀ x ∈ m.loadSegments,
    x.mapStart % m.pageBytes = 0 ∧ m.image.host.pageCount x.mapLength * m.pageBytes = x.mapLength
  apart : m.loadSegments.Pairwise LoadSegment.Apart
  registry : m.registry = Registry.empty

theorem Machine.LoadOk.quiet (ok : m.LoadOk) (within : Nat → Prop) :
    m.image.Quiet within := by
  intro r member _ w seen
  obtain rfl : armUdfTrap = w := Option.some.inj ((ok.traps r member).symm.trans seen)
  exact patchable_udf

theorem Machine.LoadOk.ownRecord (ok : m.LoadOk) {r : PatchRecord} (member : r ∈ m.image.patches) :
    m.image.host.Own r.address := by
  obtain ⟨x, known, holds⟩ := ok.inside r member
  exact ok.own x known r.address holds

/-- A scan keeps the traps that are recorded and records those it puts. -/
theorem Patched.traps {within : Nat → Prop} (h : Patched within s t)
    (aligned : ∀ r ∈ s.patches, r.address % 4 = 0)
    (traps : ∀ r ∈ s.patches, s.host.peek r.address = some armUdfTrap) :
    ∀ r ∈ t.patches, t.host.peek r.address = some armUdfTrap := by
  induction h with
  | refl s => exact traps
  | trap _ here _ _ trapped _ ih =>
    obtain ⟨host, stored, rfl⟩ := trap_some trapped
    apply ih
    · intro r member
      rw [List.mem_append, List.mem_singleton] at member
      obtain old | rfl := member
      · exact aligned r old
      · exact here
    · intro r member
      rw [List.mem_append, List.mem_singleton] at member
      obtain old | rfl := member
      · obtain same | stop := peek_storeWord stored here (aligned r old)
        · exact same.trans (traps r old)
        · exact stop
      · exact peek_stored stored

/-- Host changes that keep mapped pages, with the same records and segments. -/
theorem Machine.LoadOk.keep (ok : m.LoadOk) (kept : HostKept m.image.host m'.image.host)
    (sound : m'.image.Sound) (patches : m'.image.patches = m.image.patches)
    (segments : m'.loadSegments = m.loadSegments) (registry : m'.registry = m.registry) :
    m'.LoadOk := by
  have pages : m'.pageBytes = m.pageBytes := congrArg PageSize.bytes kept.pageSize
  refine ⟨sound, ?_, ?_, ?_, ?_, ?_, ?_⟩
  · intro r member
    rw [patches] at member
    rw [kept.peek (ok.ownRecord member) (ok.sound.aligned r member)]
    exact ok.traps r member
  · rw [patches, segments]
    exact ok.inside
  · rw [segments]
    exact fun x known a holds => kept.own (ok.own x known a holds)
  · rw [segments, pages]
    intro x known
    refine ⟨(ok.whole x known).1, ?_⟩
    rw [Host.pageCount, kept.pageSize]
    exact (ok.whole x known).2
  · rw [segments]
    exact ok.apart
  · exact registry.trans ok.registry

/-- A segment more, on pages that were free. -/
theorem Machine.LoadOk.add (ok : m.LoadOk) (kept : HostKept m.image.host m'.image.host)
    (sound : m'.image.Sound) (patches : m'.image.patches = m.image.patches)
    (segments : m'.loadSegments = m.loadSegments ++ [x]) (registry : m'.registry = m.registry)
    (own : ∀ a, x.Holds a → m'.image.host.Own a) (whole : x.mapStart % m.pageBytes = 0 ∧
      m.image.host.pageCount x.mapLength * m.pageBytes = x.mapLength)
    (apart : ∀ y ∈ m.loadSegments, y.Apart x) : m'.LoadOk := by
  have old : ({ m' with loadSegments := m.loadSegments } : Machine).LoadOk :=
    ok.keep kept sound patches rfl registry
  refine ⟨sound, old.traps, ?_, ?_, ?_, ?_, old.registry⟩
  · intro r member
    obtain ⟨y, known, holds⟩ := old.inside r member
    exact ⟨y, by rw [segments]; exact List.mem_append_left _ known, holds⟩
  · intro y known
    rw [segments, List.mem_append, List.mem_singleton] at known
    obtain known | rfl := known
    · exact old.own y known
    · exact own
  · intro y known
    rw [segments, List.mem_append, List.mem_singleton] at known
    obtain known | rfl := known
    · exact old.whole y known
    · rw [Machine.pageBytes, Host.pageCount, kept.pageSize]
      exact whole
  · rw [segments, List.pairwise_append]
    refine ⟨ok.apart, List.pairwise_singleton _ _, ?_⟩
    intro y known z last
    rw [List.mem_singleton] at last
    exact last ▸ apart y known

/-! ## The steps of the loader -/

theorem placeSegment_loadOk {segmentStart mapStart mapLength : Nat} (ok : m.LoadOk)
    (good : GoodRange m header segmentStart mapStart mapLength)
    (done : m.placeSegment descriptor header segmentStart mapStart mapLength e = some (error, m')) :
    m'.LoadOk := by
  obtain ⟨-, rfl⟩ | ⟨-, mapping, host, granted, rfl⟩ | ⟨-, host, bytes, granted, -, rfl⟩ :=
    placeSegment_cases done
  · exact ok
  · have change : OnFree m.image.host mapping mapLength host := granted_onFree granted rfl
    have sound := ok.sound.remap host mapping mapLength
    exact ok.keep change.munmap.kept (sound.remap _ _ _) rfl rfl rfl
  · have change : OnFree m.image.host mapStart mapLength host := granted_onFree granted rfl
    have sound := ok.sound.remap host mapStart mapLength
    have filled : OnFree m.image.host mapStart mapLength ((m.given host mapStart mapLength).fillSegment
        header bytes segmentStart mapStart mapLength).image.host :=
      fillSegment_onFree change rfl good.below good.file (good.whole.symm ▸ good.above)
    refine ok.add filled.kept (sound.host _) rfl rfl rfl ?_ ⟨good.aligned, good.whole⟩ good.apart
    rintro a ⟨low, high⟩
    exact granted_own granted rfl low high

theorem mapLoadSegment_loadOk (ok : m.LoadOk)
    (done : guestMemoryMapLoadSegment descriptor header loadBias fileSize e m = some (error, m')) :
    m'.LoadOk := by
  obtain ⟨-, rfl⟩ | ⟨good, -, -, -, placed⟩ := mapLoadSegment_cases done
  · exact ok
  · exact placeSegment_loadOk ok good placed

/-- Load segments end in the window. -/
def Machine.SegmentsBelow (m : Machine) : Prop :=
  ∀ x ∈ m.loadSegments, x.mapStart + x.mapLength ≤ guestMaxAddress

theorem mapLoadSegment_below (below : m.SegmentsBelow)
    (done : guestMemoryMapLoadSegment descriptor header loadBias fileSize e m = some (error, m')) :
    m'.SegmentsBelow := by
  obtain ⟨-, rfl⟩ | ⟨-, -, high, -, placed⟩ := mapLoadSegment_cases done
  · exact below
  obtain ⟨-, rfl⟩ | ⟨-, mapping, host, -, rfl⟩ | ⟨-, host, bytes, -, -, rfl⟩ :=
    placeSegment_cases placed
  · exact below
  · exact below
  · intro x known
    obtain old | rfl := List.mem_append.mp known |>.imp_right List.mem_singleton.mp
    · exact below x old
    · exact high

/-- An executable range lies in one load segment, while nothing else is registered. -/
theorem Machine.LoadOk.executable (ok : m.LoadOk)
    (executable : m.guestMemoryIsExecutable start length = true) :
    ∃ x ∈ m.loadSegments, ∀ a, start ≤ a → a < start + length → x.Holds a := by
  rw [Machine.guestMemoryIsExecutable, ok.registry] at executable
  simp only [Registry.empty, List.any_nil, Bool.or_false, Bool.and_eq_true, List.any_eq_true,
    decide_eq_true_iff] at executable
  obtain ⟨-, x, known, ⟨-, low⟩, high⟩ := executable
  exact ⟨x, known, fun a above below =>
    ⟨Nat.le_trans low above, Nat.lt_of_lt_of_le below high⟩⟩

/-- Patching a range of an executable segment. -/
theorem patchRange_loadOk (ok : m.LoadOk)
    (executable : m.guestMemoryIsExecutable start length = true)
    (patched : armPatchRange start length m.image = some (error, image)) :
    ({ m with image } : Machine).LoadOk := by
  have scan := armPatchRange_patched patched
  obtain ⟨bytes, frame⟩ := scan.frame
  obtain ⟨new, appended, within⟩ := scan.patches
  have pages : image.host.pages = m.image.host.pages := by rw [frame]
  have size : image.host.pageSize = m.image.host.pageSize := by rw [frame]
  refine ⟨(scan.sound ok.sound (ok.quiet _)).1, scan.traps ok.sound.aligned ok.traps, ?_, ?_, ?_,
    ok.apart, ok.registry⟩
  · intro r member
    replace member : r ∈ image.patches := member
    rw [appended, List.mem_append] at member
    obtain old | added := member
    · exact ok.inside r old
    · obtain ⟨x, known, holds⟩ := ok.executable executable
      have place := within r added
      exact ⟨x, known, holds r.address place.1 place.2⟩
  · intro x known a holds
    obtain ⟨page, there, kind⟩ := ok.own x known a holds
    exact ⟨page, by show image.host.page a = some page; rw [Host.page, pages, size]; exact there,
      kind⟩
  · intro x known
    have whole := ok.whole x known
    show x.mapStart % image.host.pageSize.bytes = 0 ∧
      (x.mapLength + image.host.pageSize.bytes - 1) / image.host.pageSize.bytes *
        image.host.pageSize.bytes = x.mapLength
    rw [size]
    exact whole

theorem attempt_loadOk (ok : m.LoadOk) (attempt : Attempt m n) : n.LoadOk := by
  induction attempt with
  | start => exact ok
  | segment _ mapped ih => exact mapLoadSegment_loadOk ih mapped
  | code _ executable patched ih => exact patchRange_loadOk ih executable patched

/-! ## Undoing a failed attempt -/

theorem unmapSegments_frame (gone : List LoadSegment) (sound : m.image.Sound) :
    (m.unmapSegments gone).image.Sound ∧ (m.unmapSegments gone).registry = m.registry := by
  induction gone generalizing m with
  | nil => exact ⟨sound, rfl⟩
  | cons x rest ih =>
    exact ih (m := m.munmap x.mapStart x.mapLength) (sound.remap _ x.mapStart x.mapLength)

/-- A failed attempt is taken back: what was there before it is as it was. -/
theorem rollback_loadOk (before : m.LoadOk) (attempt : Attempt m n)
    (undone : armPatchRollback m.image.patches.length n.image = some image) :
    (guestMemoryRollback m.loadSegments.length { n with image }).LoadOk := by
  obtain ⟨image', undone', same, intact⟩ := (attempt_grown (.refl m) attempt).undone
  cases undone.symm.trans undone'
  have ok := attempt_loadOk before attempt
  obtain ⟨sound, registry⟩ := unmapSegments_frame (m := { n with image })
    (n.loadSegments.drop m.loadSegments.length).reverse (ok.sound.rollback undone)
  exact before.keep intact.kept sound same.patches same.segments
    (registry.trans (ok.registry.trans before.registry.symm))

theorem loading_loadOk (loading : Loading m) : m.LoadOk := by
  induction loading with
  | @start m segments registry patches untrapped =>
    refine ⟨⟨?_, ?_, ?_⟩, ?_, ?_, ?_, ?_, ?_, registry⟩
    · simp [patches]
    · simp [patches]
    · simp [untrapped]
    · simp [patches]
    · simp [patches]
    · simp [segments]
    · simp [segments]
    · simp [segments]
  | object _ attempt ih => exact attempt_loadOk ih attempt
  | failed _ attempt undone ih => exact rollback_loadOk ih attempt undone

theorem attempt_below (below : m.SegmentsBelow) (attempt : Attempt m n) :
    n.SegmentsBelow := by
  induction attempt with
  | start => exact below
  | segment _ mapped ih => exact mapLoadSegment_below ih mapped
  | code _ _ _ ih => exact ih

theorem loading_below (loading : Loading m) : m.SegmentsBelow := by
  induction loading with
  | start segments => simp [Machine.SegmentsBelow, segments]
  | object _ attempt ih => exact attempt_below ih attempt
  | failed _ attempt _ ih =>
    exact fun x known => attempt_below ih attempt x (List.mem_of_mem_take known)

/-! ## The tables of the loader -/

theorem patchWords_few {count address : Nat} (few : s.patches.length ≤ maxPatches)
    (done : patchWords count address s = some (error, t)) : t.patches.length ≤ maxPatches := by
  induction count generalizing address s with
  | zero =>
    cases done
    exact few
  | succ count ih =>
    unfold patchWords at done
    split at done
    · cases done
    split at done
    · exact ih few done
    split at done
    · cases done
      exact few
    rename_i room
    split at done
    · cases done
    · rename_i trapped
      obtain ⟨host, -, rfl⟩ := trap_some trapped
      refine ih ?_ done
      rw [List.length_append, List.length_singleton]
      omega

/-- Neither table has more entries than the source has room for. -/
structure Machine.TablesFit (m : Machine) : Prop where
  segments : m.loadSegments.length ≤ maxLoadSegments
  patches : m.image.patches.length ≤ maxPatches

theorem mapLoadSegment_tablesFit (fit : m.TablesFit)
    (done : guestMemoryMapLoadSegment descriptor header loadBias fileSize e m = some (error, m')) :
    m'.TablesFit := by
  obtain ⟨-, rfl⟩ | ⟨-, -, -, slots, placed⟩ := mapLoadSegment_cases done
  · exact fit
  obtain ⟨-, rfl⟩ | ⟨-, mapping, host, -, rfl⟩ | ⟨-, host, bytes, -, -, rfl⟩ :=
    placeSegment_cases placed
  · exact fit
  · exact ⟨fit.segments, fit.patches⟩
  · refine ⟨?_, fit.patches⟩
    have before := fit.segments
    show (m.loadSegments ++ [_]).length ≤ maxLoadSegments
    rw [List.length_append, List.length_singleton]
    omega

theorem attempt_tablesFit (fit : m.TablesFit) (attempt : Attempt m n) :
    n.TablesFit := by
  induction attempt with
  | start => exact fit
  | segment _ mapped ih => exact mapLoadSegment_tablesFit ih mapped
  | code _ _ patched ih =>
    refine ⟨ih.segments, ?_⟩
    unfold armPatchRange at patched
    split at patched
    · cases patched
      exact ih.patches
    · exact patchWords_few ih.patches patched

theorem loading_tablesFit (loading : Loading m) : m.TablesFit := by
  induction loading with
  | start segments _ patches _ => exact ⟨by simp [segments], by simp [patches]⟩
  | object _ attempt ih => exact attempt_tablesFit ih attempt
  | @failed m n image _ attempt undone ih =>
    obtain ⟨-, kept, -⟩ := armPatchRollback_spec undone
    obtain ⟨patches, -⟩ := unmapSegments_pages
      (n.loadSegments.drop m.loadSegments.length).reverse { n with image }
    constructor
    · exact Nat.le_trans (List.length_take_le _ _) ih.segments
    · show (Machine.unmapSegments _ _).image.patches.length ≤ maxPatches
      rw [patches]
      show image.patches.length ≤ maxPatches
      rw [kept]
      exact Nat.le_trans (List.length_take_le _ _) ih.patches

/-! ## A loaded program -/

theorem finalizeSegments_sound (sound : m.image.Sound)
    (answer : LoadSegment → Option Errno × Option Errno) (segments : List LoadSegment) :
    (m.finalizeSegments answer segments).2.image.Sound := by
  induction segments generalizing m with
  | nil => exact sound
  | cons x rest ih =>
    have kept := mprotect_sound sound x.mapStart x.mapLength x.finalProtection (answer x).1
    unfold Machine.finalizeSegments
    split
    · rename_i asked
      rw [asked] at kept
      exact kept
    · rename_i asked
      rw [asked] at kept
      split
      · exact kept
      · exact ih kept

theorem createGuestStack_sound {outcome : Except Errno Nat} {content : Nat → UInt8}
    {c d : Machine} (sound : c.image.Sound)
    (stack : createGuestStack outcome content c = some d) : d.image.Sound := by
  have kept := mmap_sound sound 0 guestStackSize brkProtection brkFlags (-1) 0 outcome
  unfold createGuestStack at stack
  split at stack
  · cases stack
  · rename_i asked
    rw [asked] at kept
    dsimp only at stack
    split at stack
    · cases stack
    · cases stack
      exact kept.host _

/-- A program starts with a sound patch table. -/
theorem loaded_sound (loaded : Loaded m) : m.image.Sound := by
  cases loaded with
  | @load a b c d entry initialBreak answer outcome content loading _ _ heap final stack =>
    have start : b.image.Sound := by
      unfold guestBrkInitialize at heap
      split at heap
      · cases heap
      · cases heap
        exact (loading_loadOk loading).sound
    have fixed := finalizeSegments_sound start answer b.loadSegments
    rw [show b.finalizeSegments answer b.loadSegments = (none, c) from final] at fixed
    have ready : d.image.Sound := createGuestStack_sound fixed stack
    exact ready

end Linuxemu.Guest
