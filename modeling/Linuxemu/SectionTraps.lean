import Linuxemu.PatchCount
import Linuxemu.ProgramHeaders
import Linuxemu.SegmentPlaces
import Mathlib.Data.List.Dedup
import Mathlib.Data.List.Perm.Basic

/-! Patching the code of an object that has been mapped: it never faults, and the table of
records runs out exactly if the instructions of the file that are to be replaced are too many. -/
namespace Linuxemu.Guest
open Lib Registry
variable {x : ElfSection} {a v : Nat} {m : Machine}

/-! ## All sections -/

/-- A section that passes the checks of `patch_executable_sections` and whose memory can be
written. -/
structure SectionReady (headers : List ElfProgramHeader) (loadBias fileSize : Nat) (m : Machine)
    (x : ElfSection) : Prop where
  accepted : acceptableSection x headers loadBias fileSize = true
  aligned : (loadBias + x.shAddr) % 4 = 0
  whole : x.shSize % 4 = 0
  executable : m.guestMemoryIsExecutable (loadBias + x.shAddr) x.shSize = true
  fits : loadBias + x.shAddr + x.shSize ≤ uintptrMax
  writable : ∀ a, loadBias + x.shAddr ≤ a → a < loadBias + x.shAddr + x.shSize →
    (m.image.host.access Page.writable a).isSome = true

/-- How patching the sections ends: with no instruction left, or with the table full in front
of one. -/
structure SectionsEnd (loadBias count : Nat) (sections : List ElfSection) (m : Machine)
    (result : Except (Option Errno) Nat) (n : Machine) : Prop where
  scan : Patched (fun a => sections.any (·.codeAt loadBias a)) m.image n.image
  few : n.image.patches.length ≤ maxPatches
  ends : (result = .ok (count + sections.countP (·.holdsInstructions)) ∧
      ∀ a, a % 4 = 0 → sections.any (·.codeAt loadBias a) = true →
        ∃ w, n.image.host.loadWord a = some w ∧ patchable w = false) ∨
    (result = .error (some .e2big) ∧ n.image.patches.length = maxPatches ∧
      ∃ a w, a % 4 = 0 ∧ sections.any (·.codeAt loadBias a) = true ∧
        n.image.host.loadWord a = some w ∧ patchable w = true)

theorem patchSectionLoop_ends {headers : List ElfProgramHeader} {loadBias fileSize count : Nat}
    {sections : List ElfSection} (ready : ∀ x ∈ sections, x.holdsInstructions = true →
      SectionReady headers loadBias fileSize m x) (few : m.image.patches.length ≤ maxPatches) :
    ∃ result n, patchSectionLoop headers loadBias fileSize sections count m = some (result, n) ∧
      SectionsEnd loadBias count sections m result n := by
  induction sections generalizing count m with
  | nil =>
    exact ⟨_, m, rfl, .refl _, few, .inl ⟨rfl, fun a _ none => by simp at none⟩⟩
  | cons x rest ih =>
    unfold patchSectionLoop
    have later : ∀ y ∈ rest, y.holdsInstructions = true → SectionReady headers loadBias fileSize m y :=
      fun y member => ready y (List.mem_cons_of_mem x member)
    cases code : x.holdsInstructions with
    | false =>
      obtain ⟨result, n, done, scan, records, ends⟩ : ∃ result n, patchSectionLoop headers loadBias
          fileSize rest count m = some (result, n) ∧ SectionsEnd loadBias count rest m result n :=
        ih later few
      have same (a : Nat) :
          (x :: rest).any (·.codeAt loadBias a) = rest.any (·.codeAt loadBias a) := by
        rw [List.any_cons, ElfSection.codeAt, code, Bool.false_and, Bool.false_and, Bool.false_or]
      rw [Bool.not_false, if_pos rfl]
      refine ⟨result, n, done, ?_, records, ?_⟩
      · simpa only [same] using scan
      · simpa only [same, List.countP_cons, code, Bool.false_eq_true, ↓reduceIte, Nat.add_zero]
          using ends
    | true =>
      obtain ⟨accepted, aligned, whole, executable, fits, writable⟩ :=
        ready x List.mem_cons_self code
      rw [Bool.not_true, if_neg (by decide), accepted, Bool.not_true, if_neg (by decide), if_neg]
      swap
      · simp only [executable, Bool.not_true, Bool.false_eq_true, or_false]
        omega
      obtain ⟨error, image, patched, records, result⟩ :=
        armPatchRange_ends aligned whole fits writable few
      have here (a : Nat) : x.codeAt loadBias a = true ↔
          loadBias + x.shAddr ≤ a ∧ a < loadBias + x.shAddr + x.shSize := by
        simp [ElfSection.codeAt, code]
      have scanned := armPatchRange_patched patched
      have first : Patched (fun a => (x :: rest).any (·.codeAt loadBias a)) m.image image :=
        scanned.mono fun a range => by rw [List.any_cons, (here a).mpr range, Bool.true_or]
      rw [patched]
      obtain rfl | ⟨rfl, full, a, w, low, high, even, loaded, patch⟩ := result
      · have next : ∀ y ∈ rest, y.holdsInstructions = true →
            SectionReady headers loadBias fileSize { m with image } y := by
          intro y member holds
          obtain ⟨accepted, aligned, whole, executable, fits, writable⟩ := later y member holds
          exact ⟨accepted, aligned, whole, executable, fits,
            fun a low high => scanned.writable a ▸ writable a low high⟩
        obtain ⟨result, n, done, scan, length, ends⟩ : ∃ result n, patchSectionLoop headers loadBias
            fileSize rest (count + 1) { m with image } = some (result, n) ∧
              SectionsEnd loadBias (count + 1) rest { m with image } result n :=
          ih next records
        have more : Patched (fun a => (x :: rest).any (·.codeAt loadBias a)) image n.image :=
          scan.mono fun a known => by
            rw [List.any_cons]
            exact Bool.or_eq_true_iff.mpr (.inr known)
        have total : count + (x :: rest).countP (·.holdsInstructions) =
            count + 1 + rest.countP (·.holdsInstructions) := by
          simp only [List.countP_cons, code, ↓reduceIte]
          omega
        refine ⟨result, n, done, first.trans more, length, ?_⟩
        rw [total]
        refine ends.imp (And.imp_right fun plain => ?_) (And.imp_right (And.imp_right ?_))
        · intro a even known
          rw [List.any_cons, Bool.or_eq_true] at known
          obtain inside | other := known
          · obtain ⟨low, high⟩ := (here a).mp inside
            obtain ⟨w, seen, plain⟩ := armPatchRange_complete patched low high even
            exact scan.plain even seen plain
          · exact plain a even other
        · rintro ⟨a, w, even, known, found⟩
          refine ⟨a, w, even, ?_, found⟩
          rw [List.any_cons]
          exact Bool.or_eq_true_iff.mpr (.inr known)
      · refine ⟨_, { m with image }, rfl, first, records, .inr ⟨rfl, full, a, w, even, ?_, loaded,
          patch⟩⟩
        rw [List.any_cons, (here a).mpr ⟨low, high⟩, Bool.true_or]

/-! ## The instructions of a file -/

/-- The words of a section, at the addresses of the file. -/
def ElfSection.words (x : ElfSection) : List Nat :=
  (List.range (x.shSize / 4)).map fun k => x.shAddr + 4 * k

/-- The instructions that are replaced, each once. -/
def ObjectFile.traps (o : ObjectFile) : List Nat :=
  ((o.sections.filter (·.holdsInstructions)).flatMap ElfSection.words).dedup.filter (o.replaced 0)

/-- Every section with instructions passes the checks, lies in a segment that is loaded, and
is made of words. -/
structure ObjectFile.ValidSections (o : ObjectFile) (fileSize : Nat) : Prop where
  each : ∀ x ∈ o.sections, x.holdsInstructions = true →
    acceptableSection x (o.headers.filter (·.loads)) 0 fileSize = true ∧
      x.shAddr % 4 = 0 ∧ x.shSize % 4 = 0
  code : ∃ x ∈ o.sections, x.holdsInstructions = true

instance (o : ObjectFile) (fileSize : Nat) : Decidable (o.ValidSections fileSize) :=
  decidable_of_iff
    ((∀ x ∈ o.sections, x.holdsInstructions = true →
      acceptableSection x (o.headers.filter (·.loads)) 0 fileSize = true ∧
        x.shAddr % 4 = 0 ∧ x.shSize % 4 = 0) ∧ ∃ x ∈ o.sections, x.holdsInstructions = true)
    ⟨fun ⟨each, code⟩ => ⟨each, code⟩, fun valid => ⟨valid.each, valid.code⟩⟩

section
variable {o : ObjectFile} {fileSize loadBias : Nat}

theorem mem_traps (valid : o.ValidSections fileSize) (replaced : o.replaced 0 v = true) :
    v ∈ o.traps := by
  have known := replaced
  simp only [ObjectFile.replaced, ObjectFile.code, ElfSection.codeAt, Bool.and_eq_true,
    decide_eq_true_iff, List.any_eq_true, Nat.zero_add] at known
  obtain ⟨⟨aligned, x, member, ⟨holds, low⟩, high⟩, -⟩ := known
  obtain ⟨-, start, whole⟩ := valid.each x member holds
  refine List.mem_filter.mpr ⟨List.mem_dedup.mpr ?_, replaced⟩
  refine List.mem_flatMap.mpr ⟨x, List.mem_filter.mpr ⟨member, holds⟩, ?_⟩
  exact List.mem_map.mpr ⟨(v - x.shAddr) / 4, List.mem_range.mpr (by omega), by omega⟩

theorem replaced_of_mem_traps (member : v ∈ o.traps) : o.replaced 0 v = true :=
  (List.mem_filter.mp member).2

theorem traps_nodup : o.traps.Nodup := (List.nodup_dedup _).filter _

/-- The segment that a section lies in. -/
theorem ObjectFile.ValidSections.segment (valid : o.ValidSections fileSize)
    (member : x ∈ o.sections) (holds : x.holdsInstructions = true) :
    ∃ y ∈ o.headers.filter (·.loads), y.pFlags &&& 1 ≠ 0 ∧ y.pVaddr ≤ x.shAddr ∧
      x.shAddr + x.shSize ≤ y.pVaddr + y.pFilesz := by
  obtain ⟨accepted, -, -⟩ := valid.each x member holds
  simp only [acceptableSection, sectionInExecutableLoad, Bool.and_eq_true, List.any_eq_true,
    decide_eq_true_iff] at accepted
  obtain ⟨⟨-, y, known, ⟨⟨⟨⟨⟨-, flags⟩, low⟩, -⟩, offset⟩, inside⟩, size⟩, -⟩ := accepted
  exact ⟨y, known, flags, low, by omega⟩

/-- Mapped segments make its sections ready. -/
theorem Laid.ready {file : Nat → UInt8} {start : Machine} (valid : o.ValidSections fileSize)
    (h : Laid file loadBias start (o.headers.filter (·.loads)) m) (base : loadBias % 4 = 0)
    (usable : start.space.Usable loadBias (o.headers.filter (·.loads))) (member : x ∈ o.sections)
    (holds : x.holdsInstructions = true) :
    SectionReady o.headers loadBias fileSize m x ∧
      ∃ y ∈ o.headers.filter (·.loads), ∀ a, loadBias + x.shAddr ≤ a →
        a < loadBias + x.shAddr + x.shSize → y.Spans start.pageBytes loadBias a := by
  obtain ⟨accepted, start4, whole⟩ := valid.each x member holds
  obtain ⟨y, known, flags, low, high⟩ := valid.segment member holds
  have below := h.below y known
  have above := h.above y known
  have sizes := h.sizes y known
  have stop : loadBias + y.pVaddr + y.pMemsz ≤ 0x70000000 := (usable.inside y known).1
  have spans (a : Nat) (first : loadBias + x.shAddr ≤ a)
      (last : a < loadBias + x.shAddr + x.shSize) : y.Spans start.pageBytes loadBias a :=
    ⟨by omega, by omega⟩
  have fits : loadBias + x.shAddr + x.shSize ≤ uintptrMax := by
    unfold uintptrMax
    omega
  refine ⟨⟨?_, by omega, whole, ?_, fits, ?_⟩, y, known, spans⟩
  · simp only [acceptableSection, sectionInExecutableLoad, Bool.and_eq_true, List.any_eq_true,
      decide_eq_true_iff] at accepted ⊢
    obtain ⟨⟨first, z, there, lies⟩, -⟩ := accepted
    exact ⟨⟨first, z, List.mem_of_mem_filter there, lies⟩, by omega⟩
  · have segment : y.segment start.pageBytes loadBias ∈ m.loadSegments := by
      rw [h.segments]
      exact List.mem_append_right _ (List.mem_map_of_mem known)
    have exec : (y.segment start.pageBytes loadBias).finalProtection.exec = true :=
      decide_eq_true flags
    have first : (y.segment start.pageBytes loadBias).mapStart ≤ loadBias + x.shAddr :=
      Nat.le_trans below (by omega)
    have last : loadBias + x.shAddr + x.shSize ≤ (y.segment start.pageBytes loadBias).mapStart +
        (y.segment start.pageBytes loadBias).mapLength := by
      show _ ≤ y.mapStart start.pageBytes loadBias +
        (y.mapEnd start.pageBytes loadBias - y.mapStart start.pageBytes loadBias)
      omega
    simp only [Machine.guestMemoryIsExecutable, Bool.and_eq_true, Bool.or_eq_true,
      Bool.not_eq_true', decide_eq_false_iff_not, List.any_eq_true, decide_eq_true_iff]
    exact ⟨by omega, .inl ⟨_, segment, ⟨exec, first⟩, last⟩⟩
  · intro a first last
    rw [Host.access, h.new y known a (spans a first last)]
    rfl

end

/-! ## Counting -/

section
variable {o : ObjectFile} {fileSize loadBias count : Nat} {start m n : Machine}
  {result : Except (Option Errno) Nat}

/-- An address of code at this base is one of the file. -/
theorem replaced_base (base : loadBias % 4 = 0) (replaced : o.replaced loadBias a = true) :
    loadBias ≤ a ∧ o.replaced 0 (a - loadBias) = true := by
  have known := replaced
  simp only [ObjectFile.replaced, ObjectFile.code, ElfSection.codeAt, Bool.and_eq_true,
    decide_eq_true_iff, List.any_eq_true] at known
  obtain ⟨⟨-, x, -, ⟨-, low⟩, -⟩, -⟩ := known
  have above : loadBias ≤ a := by omega
  refine ⟨above, ?_⟩
  rw [← replaced_shift o base, Nat.add_sub_cancel' above]
  exact replaced

variable (valid : o.ValidSections fileSize) (base : loadBias % 4 = 0)
  (h : Laid o.file loadBias start (o.headers.filter (·.loads)) m)
  (usable : start.space.Usable loadBias (o.headers.filter (·.loads)))
include valid base h usable

theorem Laid.code_spans (code : o.sections.any (·.codeAt loadBias a) = true) :
    ∃ y ∈ o.headers.filter (·.loads), y.Spans start.pageBytes loadBias a := by
  obtain ⟨x, member, here⟩ := List.any_eq_true.mp code
  simp only [ElfSection.codeAt, Bool.and_eq_true, decide_eq_true_iff] at here
  obtain ⟨y, known, spans⟩ := (h.ready valid base usable member here.1.1).2
  exact ⟨y, known, spans a here.1.2 here.2⟩

/-- A word of code is replaced if it is an instruction to patch. -/
theorem Laid.replaced {w : UInt32} (code : o.sections.any (·.codeAt loadBias a) = true)
    (aligned : a % 4 = 0) (loaded : m.image.host.loadWord a = some w) :
    o.replaced loadBias a = patchable w := by
  obtain ⟨y, known, spans⟩ := h.code_spans valid base usable code
  have seen := (peek_of_loadWord loaded).symm.trans (h.word known aligned spans)
  rw [ObjectFile.replaced, ObjectFile.code, code, decide_eq_true aligned, Option.some.inj seen]
  rfl

/-- The records that a scan of the sections has added, by the addresses of the file. -/
theorem Laid.recorded {image : Image}
    (scan : Patched (fun a => o.sections.any (·.codeAt loadBias a)) m.image image) :
    ∃ taken : List Nat, taken.Nodup ∧ (∀ v ∈ taken, v ∈ o.traps) ∧
      image.patches.length = start.image.patches.length + taken.length ∧
      (∀ v ∈ taken, image.host.loadWord (loadBias + v) = some armUdfTrap) ∧
      ∀ v, o.sections.any (·.codeAt loadBias (loadBias + v)) = true → (loadBias + v) % 4 = 0 →
        v ∉ taken → image.host.loadWord (loadBias + v) = m.image.host.loadWord (loadBias + v) := by
  have once : m.image.host.ShownOnce fun a => m.image.host.Own a := by
    intro a b place ownA ownB foundA foundB
    have same := (access_own ownA foundA).symm.trans (access_own ownB foundB)
    exact congrArg Place.index same
  have own (a : Nat) (code : o.sections.any (·.codeAt loadBias a) = true) :
      m.image.host.Own a := by
    obtain ⟨y, known, spans⟩ := h.code_spans valid base usable code
    exact h.own known spans
  obtain ⟨new, records, nodup, each, rest⟩ := scan.new own once
  have inFile (r : PatchRecord) (member : r ∈ new) :
      loadBias ≤ r.address ∧ r.address - loadBias ∈ o.traps := by
    obtain ⟨code, aligned, loaded, patch, -⟩ := each r member
    obtain ⟨above, there⟩ :=
      replaced_base base ((h.replaced valid base usable code aligned loaded).trans patch)
    exact ⟨above, mem_traps valid there⟩
  refine ⟨new.map fun r => r.address - loadBias, ?_, ?_, ?_, ?_, ?_⟩
  · refine List.Nodup.map_on ?_ nodup.of_map
    intro r member r' member' same
    have first := (inFile r member).1
    have second := (inFile r' member').1
    exact List.inj_on_of_nodup_map nodup member member' (by omega)
  · intro v member
    obtain ⟨r, known, rfl⟩ := List.mem_map.mp member
    exact (inFile r known).2
  · rw [records, List.length_append, h.patches, List.length_map]
  · intro v member
    obtain ⟨r, known, rfl⟩ := List.mem_map.mp member
    rw [Nat.add_sub_cancel' (inFile r known).1]
    exact (each r known).2.2.2.2.1
  · intro v code aligned absent
    refine (rest _ ?_).2 (own _ code) aligned
    intro member
    obtain ⟨r, known, same⟩ := List.mem_map.mp member
    exact absent (List.mem_map.mpr ⟨r, known, by omega⟩)

/-- Patching the sections of an object that has been mapped takes a record for each
instruction that is replaced. -/
theorem SectionsEnd.counted (done : SectionsEnd loadBias count o.sections m result n) :
    (result = .ok (count + o.sections.countP (·.holdsInstructions)) ∧
      start.image.patches.length + o.traps.length ≤ maxPatches) ∨
    (result = .error (some .e2big) ∧
      maxPatches < start.image.patches.length + o.traps.length) := by
  obtain ⟨scan, few, ⟨fine, plain⟩ | ⟨full, size, a, w, aligned, code, loaded, patch⟩⟩ := done
  · obtain ⟨taken, -, -, length, -, rest⟩ := h.recorded valid base usable scan
    have all : o.traps ⊆ taken := by
      intro v member
      have replaced := (replaced_shift o base v).trans (replaced_of_mem_traps member)
      have parts := replaced
      simp only [ObjectFile.replaced, ObjectFile.code, Bool.and_eq_true, decide_eq_true_iff]
        at parts
      obtain ⟨⟨aligned, code⟩, -⟩ := parts
      by_contra absent
      obtain ⟨w, seen, plain⟩ := plain _ aligned code
      rw [rest v code aligned absent] at seen
      rw [h.replaced valid base usable code aligned seen, plain] at replaced
      cases replaced
    have most := (List.subperm_of_subset traps_nodup all).length_le
    exact .inl ⟨fine, by omega⟩
  · obtain ⟨taken, nodup, inside, length, traps, rest⟩ := h.recorded valid base usable scan
    obtain ⟨x, -, here⟩ := List.any_eq_true.mp code
    simp only [ElfSection.codeAt, Bool.and_eq_true, decide_eq_true_iff] at here
    obtain ⟨v, rfl⟩ := Nat.exists_eq_add_of_le (show loadBias ≤ a by omega)
    have absent : v ∉ taken := by
      intro member
      rw [traps v member, Option.some.injEq] at loaded
      rw [← loaded, patchable_udf] at patch
      cases patch
    rw [rest v code aligned absent] at loaded
    have replaced := (h.replaced valid base usable code aligned loaded).trans patch
    rw [replaced_shift o base] at replaced
    have more : v :: taken ⊆ o.traps :=
      List.cons_subset.mpr ⟨mem_traps valid replaced, inside⟩
    have least := (List.subperm_of_subset (List.nodup_cons.mpr ⟨absent, nodup⟩) more).length_le
    rw [List.length_cons] at least
    exact .inr ⟨full, by omega⟩

/-- So the sections of an object can be patched exactly if the table has room for that. -/
theorem patchExecutableSections_outcome {descriptor : Int} {inode : Nat} {e : AttemptHost}
    {header : List UInt8} (opened : m.image.host.inode descriptor = some inode)
    (content : ∀ k, m.image.host.bytes ⟨some inode, k⟩ = o.file k)
    (sections : o.sections = (List.range (u16 header 48)).map
      (elfSectionAt (filePart o.file (u32 header 32) (u16 header 48 * 40))))
    (table : u16 header 46 = 40 ∧ u32 header 32 + u16 header 48 * 40 ≤ fileSize)
    (malloc : e.malloc = true)
    (read : ∃ bytes, m.image.host.readExactAt descriptor (u16 header 48 * 40) (u32 header 32)
      e.table = some (.ok bytes))
    (few : start.image.patches.length ≤ maxPatches) :
    ∃ result n, patchExecutableSections descriptor header o.headers loadBias fileSize e m =
        some (result, n) ∧
      ((result = .ok () ∧ start.image.patches.length + o.traps.length ≤ maxPatches) ∨
        (result = .error (some .e2big) ∧
          maxPatches < start.image.patches.length + o.traps.length)) := by
  obtain ⟨bytes, read⟩ := read
  have same : bytes = filePart o.file (u32 header 32) (u16 header 48 * 40) := by
    rw [readExactAt_slice opened read]
    simp only [Host.slice, filePart, content]
  obtain ⟨x, member, holds⟩ := valid.code
  have entries : u16 header 48 ≠ 0 := by
    intro none
    rw [sections, none] at member
    cases member
  obtain ⟨result, n, looped, ends⟩ : ∃ result n, patchSectionLoop o.headers loadBias fileSize
      o.sections 0 m = some (result, n) ∧ SectionsEnd loadBias 0 o.sections m result n :=
    patchSectionLoop_ends (fun y known code => (h.ready valid base usable known code).1)
      (h.patches ▸ few)
  have positive : 0 < o.sections.countP (·.holdsInstructions) :=
    List.countP_pos_iff.mpr ⟨x, member, holds⟩
  unfold patchExecutableSections
  dsimp only
  rw [if_neg (by omega), if_neg (by omega), malloc, Bool.not_true, if_neg (by decide), read]
  dsimp only
  rw [same, ← sections, looped]
  obtain ⟨rfl, room⟩ | ⟨rfl, full⟩ := ends.counted valid base h usable
  · dsimp only
    rw [if_neg (by omega)]
    exact ⟨_, n, rfl, .inl ⟨rfl, room⟩⟩
  · exact ⟨_, n, rfl, .inr ⟨rfl, full⟩⟩

end

end Linuxemu.Guest
