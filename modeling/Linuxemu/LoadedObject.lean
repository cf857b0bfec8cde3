import Linuxemu.ElfImage
import Linuxemu.FileMapping

/-! A successful load: whatever attempts failed before, the last one leaves the image of the
object in memory. -/
namespace Linuxemu.Guest
open Lib Registry
variable {e : AttemptHost} {allowExecutable : Bool} {object : Nat → Prop} {capacity : Option Nat}
  {error : Option Errno} {file : Nat → UInt8} {dynamicBias inode : Nat} {m n : Machine}

/-! ## Attempts -/

section
variable {descriptor : Int} {header : List UInt8} {headers : List ElfProgramHeader}
  {loadBias fileSize : Nat} {start m n : Machine}

theorem mapSegments_attempt {answer : Nat → SegmentHost} {i : Nat} (before : Attempt start m)
    (done : mapSegments descriptor loadBias fileSize answer i headers m = some (error, n)) :
    Attempt start n := by
  induction headers generalizing i m with
  | nil =>
    cases done
    exact before
  | cons x rest ih =>
    unfold mapSegments at done
    split at done
    · split at done
      · rename_i mapped
        exact ih (before.segment mapped) done
      · exact before.segment done
    · exact ih before done

theorem patchSectionLoop_attempt {sections : List ElfSection} {count : Nat}
    {result : Except (Option Errno) Nat} (before : Attempt start m)
    (done : patchSectionLoop headers loadBias fileSize sections count m = some (result, n)) :
    Attempt start n := by
  induction sections generalizing count m with
  | nil =>
    cases done
    exact before
  | cons x rest ih =>
    unfold patchSectionLoop at done
    split at done
    · exact ih before done
    split at done
    · cases done
      exact before
    split at done
    · cases done
      exact before
    rename_i checks
    simp only [not_or, Bool.not_eq_true', Bool.not_eq_false] at checks
    obtain ⟨-, -, executable⟩ := checks
    split at done
    · cases done
    · rename_i patched
      cases done
      exact before.code executable patched
    · rename_i patched
      exact ih (before.code executable patched) done

theorem patchExecutableSections_attempt {result : Except (Option Errno) Unit}
    (before : Attempt start m)
    (done : patchExecutableSections descriptor header headers loadBias fileSize e m =
      some (result, n)) : Attempt start n := by
  unfold patchExecutableSections at done
  dsimp only at done
  split at done
  · cases done
    exact before
  split at done
  · cases done
    exact before
  split at done
  · cases done
    exact before
  split at done
  · cases done
  · cases done
    exact before
  split at done
  · cases done
  · rename_i looped
    cases done
    exact patchSectionLoop_attempt before looped
  · rename_i looped
    split at done
    · cases done
      exact patchSectionLoop_attempt before looped
    · cases done
      exact patchSectionLoop_attempt before looped

theorem loadAttempt_attempt
    (done : loadAttempt descriptor header headers fileSize loadBias e start = some (error, n)) :
    Attempt start n := by
  unfold loadAttempt at done
  split at done
  · cases done
  · rename_i mapped
    cases done
    exact mapSegments_attempt .start mapped
  · rename_i mapped
    have before := mapSegments_attempt .start mapped
    split at done
    · cases done
      exact before
    split at done
    · cases done
    · rename_i patched
      cases done
      exact patchExecutableSections_attempt before patched
    · rename_i patched
      split at done
      · cases done
        exact patchExecutableSections_attempt before patched
      · cases done
        exact patchExecutableSections_attempt before patched

/-- The section table is read from the same file. -/
theorem patchExecutableSections_shown {word : Nat → UInt32}
    (opened : m.image.host.inode descriptor = some inode)
    (content : ∀ k, m.image.host.bytes ⟨some inode, k⟩ = file k)
    (first : header = filePart file 0 52) (ok : m.LoadOk)
    (h : Shown word object (fun _ => false) m.image)
    (done : patchExecutableSections descriptor header headers loadBias fileSize e m =
      some (.ok (), n)) :
    Shown word object
      (fun a => (objectFile file).sections.any (·.codeAt loadBias a)) n.image := by
  unfold patchExecutableSections at done
  dsimp only at done
  split at done
  · cases done
  split at done
  · cases done
  split at done
  · cases done
  split at done
  · cases done
  · cases done
  rename_i table read
  have same : table = filePart file (u32 header 32) (u16 header 48 * 40) := by
    rw [readExactAt_slice opened read]
    simp only [Host.slice, filePart, content]
  split at done
  · cases done
  · cases done
  · rename_i looped
    split at done
    · cases done
    · cases done
      have shown := patchSectionLoop_shown ok h looped
      simp only [Bool.false_or] at shown
      rw [same, first] at shown
      exact shown

/-- What an attempt leaves that succeeds. -/
theorem loadAttempt_shown (ok : start.LoadOk)
    (opened : start.image.host.inode descriptor = some inode)
    (content : ∀ k, start.image.host.bytes ⟨some inode, k⟩ = file k)
    (first : header = filePart file 0 52) (table : headers = (objectFile file).headers)
    (done : loadAttempt descriptor header headers fileSize loadBias e start = some (none, n)) :
    ∃ mapped, Placed file loadBias start ((objectFile file).headers.filter (·.loads)) mapped ∧
      Shown ((objectFile file).word loadBias)
        ((objectFile file).Holds start.pageBytes loadBias)
        (fun a => (objectFile file).sections.any (·.codeAt loadBias a)) n.image := by
  unfold loadAttempt at done
  split at done
  · cases done
  · cases done
  rename_i mapped segments
  split at done
  · cases done
  split at done
  · cases done
  · cases done
  rename_i patched
  split at done
  · cases done
  cases done
  have placed := mapSegments_placed opened (funext content).symm (.nothing ok) segments
  rw [List.nil_append, table] at placed
  have before : Shown ((objectFile file).word loadBias)
      ((objectFile file).Holds start.pageBytes loadBias) (fun _ => false) mapped.image := by
    constructor
    · rintro a ⟨x, member, loads, spans⟩
      exact placed.own (List.mem_filter.mpr ⟨member, loads⟩) spans
    · rintro a aligned ⟨x, member, loads, spans⟩
      exact placed.word (o := objectFile file) (List.mem_filter.mpr ⟨member, loads⟩) aligned spans
    · rintro a - ⟨x, member, loads, spans⟩
      exact placed.unrecorded ok (List.mem_filter.mpr ⟨member, loads⟩) spans
  refine ⟨mapped, placed, ?_⟩
  exact patchExecutableSections_shown (placed.files.inode ▸ opened)
    (fun k => (placed.files.bytes inode k).trans (content k)) first placed.ok before patched

theorem loadAttempts_some {tries : List (Nat × AttemptHost)} (ok : m.LoadOk)
    (done : loadAttempts descriptor header headers fileSize tries m = some (.ok loadBias, n)) :
    ∃ start e, start.LoadOk ∧ FilesKept m.image.host start.image.host ∧ (loadBias, e) ∈ tries ∧
      loadAttempt descriptor header headers fileSize loadBias e start = some (none, n) := by
  induction tries generalizing m with
  | nil => cases done
  | cons x rest ih =>
    obtain ⟨bias, e⟩ := x
    unfold loadAttempts at done
    split at done
    · cases done
    · rename_i loaded
      cases done
      exact ⟨m, e, ok, .refl _, List.mem_cons_self, loaded⟩
    rename_i failed
    split at done
    · cases done
    rename_i image undone
    have attempt := loadAttempt_attempt failed
    obtain ⟨image', undone', -, intact⟩ := (attempt_grown (.refl m) attempt).undone
    cases undone.symm.trans undone'
    dsimp only at done
    split at done
    · cases done
    obtain ⟨start, e, good, kept, tried, loaded⟩ := ih (rollback_loadOk ok attempt undone) done
    exact ⟨start, e, good, intact.files.trans kept, List.mem_cons_of_mem _ tried, loaded⟩

end

/-- A load that got as far as its attempts. -/
structure Tried (descriptor : Int) (allowExecutable : Bool) (file : Nat → UInt8) (fileSize : Nat)
    (tries : List (Nat × AttemptHost)) (m n : Machine) (outcome : Except Errno Nat)
    (result : Except Errno (ElfObject × List UInt8)) : Prop where
  header : acceptableHeader (filePart file 0 52) allowExecutable fileSize = true
  bases : ∀ t ∈ tries, t.1 % 4 = 0
  loaded : loadAttempts descriptor (filePart file 0 52) (objectFile file).headers fileSize tries m =
    some (outcome, n)
  object : ∀ object interpreter, result = .ok (object, interpreter) →
    outcome = .ok object.loadBias ∧
      object = elfObject (filePart file 0 52) (objectFile file).headers object.loadBias

/-- The bases at which an object is tried. -/
def triedBases (dynamicBias : Nat) (header : List UInt8) : List Nat :=
  if dynamicObject header then
    if dynamicBias = interpreterBias then interpreterBiases else mainBiases
  else [0]

theorem triedBases_aligned (dynamicBias : Nat) (header : List UInt8) :
    ∀ base ∈ triedBases dynamicBias header, base % 4 = 0 := by
  unfold triedBases
  split
  · split <;> decide
  · decide

theorem tries_aligned (dynamicBias : Nat) (header : List UInt8) (attempt : Nat → AttemptHost) :
    ∀ t ∈ (triedBases dynamicBias header).zipIdx.map fun x => (x.1, attempt x.2), t.1 % 4 = 0 := by
  intro t member
  obtain ⟨x, known, rfl⟩ := List.mem_map.mp member
  exact triedBases_aligned dynamicBias header x.1 (List.fst_mem_of_mem_zipIdx known)

/-- How a load ends: before the first attempt, or with the last one. -/
theorem loadElfObject_cases {e : LoadHost} {result : Except Errno (ElfObject × List UInt8)}
    (done : loadElfObject dynamicBias allowExecutable capacity e m = some (result, n)) :
    ((∃ errno, result = .error errno) ∧ n = m) ∨
    ∃ descriptor inode, e.opened = .ok descriptor ∧
      m.image.host.inode descriptor = some inode ∧
      ∃ fileSize tries outcome, Tried descriptor allowExecutable
        (fun k => m.image.host.bytes ⟨some inode, k⟩) fileSize tries m n outcome result := by
  unfold loadElfObject at done
  split at done
  · cases done
    exact .inl ⟨⟨_, rfl⟩, rfl⟩
  rename_i descriptor opened
  split at done
  · cases done
    exact .inl ⟨⟨_, rfl⟩, rfl⟩
  rename_i fileSize measured
  obtain ⟨inode, found, -⟩ := fstat_file measured
  split at done
  · cases done
  · cases done
    exact .inl ⟨⟨_, rfl⟩, rfl⟩
  rename_i header readHeader
  dsimp only at done
  split at done
  · cases done
    exact .inl ⟨⟨_, rfl⟩, rfl⟩
  rename_i accepted
  replace accepted : acceptableHeader header allowExecutable fileSize = true := by
    simpa using accepted
  split at done
  · cases done
    exact .inl ⟨⟨_, rfl⟩, rfl⟩
  split at done
  · cases done
    exact .inl ⟨⟨_, rfl⟩, rfl⟩
  split at done
  · cases done
  · cases done
    exact .inl ⟨⟨_, rfl⟩, rfl⟩
  rename_i table readTable
  split at done
  · cases done
    exact .inl ⟨⟨_, rfl⟩, rfl⟩
  split at done
  · cases done
    exact .inl ⟨⟨_, rfl⟩, rfl⟩
  split at done
  · cases done
  · cases done
    exact .inl ⟨⟨_, rfl⟩, rfl⟩
  rw [readExactAt_slice found readTable, readExactAt_slice found readHeader] at done
  rw [readExactAt_slice found readHeader] at accepted
  split at done
  · cases done
  · rename_i failed
    cases done
    refine .inr ⟨descriptor, inode, opened, found, fileSize, _, _, accepted,
      tries_aligned dynamicBias _ e.attempt, failed, ?_⟩
    rintro object interpreter ⟨⟩
  · rename_i loadBias loaded
    cases done
    refine .inr ⟨descriptor, inode, opened, found, fileSize, _, _, accepted,
      tries_aligned dynamicBias _ e.attempt, loaded, ?_⟩
    rintro object interpreter ⟨⟩
    exact ⟨rfl, rfl⟩

/-- The words of an object and its records, by address instead of by word. -/
theorem Shown.image {o : ObjectFile} {loadBias : Nat} {s : Image}
    (h : Shown (o.word loadBias) object (fun a => o.sections.any (·.codeAt loadBias a)) s)
    (records : ∀ r ∈ s.patches, r.address % 4 = 0) (down : ∀ q, object q → object (q / 4 * 4))
    {q : Nat} (inside : object q) :
    s.host.peekByte q = some (if o.replaced loadBias (q / 4 * 4) then byteOf armUdfTrap (q % 4)
        else o.byte loadBias q) ∧
      armPatchOriginal s.patches q =
        if o.replaced loadBias q then some (o.word loadBias q) else none := by
  have code (a : Nat) (aligned : a % 4 = 0) : o.replaced loadBias a =
      (o.sections.any (·.codeAt loadBias a) && patchable (o.word loadBias a)) := by
    simp [ObjectFile.replaced, ObjectFile.code, aligned]
  constructor
  · have aligned : q / 4 * 4 % 4 = 0 := Nat.mul_mod_left _ _
    have seen := h.memory _ aligned (down q inside)
    rw [peek_own (h.own _ (down q inside)), ← code _ aligned] at seen
    have whole := Option.some.inj seen
    have place : q = q / 4 * 4 + q % 4 := by omega
    have byte := byteOf_wordOf (fun k => s.host.bytes ⟨none, q / 4 * 4 + k⟩)
      (Nat.mod_lt q (show 0 < 4 by decide))
    have rule := byteOf_wordOf (fun k => o.byte loadBias (q / 4 * 4 + k))
      (Nat.mod_lt q (show 0 < 4 by decide))
    rw [← place] at byte rule
    rw [Host.peekByte, access_any_own (h.own q inside), Option.map_some, ← byte]
    congr 1
    refine (congrArg (byteOf · (q % 4)) whole).trans ?_
    split
    · rfl
    · exact rule
  · by_cases aligned : q % 4 = 0
    · rw [h.table q aligned inside, code q aligned]
    · have unaligned : o.replaced loadBias q = false := by
        simp [ObjectFile.replaced, ObjectFile.code, aligned]
      rw [unaligned, armPatchOriginal, Option.map_eq_none_iff.mpr]
      · rfl
      · apply List.find?_eq_none.mpr
        intro r recorded same
        have here : r.address = q := by simpa using same
        exact aligned (here ▸ records r recorded)

/-- The object of this file is in memory: its segments as the file has them, with traps for the
words that are recorded. -/
structure ObjectImage (file : Nat → UInt8) (page : Nat) (object : ElfObject) (s : Image) : Prop where
  headers : u16 (filePart file 0 52) 44 ≠ 0
  base : object.loadBias % 4 = 0
  built : object = elfObject (filePart file 0 52) (objectFile file).headers object.loadBias
  fits : ∀ x ∈ (objectFile file).headers, x.loads = true →
    object.loadBias + x.pVaddr + x.pMemsz < 2 ^ 32 ∧ x.pFilesz ≤ x.pMemsz
  rule : ∀ x ∈ (objectFile file).headers, x.loads = true → ∀ i, i < x.pMemsz →
    (objectFile file).Holds page object.loadBias (object.loadBias + x.pVaddr + i) ∧
    (objectFile file).byte object.loadBias (object.loadBias + x.pVaddr + i) =
      if i < x.pFilesz then file (x.pOffset + i) else 0
  image : ∀ q, (objectFile file).Holds page object.loadBias q →
    s.host.peekByte q = some (if (objectFile file).replaced object.loadBias (q / 4 * 4) then
      byteOf armUdfTrap (q % 4) else (objectFile file).byte object.loadBias q) ∧
    armPatchOriginal s.patches q = if (objectFile file).replaced object.loadBias q then
      some ((objectFile file).word object.loadBias q) else none

/-- A load that succeeds leaves the image of its object. -/
theorem loadElfObject_image {e : LoadHost} {object : ElfObject} {interpreter : List UInt8}
    (loading : Loading m) (done : loadElfObject dynamicBias allowExecutable capacity e m =
      some (.ok (object, interpreter), n)) :
    ∃ descriptor inode, e.opened = .ok descriptor ∧
      m.image.host.inode descriptor = some inode ∧
      ObjectImage (fun k => m.image.host.bytes ⟨some inode, k⟩) m.pageBytes object n.image := by
  obtain ⟨⟨errno, wrong⟩, -⟩ | ⟨descriptor, inode, opened, found, fileSize, tries, outcome, tried⟩ :=
    loadElfObject_cases done
  · cases wrong
  refine ⟨descriptor, inode, opened, found, ?_⟩
  obtain ⟨rfl, built⟩ := tried.object _ _ rfl
  obtain ⟨start, attempt, ok, kept, base, succeeded⟩ :=
    loadAttempts_some (loading_loadOk loading) tried.loaded
  obtain ⟨mapped, placed, shown⟩ := loadAttempt_shown ok (kept.inode ▸ found)
    (fun k => kept.bytes inode k) rfl rfl succeeded
  have page : start.pageBytes = m.pageBytes := congrArg PageSize.bytes kept.pageSize
  rw [page] at shown
  have accepted := tried.header
  simp only [acceptableHeader, Bool.and_eq_true, decide_eq_true_iff] at accepted
  refine ⟨accepted.1.1.1.2, tried.bases _ base, built, ?_, ?_, ?_⟩
  · intro x member loads
    have known := List.mem_filter.mpr ⟨member, loads⟩
    exact ⟨Nat.lt_of_le_of_lt (placed.above x known) (alignUp_lt start.image.host _),
      placed.sizes x known⟩
  · intro x member loads i small
    obtain ⟨spans, rule⟩ :=
      placed.rule (o := objectFile _) (List.mem_filter.mpr ⟨member, loads⟩) small
    exact ⟨⟨x, member, loads, page ▸ spans⟩, rule⟩
  · intro q inside
    have after := attempt_loadOk ok (loadAttempt_attempt succeeded)
    refine shown.image after.sound.aligned ?_ inside
    rintro q ⟨x, member, loads, spans⟩
    rw [← page] at spans ⊢
    exact ⟨x, member, loads, placed.down (List.mem_filter.mpr ⟨member, loads⟩) spans⟩

/-- **A loaded object is in memory as its file says.** Every byte of its segments is that of
the file, or zero behind the file's part, except for the words of its code sections that the
emulator has to see: those are traps, and for them alone the table has the instruction. -/
theorem loaded_object_image {dynamicBias : Nat} {allowExecutable : Bool} {capacity : Option Nat}
    {e : LoadHost} {m n : Machine} {object : ElfObject} {interpreter : List UInt8}
    (loading : Loading m)
    (done : loadElfObject dynamicBias allowExecutable capacity e m =
      some (.ok (object, interpreter), n)) :
    ∃ descriptor inode, e.opened = .ok descriptor ∧
      m.image.host.inode descriptor = some inode ∧
      let file := fun k => m.image.host.bytes ⟨some inode, k⟩
      let o := objectFile file
      let b := object.loadBias
      (∀ x ∈ o.headers, x.loads = true → ∀ i, i < x.pMemsz →
        o.Holds m.pageBytes b (b + x.pVaddr + i) ∧
        o.byte b (b + x.pVaddr + i) = if i < x.pFilesz then file (x.pOffset + i) else 0) ∧
      ∀ q, o.Holds m.pageBytes b q →
        n.image.host.peekByte q = some (if o.replaced b (q / 4 * 4) then byteOf armUdfTrap (q % 4)
          else o.byte b q) ∧
        armPatchOriginal n.image.patches q = if o.replaced b q then some (o.word b q) else none := by
  obtain ⟨descriptor, inode, opened, found, shown⟩ := loadElfObject_image loading done
  exact ⟨descriptor, inode, opened, found, shown.rule, shown.image⟩

/-- The host of `bareMachine` answers at once, with short reads. -/
def smallAnswers : LoadHost where
  opened := .ok 3
  stat := none
  header := [.upto 20, .failed .eintr, .upto 52]
  malloc := true
  headers := [.upto 32]
  interpreter := []
  attempt := fun _ => ⟨fun _ => ⟨.ok 0x10000, [.upto 80, .upto 80]⟩, true, [.upto 40], .enoexec⟩

def smallLoad : Option (Except Errno (ElfObject × List UInt8) × Machine) :=
  loadElfObject mainEtDynBias true (some 1024) smallAnswers bareMachine

theorem loaded_object_image_small :
    smallLoad.map (·.1) = some (.ok (⟨0x10054, 0, 0x10034, 32, 1, 0x10058⟩, [])) ∧
      ∃ n, smallLoad = some (.ok (⟨0x10054, 0, 0x10034, 32, 1, 0x10058⟩, []), n) ∧
        n.image.host.peekByte 0x10054 = some 0xf0 ∧
        armPatchOriginal n.image.patches 0x10054 = some 0xef000000 ∧
        armPatchOriginal n.image.patches 0x10050 = none := by
  have result : smallLoad.map (·.1) =
      some (.ok (⟨0x10054, 0, 0x10034, 32, 1, 0x10058⟩, [])) := by decide +kernel
  refine ⟨result, ?_⟩
  have loading : Loading bareMachine := .start rfl rfl rfl fun _ => rfl
  obtain ⟨⟨outcome, n⟩, done, same⟩ := Option.map_eq_some_iff.mp result
  obtain rfl : outcome = .ok (⟨0x10054, 0, 0x10034, 32, 1, 0x10058⟩, []) := same
  obtain ⟨descriptor, inode, opened, found, rule, image⟩ := loaded_object_image loading done
  cases opened
  cases found
  dsimp only at rule image
  generalize known : objectFile (fun k => bareMachine.image.host.bytes ⟨some 0, k⟩) = o at rule image
  have facts : ⟨⟨0, 0x10000, 88, 88, 5⟩, 1, 4⟩ ∈ o.headers ∧ o.replaced 0 0x10054 = true ∧
      o.replaced 0 0x10050 = false ∧ o.word 0 0x10054 = 0xef000000 := by
    rw [← known]
    decide +kernel
  obtain ⟨member, trapped, plain, word⟩ := facts
  obtain ⟨byte, original⟩ := image 0x10054 (rule _ member rfl 0x54 (by decide)).1
  obtain ⟨-, other⟩ := image 0x10050 (rule _ member rfl 0x50 (by decide)).1
  rw [if_pos trapped] at byte original
  rw [if_neg (by simp [plain])] at other
  exact ⟨n, done, byte, word ▸ original, other⟩

end Linuxemu.Guest
