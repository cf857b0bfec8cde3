import Linuxemu.SectionTraps

/-! The bases at which `load_elf_object` tries a dynamic object: which of them it takes. -/
namespace Linuxemu.Guest
open Lib Registry
variable {file : Nat → UInt8} {descriptor : Int} {allowExecutable : Bool} {bases : List Nat}
  {m n : Machine} {capacity : Option Nat} {fileSize loadBias inode base : Nat}
variable {headers : List ElfProgramHeader} {e : AttemptHost} {i : Nat}

/-! ## One base -/

/-- The segments of an object. -/
def ObjectFile.parts (o : ObjectFile) : List ElfProgramHeader := o.headers.filter (·.loads)

/-- Both tables have room for the object. -/
def ObjectFile.Room (o : ObjectFile) (m : Machine) : Prop :=
  m.loadSegments.length + o.parts.length ≤ maxLoadSegments ∧
    m.image.patches.length + o.traps.length ≤ maxPatches

/-- A dynamic object with valid headers and sections, for a loader that tries these bases. -/
structure ValidObject (file : Nat → UInt8) (fileSize : Nat) (allowExecutable : Bool)
    (bases : List Nat) : Prop where
  header : acceptableHeader (filePart file 0 52) allowExecutable fileSize = true
  dynamic : dynamicObject (filePart file 0 52) = true
  table : u32 (filePart file 0 52) 28 + 32 * u16 (filePart file 0 52) 44 ≤ fileSize
  headers : ∀ x ∈ (objectFile file).headers, validateProgramHeader x fileSize = true
  interpreters : (objectFile file).headers.countP (·.namesInterpreter) ≤ 1
  sectionTable : u16 (filePart file 0 52) 46 = 40 ∧
    u32 (filePart file 0 52) 32 + u16 (filePart file 0 52) 48 * 40 ≤ fileSize
  sections : (objectFile file).ValidSections fileSize
  entry : ∀ base ∈ bases, base + u32 (filePart file 0 52) 24 ≤ uintptrMax

instance (file : Nat → UInt8) (fileSize : Nat) (allowExecutable : Bool) (bases : List Nat) :
    Decidable (ValidObject file fileSize allowExecutable bases) :=
  decidable_of_iff
    (acceptableHeader (filePart file 0 52) allowExecutable fileSize = true ∧
      dynamicObject (filePart file 0 52) = true ∧
      u32 (filePart file 0 52) 28 + 32 * u16 (filePart file 0 52) 44 ≤ fileSize ∧
      (∀ x ∈ (objectFile file).headers, validateProgramHeader x fileSize = true) ∧
      (objectFile file).headers.countP (·.namesInterpreter) ≤ 1 ∧
      (u16 (filePart file 0 52) 46 = 40 ∧
        u32 (filePart file 0 52) 32 + u16 (filePart file 0 52) 48 * 40 ≤ fileSize) ∧
      (objectFile file).ValidSections fileSize ∧
      ∀ base ∈ bases, base + u32 (filePart file 0 52) 24 ≤ uintptrMax)
    ⟨fun ⟨header, dynamic, table, headers, interpreters, sectionTable, sections, entry⟩ =>
      ⟨header, dynamic, table, headers, interpreters, sectionTable, sections, entry⟩,
      fun valid => ⟨valid.header, valid.dynamic, valid.table, valid.headers, valid.interpreters,
        valid.sectionTable, valid.sections, valid.entry⟩⟩

/-- How an obliging host answers during one attempt. -/
structure ObligingAttempt (m : Machine) (descriptor : Int) (file : Nat → UInt8) (loadBias : Nat)
    (e : AttemptHost) : Prop where
  segments : m.Obliges descriptor loadBias e.segment 0 [] (objectFile file).headers
  malloc : e.malloc = true
  table : ∃ bytes, m.image.host.readExactAt descriptor (u16 (filePart file 0 52) 48 * 40)
    (u32 (filePart file 0 52) 32) e.table = some (.ok bytes)

theorem ValidObject.part (valid : ValidObject file fileSize allowExecutable bases) :
    0 < (objectFile file).parts.length := by
  obtain ⟨x, member, holds⟩ := valid.sections.code
  obtain ⟨y, known, -⟩ := valid.sections.segment member holds
  exact List.length_pos_of_mem known

/-- An attempt succeeds exactly where the object can lie, if the tables have room; `EEXIST`
means that pages of the host are in the way. -/
theorem loadAttempt_outcome (valid : ValidObject file fileSize allowExecutable bases)
    (ok : m.LoadOk) (fit : m.TablesFit) (opened : m.image.host.inode descriptor = some inode)
    (content : file = fun k => m.image.host.bytes ⟨some inode, k⟩) (listed : loadBias ∈ bases)
    (aligned : loadBias % 4 = 0) (obliging : ObligingAttempt m descriptor file loadBias e) :
    ∃ error n, loadAttempt descriptor (filePart file 0 52) (objectFile file).headers fileSize
        loadBias e m = some (error, n) ∧
      (error = none ↔ m.space.Usable loadBias (objectFile file).parts ∧
        (objectFile file).Room m) ∧
      (error = some .eexist → m.space.Blocked loadBias [] (objectFile file).parts) ∧
      (m.space.Blocked loadBias [] (objectFile file).parts → (objectFile file).Room m →
        error = some .eexist) := by
  obtain ⟨error, n, mapped, fine, busy, blocked, laid⟩ :=
    mapSegments_outcome opened content valid.headers obliging.segments (Laid.nothing ok) .nothing
      fit.segments
  have parts : (objectFile file).headers.filter (·.loads) = (objectFile file).parts := rfl
  rw [List.nil_append, parts] at fine laid
  rw [parts] at busy blocked
  unfold loadAttempt
  rw [mapped]
  cases error with
  | some errno =>
    refine ⟨some errno, n, rfl, ?_, busy, fun way room => blocked way room.1⟩
    simp only [reduceCtorEq, false_iff, not_and] at fine ⊢
    exact fun usable room => fine usable room.1
  | none =>
    obtain ⟨usable, slots⟩ := fine.mp rfl
    have there := laid rfl
    have clear : ¬ m.space.Blocked loadBias [] (objectFile file).parts :=
      fun way => way.not_usable usable
    have more : n.loadSegments.length ≠ m.loadSegments.length := by
      have some := valid.part
      rw [there.segments, List.length_append, List.length_map]
      omega
    obtain ⟨bytes, read⟩ := obliging.table
    have table : ∃ bytes, n.image.host.readExactAt descriptor (u16 (filePart file 0 52) 48 * 40)
        (u32 (filePart file 0 52) 32) e.table = some (.ok bytes) :=
      ⟨bytes, (readExactAt_congr there.files ..).trans read⟩
    have same (k : Nat) : n.image.host.bytes ⟨some inode, k⟩ = (objectFile file).file k := by
      rw [there.files.bytes]
      exact (congrFun content k).symm
    obtain ⟨result, n', patched, ends⟩ := patchExecutableSections_outcome valid.sections aligned
      there usable (there.files.inode ▸ opened) same rfl valid.sectionTable obliging.malloc table
      fit.patches
    dsimp only
    rw [if_neg more, patched]
    obtain ⟨rfl, room⟩ | ⟨rfl, full⟩ := ends
    · have entry := valid.entry loadBias listed
      dsimp only
      rw [if_neg (by omega)]
      refine ⟨none, n', rfl, ?_, nofun, fun way _ => absurd way clear⟩
      exact iff_of_true rfl ⟨usable, slots, room⟩
    · refine ⟨some .e2big, n', rfl, ?_, nofun, fun way _ => absurd way clear⟩
      simp only [reduceCtorEq, false_iff, not_and]
      intro _ room
      have := room.2
      omega

/-! ## One base after another -/

/-- The base where the object is placed: it can lie there, the tables have room, and it is
pages of the host that are in the way at every base before. -/
def ObjectFile.Chosen (o : ObjectFile) (m : Machine) (bases : List Nat) (loadBias : Nat) : Prop :=
  ∃ before after, bases = before ++ loadBias :: after ∧ m.space.Usable loadBias o.parts ∧
    o.Room m ∧ ∀ base ∈ before, m.space.Blocked base [] o.parts

theorem chosen_cons {o : ObjectFile} : o.Chosen m (base :: bases) loadBias ↔
      (loadBias = base ∧ m.space.Usable base o.parts ∧ o.Room m) ∨
      (m.space.Blocked base [] o.parts ∧ o.Chosen m bases loadBias) := by
  constructor
  · rintro ⟨before, after, split, usable, room, blocked⟩
    cases before with
    | nil =>
      cases split
      exact .inl ⟨rfl, usable, room⟩
    | cons first rest =>
      cases split
      refine .inr ⟨blocked base List.mem_cons_self, rest, after, rfl, usable, room, ?_⟩
      exact fun c known => blocked c (List.mem_cons_of_mem _ known)
  · rintro (⟨rfl, usable, room⟩ | ⟨first, before, after, rfl, usable, room, blocked⟩)
    · exact ⟨[], bases, rfl, usable, room, nofun⟩
    · exact ⟨base :: before, after, rfl, usable, room, List.forall_mem_cons.mpr ⟨first, blocked⟩⟩

/-- A machine on which loading goes as on `m`: an attempt may have failed since. -/
structure Machine.Like (m n : Machine) : Prop where
  ok : n.LoadOk
  space : n.space = m.space
  patches : n.image.patches = m.image.patches
  files : FilesKept m.image.host n.image.host

theorem Machine.Like.undone {after : Machine} {image : Image} (like : m.Like n)
    (attempt : Attempt n after)
    (undone : armPatchRollback n.image.patches.length after.image = some image) :
    m.Like (guestMemoryRollback n.loadSegments.length { after with image }) := by
  have ok := rollback_loadOk like.ok attempt undone
  obtain ⟨image', undone', same, intact⟩ := (attempt_grown (.refl n) attempt).undone
  cases undone.symm.trans undone'
  generalize guestMemoryRollback n.loadSegments.length { after with image } = back at *
  have page : back.pageBytes = n.pageBytes := congrArg PageSize.bytes intact.files.pageSize
  refine ⟨ok, ?_, same.patches.trans like.patches, like.files.trans intact.files⟩
  rw [← like.space]
  unfold Machine.space Host.page
  rw [page, same.segments, same.pages, intact.files.pageSize]

theorem obliges_congr {answer : Nat → SegmentHost} {placed : List ElfProgramHeader}
    (like : m.Like n) (obliges : m.Obliges descriptor loadBias answer i placed headers) :
    n.Obliges descriptor loadBias answer i placed headers := by
  induction obliges with
  | done => exact .done
  | skip other _ ih => exact .skip other ih
  | part loads grants read _ ih =>
    refine .part loads ?_ ?_ ?_
    · rwa [like.space]
    · rw [like.space]
      intro fits free
      obtain ⟨bytes, same⟩ := read fits free
      exact ⟨bytes, (readExactAt_congr like.files ..).trans same⟩
    · rwa [like.space]

theorem ObligingAttempt.congr (like : m.Like n)
    (obliging : ObligingAttempt m descriptor file loadBias e) :
    ObligingAttempt n descriptor file loadBias e := by
  obtain ⟨bytes, read⟩ := obliging.table
  exact ⟨obliges_congr like obliging.segments, obliging.malloc,
    bytes, (readExactAt_congr like.files ..).trans read⟩

/-- The attempts come to an end, at the base that is chosen if there is one. -/
theorem loadAttempts_outcome {tries : List (Nat × AttemptHost)}
    (valid : ValidObject file fileSize allowExecutable bases) (fit : m.TablesFit)
    (opened : m.image.host.inode descriptor = some inode)
    (content : file = fun k => m.image.host.bytes ⟨some inode, k⟩)
    (listed : ∀ t ∈ tries, t.1 ∈ bases) (aligned : ∀ t ∈ tries, t.1 % 4 = 0)
    (obliging : ∀ t ∈ tries, ObligingAttempt m descriptor file t.1 t.2) (like : m.Like n) :
    ∃ outcome after, loadAttempts descriptor (filePart file 0 52) (objectFile file).headers
        fileSize tries n = some (outcome, after) ∧
      ∀ loadBias, outcome = .ok loadBias ↔
        (objectFile file).Chosen m (tries.map Prod.fst) loadBias := by
  induction tries generalizing n with
  | nil =>
    refine ⟨_, n, rfl, fun loadBias => ?_⟩
    simp only [reduceCtorEq, false_iff]
    rintro ⟨before, after, split, -⟩
    cases before <;> cases split
  | cons t rest ih =>
    obtain ⟨base, e⟩ := t
    have segments : n.loadSegments = m.loadSegments := congrArg Space.loaded like.space
    have fits : n.TablesFit := ⟨segments ▸ fit.segments, like.patches ▸ fit.patches⟩
    have room : (objectFile file).Room n ↔ (objectFile file).Room m := by
      unfold ObjectFile.Room
      rw [segments, like.patches]
    have same : file = fun k => n.image.host.bytes ⟨some inode, k⟩ := by
      rw [content]
      exact funext fun k => (like.files.bytes inode k).symm
    obtain ⟨error, after, done, fine, busy, blocked⟩ := loadAttempt_outcome valid like.ok fits
      (like.files.inode ▸ opened) same (listed _ List.mem_cons_self)
      (aligned _ List.mem_cons_self) ((obliging _ List.mem_cons_self).congr like)
    rw [like.space, room] at fine blocked
    rw [like.space] at busy
    rw [List.map_cons]
    simp only [chosen_cons]
    unfold loadAttempts
    rw [done]
    cases error with
    | none =>
      obtain ⟨usable, enough⟩ := fine.mp rfl
      refine ⟨_, after, rfl, fun loadBias => ?_⟩
      constructor
      · intro found
        cases found
        exact .inl ⟨rfl, usable, enough⟩
      · rintro (⟨rfl, -⟩ | ⟨way, -⟩)
        · rfl
        · exact absurd usable way.not_usable
    | some errno =>
      have attempt := loadAttempt_attempt done
      obtain ⟨image, undone, -⟩ := (attempt_grown (.refl n) attempt).undone
      have next := like.undone attempt undone
      have unfit : ¬ (m.space.Usable base (objectFile file).parts ∧ (objectFile file).Room m) :=
        fun both => by cases fine.mpr both
      dsimp only
      rw [undone]
      dsimp only
      rw [valid.dynamic]
      by_cases eexist : errno = .eexist
      · subst eexist
        rw [if_neg (by simp)]
        obtain ⟨outcome, last, run, result⟩ := ih
          (fun t member => listed t (List.mem_cons_of_mem _ member))
          (fun t member => aligned t (List.mem_cons_of_mem _ member))
          (fun t member => obliging t (List.mem_cons_of_mem _ member)) next
        refine ⟨outcome, last, run, fun loadBias => (result loadBias).trans ?_⟩
        constructor
        · exact fun chosen => .inr ⟨busy rfl, chosen⟩
        · rintro (⟨-, both⟩ | ⟨-, chosen⟩)
          · exact absurd both unfit
          · exact chosen
      · rw [if_pos (by simp [eexist])]
        refine ⟨_, _, rfl, fun loadBias => ?_⟩
        simp only [reduceCtorEq, false_iff]
        rintro (⟨-, both⟩ | ⟨way, chosen⟩)
        · exact unfit both
        · obtain ⟨-, -, -, -, enough, -⟩ := chosen
          exact eexist (Option.some.inj (blocked way enough))

/-! ## The object -/

/-- How an obliging host answers during a whole load: the file opens and can be read, there is
memory, and a mapping is where it was asked to be if that is free. -/
structure ObligingHost (m : Machine) (descriptor : Int) (file : Nat → UInt8) (fileSize : Nat)
    (capacity : Option Nat) (bases : List Nat) (e : LoadHost) : Prop where
  opened : e.opened = .ok descriptor
  stat : m.image.host.fstat descriptor e.stat = .ok fileSize
  header : ∃ bytes, m.image.host.readExactAt descriptor 52 0 e.header = some (.ok bytes)
  malloc : e.malloc = true
  headers : ∃ bytes, m.image.host.readExactAt descriptor (32 * u16 (filePart file 0 52) 44)
    (u32 (filePart file 0 52) 28) e.headers = some (.ok bytes)
  interpreter : ∃ path, readInterpreter m.image.host descriptor capacity e.interpreter
    (objectFile file).headers = some (.ok path)
  attempts : ∀ t ∈ bases.zipIdx, ObligingAttempt m descriptor file t.1 (e.attempt t.2)

/-- Without a buffer no interpreter is read. -/
theorem readInterpreter_buffer {h : Host} {reads : List Pread} {path : List UInt8}
    (read : readInterpreter h descriptor capacity reads headers = some (.ok path)) :
    ¬ (headers.countP (·.namesInterpreter) ≠ 0 ∧ capacity = none) := by
  rintro ⟨named, rfl⟩
  obtain ⟨x, member, names⟩ := List.countP_pos_iff.mp (Nat.pos_of_ne_zero named)
  unfold readInterpreter at read
  split at read
  · rename_i nobody
    exact absurd names (List.find?_eq_none.mp nobody x member)
  · rw [Option.getD_none, if_pos (by omega)] at read
    cases read

/-- With an obliging host a load comes to its attempts. -/
theorem loadElfObject_attempts (dynamicBias : Nat) {e : LoadHost}
    (found : m.image.host.inode descriptor = some inode)
    (content : file = fun k => m.image.host.bytes ⟨some inode, k⟩)
    (valid : ValidObject file fileSize allowExecutable bases)
    (obliging : ObligingHost m descriptor file fileSize capacity bases e) :
    ∃ path, loadElfObject dynamicBias allowExecutable capacity e m =
      (loadAttempts descriptor (filePart file 0 52) (objectFile file).headers fileSize
        ((triedBases dynamicBias (filePart file 0 52)).zipIdx.map fun x => (x.1, e.attempt x.2))
        m).map fun (outcome, n) =>
          (outcome.map fun loadBias =>
            (elfObject (filePart file 0 52) (objectFile file).headers loadBias, path), n) := by
  obtain ⟨first, readHeader⟩ := obliging.header
  obtain ⟨second, readHeaders⟩ := obliging.headers
  obtain ⟨path, readPath⟩ := obliging.interpreter
  have whole (offset length : Nat) : m.image.host.slice inode offset length =
      filePart file offset length := by
    rw [content]
    rfl
  have header : first = filePart file 0 52 := (readExactAt_slice found readHeader).trans (whole ..)
  have table := (readExactAt_slice found readHeaders).trans (whole ..)
  have all : (objectFile file).headers.all (validateProgramHeader · fileSize) = true :=
    List.all_eq_true.mpr valid.headers
  have long := valid.table
  have few := valid.interpreters
  have buffer := readInterpreter_buffer readPath
  subst header
  refine ⟨path, ?_⟩
  unfold loadElfObject
  rw [obliging.opened]
  dsimp only
  rw [obliging.stat]
  dsimp only
  rw [readHeader]
  dsimp only
  rw [valid.header, Bool.not_true, if_neg (by decide), if_neg (by omega), obliging.malloc,
    Bool.not_true, if_neg (by decide), readHeaders]
  dsimp only
  rw [table]
  rw [show (List.range (u16 (filePart file 0 52) 44)).map (programHeaderAt
      (filePart file (u32 (filePart file 0 52) 28) (32 * u16 (filePart file 0 52) 44))) =
        (objectFile file).headers from rfl, all, Bool.not_true, if_neg (by decide),
    if_neg (not_or.mpr ⟨Nat.not_lt.mpr few, buffer⟩), readPath]
  unfold triedBases
  dsimp only
  split
  · rename_i endless
    rw [endless]
    rfl
  · rename_i failed
    rw [failed]
    rfl
  · rename_i loaded
    rw [loaded]
    rfl

/-- The attempts at the bases of a list are by number. -/
theorem tries_bases (bases : List Nat) (attempt : Nat → AttemptHost) :
    (bases.zipIdx.map fun x => (x.1, attempt x.2)).map Prod.fst = bases := by
  rw [List.map_map]
  exact List.zipIdx_map_fst 0 bases

/-- With an obliging host a load comes to an end, and a dynamic object is at the base that is
chosen for it. -/
theorem loadElfObject_chosen {dynamicBias : Nat} {e : LoadHost} (loading : Loading m)
    (found : m.image.host.inode descriptor = some inode)
    (content : file = fun k => m.image.host.bytes ⟨some inode, k⟩)
    (valid : ValidObject file fileSize allowExecutable
      (triedBases dynamicBias (filePart file 0 52)))
    (obliging : ObligingHost m descriptor file fileSize capacity
      (triedBases dynamicBias (filePart file 0 52)) e) :
    (∃ result n, loadElfObject dynamicBias allowExecutable capacity e m = some (result, n)) ∧
    ∀ loadBias, (∃ object path n, loadElfObject dynamicBias allowExecutable capacity e m =
        some (.ok (object, path), n) ∧ object.loadBias = loadBias) ↔
      (objectFile file).Chosen m (triedBases dynamicBias (filePart file 0 52)) loadBias := by
  have ok := loading_loadOk loading
  have member {t : Nat × AttemptHost}
      (known : t ∈ (triedBases dynamicBias (filePart file 0 52)).zipIdx.map
        fun x => (x.1, e.attempt x.2)) :
      t.1 ∈ triedBases dynamicBias (filePart file 0 52) ∧
        ObligingAttempt m descriptor file t.1 t.2 := by
    obtain ⟨x, listed, rfl⟩ := List.mem_map.mp known
    exact ⟨List.fst_mem_of_mem_zipIdx listed, obliging.attempts x listed⟩
  obtain ⟨outcome, n, done, chosen⟩ := loadAttempts_outcome valid (loading_tablesFit loading) found
    content (fun t known => (member known).1) (tries_aligned dynamicBias _ e.attempt)
    (fun t known => (member known).2) ⟨ok, rfl, rfl, .refl _⟩
  rw [tries_bases] at chosen
  obtain ⟨path, load⟩ := loadElfObject_attempts dynamicBias found content valid obliging
  rw [done, Option.map_some] at load
  refine ⟨⟨_, n, load⟩, fun loadBias => ?_⟩
  have result : (∃ object path n, loadElfObject dynamicBias allowExecutable capacity e m =
      some (.ok (object, path), n) ∧ object.loadBias = loadBias) ↔ outcome = .ok loadBias := by
    rw [load]
    cases outcome with
    | error errno =>
      simp only [reduceCtorEq, iff_false]
      rintro ⟨object, path, n, wrong, -⟩
      cases wrong
    | ok base =>
      constructor
      · rintro ⟨object, path, n, same, rfl⟩
        obtain ⟨given, -⟩ := Prod.mk.inj (Option.some.inj same)
        obtain ⟨there, -⟩ := Prod.mk.inj (Except.ok.inj given)
        rw [← there]
        rfl
      · intro same
        cases same
        exact ⟨_, _, _, rfl, rfl⟩
  rw [result, chosen]

/-- A dynamic object is only ever placed at the first base where it can lie, and only if the
tables have room. With room it is placed there if it is pages of the host that are in the way
at all bases before. -/
theorem first_usable_base {dynamicBias : Nat} {allowExecutable : Bool} {capacity : Option Nat}
    {e : LoadHost} {m : Machine} {descriptor : Int} {inode fileSize : Nat} {file : Nat → UInt8}
    (loading : Loading m) (found : m.image.host.inode descriptor = some inode)
    (content : file = fun k => m.image.host.bytes ⟨some inode, k⟩)
    (valid : ValidObject file fileSize allowExecutable
      (triedBases dynamicBias (filePart file 0 52)))
    (obliging : ObligingHost m descriptor file fileSize capacity
      (triedBases dynamicBias (filePart file 0 52)) e) :
    (∃ result n, loadElfObject dynamicBias allowExecutable capacity e m = some (result, n)) ∧
    ∀ loadBias,
      ((∃ object path n, loadElfObject dynamicBias allowExecutable capacity e m =
          some (.ok (object, path), n) ∧ object.loadBias = loadBias) →
        (objectFile file).Room m ∧
        ∃ before after, triedBases dynamicBias (filePart file 0 52) = before ++ loadBias :: after ∧
          m.space.Usable loadBias (objectFile file).parts ∧
          ∀ base ∈ before, ¬ m.space.Usable base (objectFile file).parts) ∧
      ((objectFile file).Room m →
        (∃ before after, triedBases dynamicBias (filePart file 0 52) = before ++ loadBias :: after ∧
          m.space.Usable loadBias (objectFile file).parts ∧
          ∀ base ∈ before, m.space.Blocked base [] (objectFile file).parts) →
        ∃ object path n, loadElfObject dynamicBias allowExecutable capacity e m =
          some (.ok (object, path), n) ∧ object.loadBias = loadBias) := by
  obtain ⟨ends, chosen⟩ := loadElfObject_chosen loading found content valid obliging
  refine ⟨ends, fun loadBias => ⟨fun placed => ?_, ?_⟩⟩
  · obtain ⟨before, after, split, usable, room, blocked⟩ := (chosen loadBias).mp placed
    exact ⟨room, before, after, split, usable, fun base known => (blocked base known).not_usable⟩
  · rintro room ⟨before, after, split, usable, blocked⟩
    exact (chosen loadBias).mpr ⟨before, after, split, usable, room, blocked⟩

/-! ## Objects of one segment -/

/-- A segment that shows the beginning of the file. -/
def wholePart (length : Nat) : ElfProgramHeader := ⟨⟨0, 0, length, length, 5⟩, 1, 4⟩

/-- With pages of 4096 bytes it takes up so many addresses. -/
def wholeSpan (length : Nat) : Nat := (length + 4095) / 4096 * 4096

/-- A dynamic object of one such segment, with its section table at `offset` and its code
from `code` on. -/
structure WholeObject (file : Nat → UInt8) (fileSize length offset code : Nat) : Prop where
  valid : ValidObject file fileSize true mainBiases
  headers : (objectFile file).headers = [wholePart length]
  sections : (objectFile file).sections = [⟨⟨1, 6, code, length - code⟩, code, 4⟩]
  table : u16 (filePart file 0 52) 44 = 1 ∧ u32 (filePart file 0 52) 28 = 52
  sectionTable : u16 (filePart file 0 52) 48 = 1 ∧ u32 (filePart file 0 52) 32 = offset
  enough : 84 ≤ fileSize ∧ offset + 40 ≤ fileSize ∧ length ≤ fileSize ∧ fileSize < 2 ^ 31
  loads : length ≠ 0
  bases : triedBases mainEtDynBias (filePart file 0 52) = mainBiases

instance (file : Nat → UInt8) (fileSize length offset code : Nat) :
    Decidable (WholeObject file fileSize length offset code) :=
  decidable_of_iff
    (ValidObject file fileSize true mainBiases ∧
      (objectFile file).headers = [wholePart length] ∧
      (objectFile file).sections = [⟨⟨1, 6, code, length - code⟩, code, 4⟩] ∧
      (u16 (filePart file 0 52) 44 = 1 ∧ u32 (filePart file 0 52) 28 = 52) ∧
      (u16 (filePart file 0 52) 48 = 1 ∧ u32 (filePart file 0 52) 32 = offset) ∧
      (84 ≤ fileSize ∧ offset + 40 ≤ fileSize ∧ length ≤ fileSize ∧ fileSize < 2 ^ 31) ∧
      length ≠ 0 ∧ triedBases mainEtDynBias (filePart file 0 52) = mainBiases)
    ⟨fun ⟨valid, headers, sections, table, sectionTable, enough, loads, bases⟩ =>
      ⟨valid, headers, sections, table, sectionTable, enough, loads, bases⟩,
      fun h => ⟨h.valid, h.headers, h.sections, h.table, h.sectionTable, h.enough, h.loads,
        h.bases⟩⟩

/-- A machine with the file open as descriptor 3. -/
def wholeMachine (file : Nat → UInt8) (fileSize : Nat) (pages : Nat → Option Page) : Machine :=
  { bareMachine with
    image.host := { bareHost with
      pages
      bytes := fun p => if p.region = some 0 then file p.index else 0
      size := fun _ => fileSize } }

/-- Every mapping is at these addresses, one for an attempt. -/
def wholeAnswers (length : Nat) (place : Nat → Nat) : LoadHost where
  opened := .ok 3
  stat := none
  header := [.upto 52]
  malloc := true
  headers := [.upto 32]
  interpreter := []
  attempt k := ⟨fun _ => ⟨.ok (place k), [.upto length]⟩, true, [.upto 40], .enoexec⟩

section
variable {m : Machine} {base length : Nat} (aligned : base % 4096 = 0) (low : base ≤ 0x60000000)
  (short : length ≤ 0x10000)
include aligned low short

theorem whole_page : (wholePart length).mapStart 4096 base = base ∧
    (wholePart length).mapEnd 4096 base = base + wholeSpan length := by
  have down := alignDown_eq bareHost (show base + (wholePart length).pVaddr < 2 ^ 32 by
    show base + 0 < 2 ^ 32
    omega)
  have up := alignUp_eq bareHost
    (show base + (wholePart length).pVaddr + (wholePart length).pMemsz ≤
        uintptrMax - (bareHost.pageSize.bytes - 1) by
      show base + 0 + length ≤ 2 ^ 32 - 1 - (4096 - 1)
      omega)
  refine ⟨down.trans ?_, up.trans ?_⟩
  · show (base + 0) / 4096 * 4096 = base
    omega
  · show (base + 0 + length + 4096 - 1) / 4096 * 4096 = base + (length + 4095) / 4096 * 4096
    omega

variable (page : m.pageBytes = 4096)
include page

theorem whole_free_iff : m.space.Free base (wholePart length) ↔
    ∀ q, base ≤ q → q < base + wholeSpan length → m.space.taken q = false := by
  obtain ⟨first, last⟩ := whole_page aligned low short
  unfold Space.Free ElfProgramHeader.Spans
  rw [show m.space.page = 4096 from page, first, last]
  simp only [and_imp]

/-- Where nothing is loaded, the segment fits. -/
theorem whole_fits (nothing : m.loadSegments = []) (high : guestMinAddress ≤ base) :
    m.space.Fits base [] (wholePart length) := by
  obtain ⟨first, last⟩ := whole_page aligned low short
  have clear : m.space.Clear base (wholePart length) := by
    unfold Space.Clear
    rw [show m.space.loaded = [] from nothing]
    nofun
  refine ⟨?_, clear, nofun⟩
  unfold Space.Inside wholeSpan at *
  rw [show m.space.page = 4096 from page, first, last]
  show base + 0 + length ≤ 0x70000000 ∧ _ ∧ _ ≤ 0x70000000
  omega

theorem whole_grants {place : Nat} (whole : place % 4096 = 0) (small : place ≤ 0x60000000)
    (free : m.space.Free place (wholePart length))
    (own : m.space.Free base (wholePart length) → place = base) :
    m.space.Grants base [] (wholePart length) (.ok place) := by
  obtain ⟨first, last⟩ := whole_page aligned low short
  have unmapped := (whole_free_iff whole small short page).mp free
  unfold Space.Grants
  rw [show m.space.page = 4096 from page, first, last, Nat.add_sub_cancel_left]
  refine ⟨place, rfl, whole, ?_, fun q below above => ⟨unmapped q below above, nofun⟩, own⟩
  unfold wholeSpan
  omega

end

section
variable {file : Nat → UInt8} {fileSize length offset code : Nat} {m : Machine}

section
variable (h : WholeObject file fileSize length offset code)
include h

theorem WholeObject.parts : (objectFile file).parts = [wholePart length] := by
  have loads : (wholePart length).loads = true := by
    show (decide (1 = 1) && decide (length ≠ 0)) = true
    simpa using h.loads
  rw [ObjectFile.parts, h.headers, List.filter_cons_of_pos loads, List.filter_nil]

theorem WholeObject.usable (fits : m.space.Fits base [] (wholePart length))
    (free : m.space.Free base (wholePart length)) :
    m.space.Usable base (objectFile file).parts := by
  rw [h.parts, ← List.nil_append [wholePart length], usable_snoc]
  exact ⟨.nothing, fits, free⟩

/-- A host that maps the object on free pages, and at the base if that is free, is an obliging
one. -/
theorem WholeObject.obliging {place : Nat → Nat} (opened : m.image.host.inode 3 = some 0)
    (size : m.image.host.size 0 = fileSize)
    (grants : ∀ t ∈ bases.zipIdx, m.space.Grants t.1 [] (wholePart length) (.ok (place t.2))) :
    ObligingHost m 3 file fileSize capacity bases (wholeAnswers length place) := by
  have enough := h.enough
  have loads := h.loads
  have read {length offset count : Nat} (inside : offset + length ≤ fileSize)
      (short : length ≤ count) :
      ∃ bytes, m.image.host.readExactAt 3 length offset [.upto count] = some (.ok bytes) :=
    readExactAt_once opened (size ▸ inside) short
  constructor
  · rfl
  · exact (fstat_ok opened (size ▸ enough.2.2.2)).trans (congrArg Except.ok size)
  · exact read (by omega) (by omega)
  · rfl
  · rw [h.table.1, h.table.2]
    exact read (by omega) (by omega)
  · rw [h.headers]
    exact ⟨[], rfl⟩
  · intro t listed
    constructor
    · rw [h.headers]
      refine .part ?_ (fun _ => grants t listed) (fun _ _ => ?_) fun _ _ => .done
      · show (decide (1 = 1) && decide (length ≠ 0)) = true
        simpa using loads
      · show ∃ bytes, m.image.host.readExactAt 3 length 0 [.upto length] = some (.ok bytes)
        exact read (by omega) (by omega)
    · rfl
    · rw [h.sectionTable.1, h.sectionTable.2]
      exact read (by omega) (by omega)

end

end

/-- The small program as a dynamic object. -/
def dynamicFile : List UInt8 := (((smallFile.set 16 3).set 26 0).set 62 0).set 102 0

def dynamicBytes (k : Nat) : UInt8 := dynamicFile.getD k 0

theorem dynamic_facts : WholeObject dynamicBytes 128 88 88 84 ∧
    (objectFile dynamicBytes).traps.length = 1 := by decide +kernel

theorem dynamic_whole : WholeObject dynamicBytes 128 88 88 84 := dynamic_facts.1

/-- The page at the first base belongs to someone else. -/
def busyPages (n : Nat) : Option Page :=
  if n = 0x20000 then some ⟨brkProtection, none, false⟩ else none

/-- The first mapping is elsewhere. -/
def busyPlaces (k : Nat) : Nat := [0x10000000, 0x30000000, 0x40000000, 0x50000000].getD k 0

def busyMachine : Machine := wholeMachine dynamicBytes 128 busyPages

theorem busy_free_iff (aligned : base % 4096 = 0) (low : base ≤ 0x60000000) :
    busyMachine.space.Free base (wholePart 88) ↔ base ≠ 0x20000000 := by
  have taken (q : Nat) : busyMachine.space.taken q = decide (q / 4096 = 0x20000) := by
    show (if q / 4096 = 0x20000 then some (_ : Page) else none).isSome = _
    split <;> simp [*]
  rw [whole_free_iff aligned low (by decide) rfl, show wholeSpan 88 = 4096 from rfl]
  simp only [taken, decide_eq_false_iff_not]
  constructor
  · rintro none rfl
    exact none 0x20000000 (by decide) (by decide) (by decide)
  · intro other q below above
    omega

theorem busy_obliging :
    ObligingHost busyMachine 3 dynamicBytes 128 (some 4096) mainBiases
      (wholeAnswers 88 busyPlaces) := by
  refine dynamic_whole.obliging rfl rfl fun t listed => ?_
  have known : t.1 % 4096 = 0 ∧ t.1 ≤ 0x60000000 ∧ busyPlaces t.2 % 4096 = 0 ∧
      busyPlaces t.2 ≤ 0x60000000 ∧ busyPlaces t.2 ≠ 0x20000000 ∧
      (t.1 ≠ 0x20000000 → busyPlaces t.2 = t.1) := by
    revert t
    decide
  obtain ⟨aligned, low, whole, small, other, same⟩ := known
  exact whole_grants aligned low (by decide) rfl whole small
    ((busy_free_iff whole small).mpr other) fun own => same ((busy_free_iff aligned low).mp own)

theorem second_base_used :
    ∃ object path n, loadElfObject mainEtDynBias true (some 4096) (wholeAnswers 88 busyPlaces)
      busyMachine = some (.ok (object, path), n) ∧ object.loadBias = 0x30000000 := by
  have bases := dynamic_whole.bases
  have fits (base : Nat) (aligned : base % 4096 = 0) (low : base ≤ 0x60000000)
      (high : 0x10000 ≤ base) : busyMachine.space.Fits base [] (wholePart 88) :=
    whole_fits aligned low (by decide) rfl rfl high
  have content : dynamicBytes = fun k => busyMachine.image.host.bytes ⟨some 0, k⟩ := rfl
  have room : (objectFile dynamicBytes).Room busyMachine := by
    unfold ObjectFile.Room
    rw [dynamic_whole.parts, dynamic_facts.2]
    decide
  refine ((first_usable_base (.start rfl rfl rfl fun _ => rfl) rfl content
    (bases ▸ dynamic_whole.valid) (bases ▸ busy_obliging)).2 _).2
    room ?_
  rw [bases]
  refine ⟨[0x20000000], [0x40000000, 0x50000000], rfl, ?_, ?_⟩
  · exact dynamic_whole.usable (fits _ (by decide) (by decide) (by decide))
      ((busy_free_iff (by decide) (by decide)).mpr (by decide))
  · intro base known
    cases List.mem_singleton.mp known
    rw [dynamic_whole.parts]
    refine .here (fits _ (by decide) (by decide) (by decide)) fun own => ?_
    exact (busy_free_iff (by decide) (by decide)).mp own rfl

/-! ## An object with too many traps -/

/-- An object with one section, of 4097 times `svc 0`, from 124 on. -/
def trapsBytes (k : Nat) : UInt8 :=
  if k < 124 then
    [0x7f, 0x45, 0x4c, 0x46, 1, 1, 1, 0, 0, 0, 0, 0, 0, 0, 0, 0,
      3, 0, 0x28, 0, 1, 0, 0, 0, 0x7c, 0, 0, 0, 0x34, 0, 0, 0, 0x54, 0, 0, 0,
      0, 0, 0, 5, 0x34, 0, 0x20, 0, 1, 0, 0x28, 0, 1, 0, 0, 0,
      1, 0, 0, 0, 0, 0, 0, 0, 0, 0, 0, 0, 0, 0, 0, 0,
      0x80, 0x40, 0, 0, 0x80, 0x40, 0, 0, 5, 0, 0, 0, 4, 0, 0, 0,
      0, 0, 0, 0, 1, 0, 0, 0, 6, 0, 0, 0, 0x7c, 0, 0, 0, 0x7c, 0, 0, 0,
      4, 0x40, 0, 0, 0, 0, 0, 0, 0, 0, 0, 0, 4, 0, 0, 0, 0, 0, 0, 0].getD k 0
  else if k % 4 = 3 then 0xef else 0

theorem traps_whole : WholeObject trapsBytes 16512 16512 84 124 := by decide +kernel

/-- The file is shown from the base on. -/
theorem traps_byte {q : Nat} (code : 124 ≤ q) (inside : q < 16512) :
    (objectFile trapsBytes).byte 0 q = if q % 4 = 3 then 0xef else 0 := by
  unfold ObjectFile.byte
  rw [traps_whole.headers]
  have found : [wholePart 16512].find? (fun x => x.loads && decide (0 + x.pVaddr ≤ q) &&
      decide (q < 0 + x.pVaddr + x.pMemsz)) = some (wholePart 16512) := by
    refine List.find?_cons_of_pos ?_
    simp [wholePart, ElfProgramHeader.loads, inside]
  rw [found]
  show segmentByte trapsBytes 0 (wholePart 16512) q = _
  unfold segmentByte wholePart trapsBytes
  simp only [Nat.zero_add, Nat.zero_le, inside, and_self, if_true, Nat.sub_zero]
  rw [if_neg (by omega)]

theorem traps_replaced (inside : i < 4097) :
    (objectFile trapsBytes).replaced 0 (124 + 4 * i) = true := by
  have code : (objectFile trapsBytes).code 0 (124 + 4 * i) = true := by
    unfold ObjectFile.code ElfSection.codeAt
    rw [traps_whole.sections]
    simp [ElfSection.holdsInstructions]
    omega
  have word : (objectFile trapsBytes).word 0 (124 + 4 * i) = armLinuxSvc0 := by
    unfold ObjectFile.word
    rw [traps_byte (by omega) (by omega), traps_byte (by omega) (by omega),
      traps_byte (by omega) (by omega), traps_byte (by omega) (by omega), if_neg (by omega),
      if_neg (by omega), if_neg (by omega), if_pos (by omega)]
    decide
  unfold ObjectFile.replaced
  rw [code, word]
  decide

/-- The patch table does not hold its traps. -/
theorem traps_many : maxPatches < (objectFile trapsBytes).traps.length := by
  have nodup : ((List.range 4097).map fun i => 124 + 4 * i).Nodup :=
    List.nodup_range.map fun i j same => by omega
  have known : (List.range 4097).map (fun i => 124 + 4 * i) ⊆ (objectFile trapsBytes).traps := by
    intro v member
    obtain ⟨i, inside, rfl⟩ := List.mem_map.mp member
    exact mem_traps traps_whole.valid.sections (traps_replaced (List.mem_range.mp inside))
  have fewer := (List.subperm_of_subset nodup known).length_le
  rw [List.length_map, List.length_range] at fewer
  unfold maxPatches
  omega

def emptyMachine : Machine := wholeMachine trapsBytes 16512 fun _ => none

/-- Every mapping is where it was asked to be. -/
def askedPlaces (k : Nat) : Nat := mainBiases.getD k 0

theorem empty_obliging :
    ObligingHost emptyMachine 3 trapsBytes 16512 (some 4096) mainBiases
      (wholeAnswers 16512 askedPlaces) := by
  refine traps_whole.obliging rfl rfl fun t listed => ?_
  have known : t.1 % 4096 = 0 ∧ t.1 ≤ 0x60000000 ∧ askedPlaces t.2 = t.1 := by
    revert t
    decide
  obtain ⟨aligned, low, same⟩ := known
  rw [same]
  exact whole_grants aligned low (by decide) rfl aligned low (fun _ _ => rfl) fun _ => rfl

/-- The object can lie at the first base, on a host with nothing else, and is refused. -/
theorem full_table_refused :
    Loading emptyMachine ∧ emptyMachine.image.host.inode 3 = some 0 ∧
    (trapsBytes = fun k => emptyMachine.image.host.bytes ⟨some 0, k⟩) ∧
    ValidObject trapsBytes 16512 true mainBiases ∧
    ObligingHost emptyMachine 3 trapsBytes 16512 (some 4096) mainBiases
      (wholeAnswers 16512 askedPlaces) ∧
    0x20000000 ∈ mainBiases ∧
    emptyMachine.space.Usable 0x20000000 (objectFile trapsBytes).parts ∧
    ∃ errno n, loadElfObject mainEtDynBias true (some 4096) (wholeAnswers 16512 askedPlaces)
      emptyMachine = some (.error errno, n) := by
  have start : Loading emptyMachine := .start rfl rfl rfl fun _ => rfl
  have bases := traps_whole.bases
  have content : trapsBytes = fun k => emptyMachine.image.host.bytes ⟨some 0, k⟩ := rfl
  have usable : emptyMachine.space.Usable 0x20000000 (objectFile trapsBytes).parts :=
    traps_whole.usable (whole_fits (by decide) (by decide) (by decide) rfl rfl (by decide))
      fun _ _ => rfl
  refine ⟨start, rfl, content, traps_whole.valid, empty_obliging, by decide, usable, ?_⟩
  obtain ⟨⟨result, n, load⟩, chosen⟩ := loadElfObject_chosen start rfl content
    (bases ▸ traps_whole.valid) (bases ▸ empty_obliging)
  cases result with
  | error errno => exact ⟨errno, n, load⟩
  | ok loaded =>
    obtain ⟨-, -, -, -, room, -⟩ := (chosen loaded.1.loadBias).mp ⟨_, _, _, load, rfl⟩
    have traps := room.2
    have many := traps_many
    rw [show emptyMachine.image.patches = [] from rfl, List.length_nil, Nat.zero_add] at traps
    exact absurd many (Nat.not_lt.mpr traps)

end Linuxemu.Guest
