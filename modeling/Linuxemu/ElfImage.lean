import Linuxemu.ElfLoader
import Linuxemu.FileReads
import Linuxemu.LoadedImage
import Mathlib.Data.List.Pairwise

/-! The memory image of a loaded object: its segments as the file has them, with the
instructions of its code sections that need the emulator replaced by traps. -/
namespace Linuxemu.Guest
open Lib Registry
variable {headers : List ElfProgramHeader} {e : SegmentHost} {found : UInt32}
  {length count i a : Nat} {m' : Machine}

/-! ## What an object looks like in memory -/

/-- A file as its tables describe it. -/
structure ObjectFile where
  file : Nat → UInt8
  headers : List ElfProgramHeader
  sections : List ElfSection

def filePart (file : Nat → UInt8) (offset length : Nat) : List UInt8 :=
  (List.range length).map fun k => file (offset + k)

def objectFile (file : Nat → UInt8) : ObjectFile :=
  let header := filePart file 0 52
  { file
    headers := (List.range (u16 header 44)).map
      (programHeaderAt (filePart file (u32 header 28) (32 * u16 header 44)))
    sections := (List.range (u16 header 48)).map
      (elfSectionAt (filePart file (u32 header 32) (u16 header 48 * 40))) }

def segmentByte (file : Nat → UInt8) (loadBias : Nat) (x : ElfProgramHeader) (q : Nat) : UInt8 :=
  if loadBias + x.pVaddr ≤ q ∧ q < loadBias + x.pVaddr + x.pFilesz then
    file (x.pOffset + (q - (loadBias + x.pVaddr)))
  else 0

/-- The byte at an address before code is patched: that of the file, or zero. -/
def ObjectFile.byte (o : ObjectFile) (loadBias q : Nat) : UInt8 :=
  match o.headers.find? fun x => x.loads && decide (loadBias + x.pVaddr ≤ q) &&
      decide (q < loadBias + x.pVaddr + x.pMemsz) with
  | none => 0
  | some x => segmentByte o.file loadBias x q

def ObjectFile.word (o : ObjectFile) (loadBias a : Nat) : UInt32 :=
  wordOf (o.byte loadBias a) (o.byte loadBias (a + 1)) (o.byte loadBias (a + 2))
    (o.byte loadBias (a + 3))

/-- A section with instructions holds this address. -/
def ElfSection.codeAt (loadBias a : Nat) (x : ElfSection) : Bool :=
  x.holdsInstructions && decide (loadBias + x.shAddr ≤ a) &&
    decide (a < loadBias + x.shAddr + x.shSize)

/-- An aligned address in a section with instructions. -/
def ObjectFile.code (o : ObjectFile) (loadBias a : Nat) : Bool :=
  decide (a % 4 = 0) && o.sections.any (·.codeAt loadBias a)

/-- A word of code that is replaced by a trap. -/
def ObjectFile.replaced (o : ObjectFile) (loadBias a : Nat) : Bool :=
  o.code loadBias a && patchable (o.word loadBias a)

/-- The first page of a segment, and the end of its last one. -/
def ElfProgramHeader.mapStart (x : ElfProgramHeader) (page loadBias : Nat) : Nat :=
  alignDown (loadBias + x.pVaddr) page

def ElfProgramHeader.mapEnd (x : ElfProgramHeader) (page loadBias : Nat) : Nat :=
  alignUp (loadBias + x.pVaddr + x.pMemsz) page

/-- The pages of a segment. -/
def ElfProgramHeader.Spans (x : ElfProgramHeader) (page loadBias q : Nat) : Prop :=
  x.mapStart page loadBias ≤ q ∧ q < x.mapEnd page loadBias

def ElfProgramHeader.segment (page loadBias : Nat) (x : ElfProgramHeader) : LoadSegment :=
  ⟨x.mapStart page loadBias, x.mapEnd page loadBias - x.mapStart page loadBias,
    protectionFromFlags x.pFlags⟩

/-- The pages of an object. -/
def ObjectFile.Holds (o : ObjectFile) (page loadBias q : Nat) : Prop :=
  ∃ x ∈ o.headers, x.loads = true ∧ x.Spans page loadBias q

variable {x : ElfProgramHeader} {descriptor : Int} {q loadBias address fileSize inode : Nat}
  {m : Machine} {o : ObjectFile}

theorem ElfProgramHeader.Spans.holds {page : Nat} (spans : x.Spans page loadBias q) :
    (x.segment page loadBias).Holds q := by
  obtain ⟨low, high⟩ := spans
  refine ⟨low, ?_⟩
  show q < x.mapStart page loadBias + (x.mapEnd page loadBias - x.mapStart page loadBias)
  omega

/-! ## One segment -/

/-- Fresh memory is zero. -/
theorem granted_zero {h after : Host} {result : Nat} {protection : Protection} {flags : MapFlags}
    {offset : Int}
    (granted : h.Granted address length protection flags descriptor offset result after)
    (anonymous : flags.anonymous = true) (low : result ≤ q)
    (high : q < result + h.pageCount length * h.pageSize.bytes) : after.bytes ⟨none, q⟩ = 0 := by
  rw [granted.after]
  simp only [Host.map, Host.fill, Host.backing, anonymous]
  rw [if_pos ⟨trivial, low, high⟩]
  rfl

/-- What a mapped segment comes to. -/
structure Mapped (file : Nat → UInt8) (loadBias : Nat) (x : ElfProgramHeader) (m m' : Machine) :
    Prop where
  kept : HostKept m.image.host m'.image.host
  patches : m'.image.patches = m.image.patches
  segments : m'.loadSegments = m.loadSegments ++ [x.segment m.pageBytes loadBias]
  below : x.mapStart m.pageBytes loadBias ≤ loadBias + x.pVaddr
  above : loadBias + x.pVaddr + x.pMemsz ≤ x.mapEnd m.pageBytes loadBias
  sizes : x.pFilesz ≤ x.pMemsz
  shows : ∀ q, x.Spans m.pageBytes loadBias q →
    m'.image.host.bytes ⟨none, q⟩ = segmentByte file loadBias x q

theorem fillSegment_byte {header : ProgramHeader} {bytes : List UInt8}
    {segmentStart mapStart mapLength : Nat} (fresh : m.image.host.bytes ⟨none, q⟩ = 0) :
    (m.fillSegment header bytes segmentStart mapStart mapLength).image.host.bytes ⟨none, q⟩ =
      if segmentStart ≤ q ∧ q < segmentStart + header.pFilesz then bytes.getD (q - segmentStart) 0
      else 0 := by
  simp only [Machine.fillSegment, Host.fill, true_and, fresh]
  split
  · rw [if_neg (by omega)]
  · split
    · rw [if_neg (by omega)]
    · rfl

theorem placeSegment_mapped (opened : m.image.host.inode descriptor = some inode)
    (good : GoodRange m x.toProgramHeader (loadBias + x.pVaddr) (x.mapStart m.pageBytes loadBias)
      (x.mapEnd m.pageBytes loadBias - x.mapStart m.pageBytes loadBias))
    (done : m.placeSegment descriptor x.toProgramHeader (loadBias + x.pVaddr)
      (x.mapStart m.pageBytes loadBias)
      (x.mapEnd m.pageBytes loadBias - x.mapStart m.pageBytes loadBias) e = some (none, m')) :
    Mapped (fun k => m.image.host.bytes ⟨some inode, k⟩) loadBias x m m' := by
  obtain ⟨wrong, -⟩ | ⟨wrong, -⟩ | ⟨-, host, bytes, granted, read, rfl⟩ := placeSegment_cases done
  · exact absurd rfl wrong
  · exact absurd rfl wrong
  have files := granted_files granted
  have content := readExactAt_slice (files.inode ▸ opened) read
  have positive := granted.positive
  have length := good.whole
  have above := good.above
  have below := good.below
  constructor
  · apply OnFree.kept
    exact fillSegment_onFree (granted_onFree granted rfl) rfl good.below good.file
      (good.whole.symm ▸ good.above)
  · rfl
  · rfl
  · exact below
  · omega
  · exact good.file
  · rintro q ⟨low, high⟩
    have fresh := granted_zero granted rfl low
      (show q < _ + m.image.host.pageCount _ * m.pageBytes by omega)
    rw [fillSegment_byte fresh, segmentByte]
    split
    · rename_i inside
      rw [content, files.slice, slice_getD _ _ _ (by omega)]
    · rfl

theorem mapLoadSegment_mapped (opened : m.image.host.inode descriptor = some inode)
    (done : guestMemoryMapLoadSegment descriptor x.toProgramHeader loadBias fileSize e m =
      some (none, m')) :
    Mapped (fun k => m.image.host.bytes ⟨some inode, k⟩) loadBias x m m' := by
  obtain ⟨wrong, -⟩ | ⟨good, -, -, -, placed⟩ := mapLoadSegment_cases done
  · exact absurd rfl wrong
  · exact placeSegment_mapped opened good placed

/-! ## All segments -/

/-- These segments have been mapped since `start`. -/
structure Placed (file : Nat → UInt8) (loadBias : Nat) (start : Machine)
    (placed : List ElfProgramHeader) (m : Machine) : Prop where
  ok : m.LoadOk
  patches : m.image.patches = start.image.patches
  segments : m.loadSegments =
    start.loadSegments ++ placed.map (ElfProgramHeader.segment start.pageBytes loadBias)
  pageSize : m.image.host.pageSize = start.image.host.pageSize
  files : FilesKept start.image.host m.image.host
  below : ∀ x ∈ placed, x.mapStart start.pageBytes loadBias ≤ loadBias + x.pVaddr
  above : ∀ x ∈ placed, loadBias + x.pVaddr + x.pMemsz ≤ x.mapEnd start.pageBytes loadBias
  sizes : ∀ x ∈ placed, x.pFilesz ≤ x.pMemsz
  shows : ∀ x ∈ placed, ∀ q, x.Spans start.pageBytes loadBias q →
    m.image.host.bytes ⟨none, q⟩ = segmentByte file loadBias x q

section
variable {file : Nat → UInt8} {loadBias : Nat} {start m m' : Machine}
  {placed : List ElfProgramHeader}

theorem Placed.nothing (ok : start.LoadOk) : Placed file loadBias start [] start := by
  constructor
  · exact ok
  · rfl
  · simp
  · rfl
  · exact .refl _
  all_goals exact nofun

theorem Placed.own (h : Placed file loadBias start placed m) (member : x ∈ placed)
    (spans : x.Spans start.pageBytes loadBias q) :
    m.image.host.Own q := by
  refine h.ok.own _ ?_ q spans.holds
  rw [h.segments]
  exact List.mem_append_right _ (List.mem_map_of_mem member)

theorem Placed.add (h : Placed file loadBias start placed m) (ok : m'.LoadOk)
    (files : FilesKept m.image.host m'.image.host) (mapped : Mapped file loadBias x m m') :
    Placed file loadBias start (placed ++ [x]) m' := by
  have page : m.pageBytes = start.pageBytes := congrArg PageSize.bytes h.pageSize
  obtain ⟨kept, patches, segments, below, above, sizes, shows⟩ := mapped
  rw [page] at segments below above shows
  have both {P : ElfProgramHeader → Prop} (old : ∀ y ∈ placed, P y) (new : P x) :
      ∀ y ∈ placed ++ [x], P y :=
    List.forall_mem_append.mpr ⟨old, List.forall_mem_singleton.mpr new⟩
  constructor
  · exact ok
  · exact patches.trans h.patches
  · rw [segments, h.segments]
    simp
  · exact kept.pageSize.trans h.pageSize
  · exact h.files.trans files
  · exact both h.below below
  · exact both h.above above
  · exact both h.sizes sizes
  · refine both (fun y member q spans => ?_) shows
    obtain ⟨page, there, -⟩ := h.own member spans
    rw [kept.bytes q (by rw [there]; rfl)]
    exact h.shows y member q spans

theorem mapSegments_placed {answer : Nat → SegmentHost}
    (opened : start.image.host.inode descriptor = some inode)
    (content : file = fun k => start.image.host.bytes ⟨some inode, k⟩)
    (h : Placed file loadBias start placed m)
    (done : mapSegments descriptor loadBias fileSize answer i headers m = some (none, m')) :
    Placed file loadBias start (placed ++ headers.filter (·.loads)) m' := by
  induction headers generalizing i m placed with
  | nil =>
    cases done
    simpa using h
  | cons x rest ih =>
    unfold mapSegments at done
    split at done
    · rename_i loads
      split at done
      · rename_i next mapped
        have same : file = fun k => m.image.host.bytes ⟨some inode, k⟩ := by
          rw [content]
          exact funext fun k => (h.files.bytes inode k).symm
        have shown := mapLoadSegment_mapped (h.files.inode ▸ opened) mapped
        rw [← same] at shown
        have added :=
          h.add (mapLoadSegment_loadOk h.ok mapped) (mapLoadSegment_files mapped) shown
        have all := ih added done
        rwa [List.append_assoc, List.singleton_append, ← List.filter_cons_of_pos loads] at all
      · rename_i other
        exact absurd done (other m')
    · rename_i skipped
      rw [List.filter_cons_of_neg skipped]
      exact ih h done

/-- Pages belong to one segment. -/
theorem Placed.unique (h : Placed file loadBias start placed m) {y : ElfProgramHeader}
    (first : x ∈ placed) (second : y ∈ placed) (spansFirst : x.Spans start.pageBytes loadBias q)
    (spansSecond : y.Spans start.pageBytes loadBias q) : x = y := by
  have apart := h.ok.apart
  rw [h.segments, List.pairwise_append] at apart
  have pairs := List.pairwise_map.mp apart.2.1
  by_contra other
  have : Std.Symm fun x y : ElfProgramHeader =>
      (x.segment start.pageBytes loadBias).Apart (y.segment start.pageBytes loadBias) :=
    ⟨fun _ _ apart => apart.symm⟩
  have disjoint := pairs.forall first second other
  exact disjoint.not_holds spansFirst.holds spansSecond.holds

section
variable (h : Placed o.file loadBias start (o.headers.filter (·.loads)) m)
  (member : x ∈ o.headers.filter (·.loads))
include h member

/-- The bytes of the object on the pages of a segment are those of the segment. -/
theorem Placed.byte (spans : x.Spans start.pageBytes loadBias q) :
    o.byte loadBias q = segmentByte o.file loadBias x q := by
  unfold ObjectFile.byte
  cases found : o.headers.find? fun y => y.loads && decide (loadBias + y.pVaddr ≤ q) &&
      decide (q < loadBias + y.pVaddr + y.pMemsz) with
  | none =>
    have outside := List.find?_eq_none.mp found x (List.mem_of_mem_filter member)
    have sizes := h.sizes x member
    simp only [(List.mem_filter.mp member).2, Bool.true_and, Bool.and_eq_true,
      decide_eq_true_iff] at outside
    rw [segmentByte, if_neg (by omega)]
  | some y =>
    have inside := List.find?_some found
    simp only [Bool.and_eq_true, decide_eq_true_iff] at inside
    obtain ⟨⟨loads, low⟩, high⟩ := inside
    have known : y ∈ o.headers.filter (·.loads) :=
      List.mem_filter.mpr ⟨List.mem_of_find?_eq_some found, loads⟩
    have below := h.below y known
    have above := h.above y known
    rw [h.unique known member ⟨by omega, by omega⟩ spans]

theorem Placed.word (aligned : a % 4 = 0) (spans : x.Spans start.pageBytes loadBias a) :
    m.image.host.peek a = some (o.word loadBias a) := by
  rw [peek_own (h.own member spans), ObjectFile.word, wordAt]
  obtain ⟨low, high⟩ := spans
  have whole : 4 ∣ x.mapEnd start.pageBytes loadBias :=
    Nat.dvd_trans start.image.host.pageSize.four_dvd
      (Nat.dvd_of_mod_eq_zero (alignUp_aligned start.image.host _))
  have byte (k : Nat) (small : k < 4) :
      m.image.host.bytes ⟨none, a + k⟩ = o.byte loadBias (a + k) := by
    have inside : x.Spans start.pageBytes loadBias (a + k) := ⟨by omega, by omega⟩
    rw [h.shows x member _ inside, h.byte member inside]
  have first := byte 0 (by omega)
  rw [Nat.add_zero] at first
  simp only [Place.plus]
  rw [first, byte 1 (by omega), byte 2 (by omega), byte 3 (by omega)]

theorem Placed.rule (small : i < x.pMemsz) :
    x.Spans start.pageBytes loadBias (loadBias + x.pVaddr + i) ∧
      o.byte loadBias (loadBias + x.pVaddr + i) =
        if i < x.pFilesz then o.file (x.pOffset + i) else 0 := by
  have below := h.below x member
  have above := h.above x member
  have spans : x.Spans start.pageBytes loadBias (loadBias + x.pVaddr + i) := ⟨by omega, by omega⟩
  refine ⟨spans, ?_⟩
  have offset : loadBias + x.pVaddr + i - (loadBias + x.pVaddr) = i := by omega
  rw [h.byte member spans, segmentByte, offset]
  by_cases read : i < x.pFilesz
  · rw [if_pos (by omega), if_pos read]
  · rw [if_neg (by omega), if_neg read]

end

/-- Pages start at word boundaries. -/
theorem Placed.down (h : Placed file loadBias start placed m) (member : x ∈ placed)
    (spans : x.Spans start.pageBytes loadBias q) :
    x.Spans start.pageBytes loadBias (q / 4 * 4) := by
  obtain ⟨low, high⟩ := spans
  have known : x.segment start.pageBytes loadBias ∈ m.loadSegments := by
    rw [h.segments]
    exact List.mem_append_right _ (List.mem_map_of_mem member)
  have whole : 4 ∣ x.mapStart start.pageBytes loadBias :=
    Nat.dvd_trans m.image.host.pageSize.four_dvd
      (Nat.dvd_of_mod_eq_zero (h.ok.whole _ known).1)
  exact ⟨by omega, by omega⟩

/-- No record is older than the object. -/
theorem Placed.unrecorded (h : Placed file loadBias start placed m) (ok : start.LoadOk)
    (member : x ∈ placed) (spans : x.Spans start.pageBytes loadBias a) :
    armPatchOriginal m.image.patches a = none := by
  have apart := h.ok.apart
  rw [h.segments, List.pairwise_append] at apart
  rw [h.patches, armPatchOriginal, Option.map_eq_none_iff, List.find?_eq_none]
  intro r recorded same
  obtain ⟨y, known, holds⟩ := ok.inside r recorded
  have here : r.address = a := by simpa using same
  exact (apart.2.2 y known _ (List.mem_map_of_mem member)).not_holds (here ▸ holds) spans.holds

end

/-! ## Code -/

/-- Words of an object: those of code that were to be patched are traps and recorded, all
others are as they were and not recorded. -/
structure Shown (word : Nat → UInt32) (object : Nat → Prop) (code : Nat → Bool) (s : Image) :
    Prop where
  own : ∀ a, object a → s.host.Own a
  memory : ∀ a, a % 4 = 0 → object a → s.host.peek a =
    some (if code a && patchable (word a) then armUdfTrap else word a)
  table : ∀ a, a % 4 = 0 → object a → armPatchOriginal s.patches a =
    if code a && patchable (word a) then some (word a) else none

theorem armPatchOriginal_append (patches : List PatchRecord) (r : PatchRecord) (a : Nat) :
    armPatchOriginal (patches ++ [r]) a =
      (armPatchOriginal patches a).or (if r.address = a then some r.original else none) := by
  unfold armPatchOriginal
  rw [List.find?_append, Option.map_or]
  by_cases same : r.address = a
  · simp [same]
  · simp [same]

section
variable {word : Nat → UInt32} {object : Nat → Prop} {code : Nat → Bool} {s t : Image}

theorem Shown.congr {wider : Nat → Bool} (h : Shown word object code s)
    (same : ∀ a, a % 4 = 0 → object a →
      (wider a && patchable (word a)) = (code a && patchable (word a))) :
    Shown word object wider s := by
  constructor
  · exact h.own
  · intro a aligned inside
    rw [h.memory a aligned inside, same a aligned inside]
  · intro a aligned inside
    rw [h.table a aligned inside, same a aligned inside]

/-- A word that is not to be patched may count as code. -/
theorem Shown.pass (h : Shown word object code s) (loaded : s.host.loadWord address = some found)
    (plain : patchable found = false) :
    Shown word object (fun a => code a || decide (a = address)) s := by
  apply h.congr
  intro a aligned inside
  by_cases here : a = address
  · subst here
    have seen := h.memory a aligned inside
    rw [peek_of_loadWord loaded] at seen
    cases known : code a with
    | true => rfl
    | false =>
      rw [known, Bool.false_and] at seen
      obtain rfl : found = word a := Option.some.inj seen
      simp [plain]
  · simp [here]

/-- A word that is patched, of the object or not. -/
theorem Shown.trap (h : Shown word object code s) (own : s.host.Own address)
    (here : address % 4 = 0) (loaded : s.host.loadWord address = some found)
    (patch : patchable found = true) (trapped : s.trap address found = some t) :
    Shown word object (fun a => code a || decide (a = address)) t := by
  obtain ⟨host, stored, rfl⟩ := trap_some trapped
  -- an address of the object that is patched now was not patched before
  have fresh (inside : object address) :
      (code address && patchable (word address)) = false ∧ found = word address := by
    have seen := h.memory address here inside
    rw [peek_of_loadWord loaded] at seen
    cases before : code address && patchable (word address) with
    | true =>
      rw [before, if_pos rfl] at seen
      rw [Option.some.inj seen, patchable_udf] at patch
      cases patch
    | false =>
      rw [before] at seen
      exact ⟨rfl, Option.some.inj seen⟩
  constructor
  · intro a inside
    obtain ⟨place, -, rfl⟩ := storeWord_some stored
    exact h.own a inside
  · intro a aligned inside
    dsimp only
    by_cases same : a = address
    · subst same
      rw [peek_stored stored, ← (fresh inside).2]
      simp [patch]
    · rw [peek_storeWord_own stored own (h.own a inside) here aligned same,
        h.memory a aligned inside]
      simp [same]
  · intro a aligned inside
    dsimp only
    rw [armPatchOriginal_append, h.table a aligned inside]
    by_cases same : a = address
    · subst same
      obtain ⟨before, rfl⟩ := fresh inside
      rw [before]
      simp [patch]
    · simp [same, Ne.symm same]

theorem patchWords_shown (here : address % 4 = 0)
    (own : ∀ a, address ≤ a → a < address + 4 * count → s.host.Own a) (h : Shown word object code s)
    (done : patchWords count address s = some (none, t)) :
    Shown word object
      (fun a => code a || decide (address ≤ a ∧ a < address + 4 * count)) t := by
  induction count generalizing address s code with
  | zero =>
    cases done
    apply h.congr
    intro a _ _
    rw [decide_eq_false (by omega), Bool.or_false]
  | succ count ih =>
    -- once the first word is dealt with, the rest is the induction hypothesis
    have later {s : Image} (own : ∀ a, address ≤ a → a < address + 4 * (count + 1) → s.host.Own a)
        (h : Shown word object (fun a => code a || decide (a = address)) s)
        (done : patchWords count (address + 4) s = some (none, t)) :
        Shown word object
          (fun a => code a || decide (address ≤ a ∧ a < address + 4 * (count + 1))) t := by
      have rest := ih (by omega) (fun a low high => own a (by omega) (by omega)) h done
      apply rest.congr
      intro a aligned _
      have split : decide (address ≤ a ∧ a < address + 4 * (count + 1)) =
          (decide (a = address) ||
            decide (address + 4 ≤ a ∧ a < address + 4 + 4 * count)) := by
        rw [← Bool.decide_or]
        apply decide_eq_decide.mpr
        omega
      rw [split, Bool.or_assoc]
    unfold patchWords at done
    split at done
    · cases done
    rename_i found loaded
    split at done
    · rename_i plain
      exact later own (h.pass loaded (by simpa using plain)) done
    · rename_i patch
      split at done
      · cases done
      split at done
      · cases done
      rename_i next trapped
      have shown := h.trap (own address (Nat.le_refl _) (by omega)) here loaded
        (by simpa using patch) trapped
      obtain ⟨host, stored, rfl⟩ := trap_some trapped
      obtain ⟨place, -, rfl⟩ := storeWord_some stored
      refine later ?_ shown done
      exact own

theorem armPatchRange_shown {start : Nat} (own : ∀ a, start ≤ a → a < start + length → s.host.Own a)
    (h : Shown word object code s) (done : armPatchRange start length s = some (none, t)) :
    Shown word object (fun a => code a || decide (start ≤ a ∧ a < start + length)) t := by
  unfold armPatchRange at done
  split at done
  · cases done
  · have size : 4 * (length / 4) = length := by omega
    have shown := patchWords_shown (by omega) (by rw [size]; exact own) h done
    rwa [size] at shown

end

/-! ## Sections -/

theorem patchSectionLoop_shown {word : Nat → UInt32} {object : Nat → Prop} {code : Nat → Bool}
    {total : Nat} {sections : List ElfSection} {n : Machine} (ok : m.LoadOk)
    (h : Shown word object code m.image)
    (done : patchSectionLoop headers loadBias fileSize sections count m = some (.ok total, n)) :
    Shown word object (fun a => code a || sections.any (·.codeAt loadBias a)) n.image := by
  induction sections generalizing m count code with
  | nil =>
    cases done
    simpa using h
  | cons x rest ih =>
    unfold patchSectionLoop at done
    split at done
    · rename_i skipped
      apply (ih ok h done).congr
      intro a _ _
      have none : x.codeAt loadBias a = false := by
        simp only [Bool.not_eq_true'] at skipped
        simp [ElfSection.codeAt, skipped]
      rw [List.any_cons, none, Bool.false_or]
    rename_i instructions
    split at done
    · cases done
    split at done
    · cases done
    rename_i checks
    simp only [not_or, Bool.not_eq_true', Bool.not_eq_false] at checks instructions
    obtain ⟨-, -, executable⟩ := checks
    split at done
    · cases done
    · cases done
    · rename_i image patched
      obtain ⟨y, known, holds⟩ := ok.executable executable
      have shown := armPatchRange_shown
        (fun a low high => ok.own y known a (holds a low high)) h patched
      apply (ih (patchRange_loadOk ok executable patched) shown done).congr
      intro a _ _
      have here : x.codeAt loadBias a =
          decide (loadBias + x.shAddr ≤ a ∧ a < loadBias + x.shAddr + x.shSize) := by
        simp [ElfSection.codeAt, instructions]
      rw [List.any_cons, here, Bool.or_assoc]

end Linuxemu.Guest
