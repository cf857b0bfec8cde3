import Linuxemu.FileReads
import Linuxemu.MemoryRuns
import Linuxemu.MmapOutcome

/-! What a file mapping without `PROT_EXEC` shows: the bytes of the file, or patched
ones. -/
namespace Linuxemu.Guest
open Lib Registry
variable {a : Nat}

/-- The byte that is there, whatever the protection of its page. -/
def Host.peekByte (h : Host) (address : Nat) : Option UInt8 :=
  (h.access (fun _ => true) address).map h.bytes

/-- A byte as a mapping shows it. A private page reads zero past the end of the file. -/
def Host.shownByte (h : Host) (shared : Bool) (inode offset : Nat) : UInt8 :=
  if shared then h.bytes ⟨some inode, offset⟩ else h.freshByte (some inode) offset

def Host.shownWord (h : Host) (shared : Bool) (inode offset : Nat) : UInt32 :=
  wordOf (h.shownByte shared inode offset) (h.shownByte shared inode (offset + 1))
    (h.shownByte shared inode (offset + 2)) (h.shownByte shared inode (offset + 3))

/-- The mapping at `address` has the file's bytes, and the file is as it was. -/
def ShowsFile (m : Machine) (r : Registers) (address : Nat) (m' : Machine) : Prop :=
  ∃ inode, m.image.host.inode r.descriptor = some inode ∧
    (∀ i, i < r.length → r.offset.toNat + i < m.image.host.size inode →
      m'.image.host.peekByte (address + i) =
        some (m.image.host.bytes ⟨some inode, r.offset.toNat + i⟩)) ∧
    m'.image.host.size inode = m.image.host.size inode ∧
    ∀ i, i < m.image.host.size inode →
      m'.image.host.bytes ⟨some inode, i⟩ = m.image.host.bytes ⟨some inode, i⟩

/-- Inside the mapping, a section of code of the file has an instruction to patch, in a
word that the requested bytes show or, when they are shared, that the file has. -/
def Machine.PatchesData (m : Machine) (r : Registers) (e : MmapHost) : Prop :=
  ∃ inode sections x word, m.image.host.inode r.descriptor = some inode ∧
    readSections m.image.host r.descriptor r.offset (m.mappedLength r) e.elf =
      some (.found sections) ∧
    x ∈ sections ∧ x.holdsCode = true ∧
    x.shOffset ≤ word ∧ word + 4 ≤ x.shOffset + x.shSize ∧
    r.offset.toNat ≤ word ∧ word + 4 ≤ r.offset.toNat + m.mappedLength r ∧ word % 4 = 0 ∧
    word < m.image.host.size inode ∧
    (r.mapShared = false → word < r.offset.toNat + r.length) ∧
    patchable (m.image.host.shownWord r.mapShared inode word) = true

/-! ## A mapping the host has made -/

/-- The place behind an address of a file mapping. -/
def filePlace (shared : Bool) (inode address offset a : Nat) : Place (Option Nat) :=
  if shared then ⟨some inode, offset + (a - address)⟩ else ⟨none, a⟩

theorem shownByte_inside {h : Host} {inode offset : Nat} (inside : offset < h.size inode)
    (shared : Bool) : h.shownByte shared inode offset = h.bytes ⟨some inode, offset⟩ := by
  unfold Host.shownByte Host.freshByte
  cases shared with
  | true => rfl
  | false => exact if_pos inside

section Granted
variable {h after : Host} {requested length result inode : Nat} {protection : Protection}
  {flags : MapFlags} {descriptor offset : Int}

variable (granted : h.Granted requested length protection flags descriptor offset result after)
  (named : flags.anonymous = false) (file : h.inode descriptor = some inode)
include granted named file

section
variable (low : result ≤ a) (high : a < result + h.pageCount length * h.pageSize.bytes)
include low high

/-- The pages of the mapping, each for the page of the file at its offset. -/
theorem granted_page :
    ∃ number, after.page a = some (h.newPage protection flags (some inode) number) ∧
      number * h.pageSize.bytes + a % h.pageSize.bytes = offset.toNat + (a - result) := by
  obtain ⟨-, -, -, whole⟩ := granted.file named
  have inside := (inSpan_iff h granted.aligned length a).mpr ⟨low, high⟩
  refine ⟨offset.toNat / h.pageSize.bytes + (a / h.pageSize.bytes - result / h.pageSize.bytes),
    ?_, ?_⟩
  · rw [granted.after]
    show (if h.inSpan result length (a / h.pageSize.bytes) then _ else _) = _
    rw [if_pos inside, Host.backing, named, file]
    rfl
  · have start := Nat.div_mul_cancel (Nat.dvd_of_mod_eq_zero granted.aligned)
    have first := Nat.div_mul_cancel (Nat.dvd_of_mod_eq_zero whole)
    have split := Nat.div_add_mod a h.pageSize.bytes
    rw [Nat.add_mul, Nat.sub_mul, start, first]
    rw [Nat.mul_comm] at split
    have base : result ≤ a / h.pageSize.bytes * h.pageSize.bytes := by
      rw [← start]
      exact Nat.mul_le_mul_right _ (Nat.div_le_div_right low)
    omega

theorem granted_place {allowed : Page → Bool} {place : Place (Option Nat)}
    (found : after.access allowed a = some place) :
    place = filePlace flags.shared inode result offset.toNat a := by
  obtain ⟨number, page, sum⟩ := granted_page granted named file low high
  have size : after.pageSize = h.pageSize := by rw [granted.after]; rfl
  rw [Host.access, page] at found
  dsimp only at found
  split at found
  · cases found
    unfold Host.placeOn Host.newPage filePlace
    rw [size]
    cases flags.shared with
    | true =>
      dsimp only
      rw [if_pos rfl, if_pos rfl]
      dsimp only
      rw [sum]
    | false => rfl
  · cases found

theorem granted_there (inside : offset.toNat + (a - result) < h.size inode) :
    after.access (fun _ => true) a = some (filePlace flags.shared inode result offset.toNat a) := by
  obtain ⟨number, page, sum⟩ := granted_page granted named file low high
  have present : (h.newPage protection flags (some inode) number).absent = false := by
    unfold Host.newPage
    exact decide_eq_false (by omega)
  have found : after.access (fun _ => true) a =
      some (after.placeOn (h.newPage protection flags (some inode) number) a) := by
    rw [Host.access, page]
    dsimp only
    rw [present]
    rfl
  rw [found]
  exact congrArg some (granted_place granted named file low high found)

theorem granted_byte :
    after.bytes (filePlace flags.shared inode result offset.toNat a) =
      h.shownByte flags.shared inode (offset.toNat + (a - result)) := by
  unfold filePlace Host.shownByte
  cases flags.shared with
  | true =>
    rw [if_pos rfl, if_pos rfl]
    exact (granted_files granted).bytes _ _
  | false =>
    rw [if_neg (by decide), if_neg (by decide), granted.after]
    simp only [Host.map, Host.fill]
    rw [if_pos ⟨trivial, low, high⟩, Host.backing, named, file]
    rfl

end

theorem granted_word (low : result ≤ a)
    (high : a + 4 ≤ result + h.pageCount length * h.pageSize.bytes) :
    wordAt after.bytes (filePlace flags.shared inode result offset.toNat a) =
      h.shownWord flags.shared inode (offset.toNat + (a - result)) := by
  have byte (k : Nat) (small : k < 4) :
      after.bytes ((filePlace flags.shared inode result offset.toNat a).plus k) =
        h.shownByte flags.shared inode (offset.toNat + (a - result) + k) := by
    have next : (filePlace flags.shared inode result offset.toNat a).plus k =
        filePlace flags.shared inode result offset.toNat (a + k) := by
      unfold filePlace Place.plus
      cases flags.shared with
      | true =>
        simp only [↓reduceIte, Place.mk.injEq, true_and]
        omega
      | false => rfl
    rw [next, granted_byte granted named file (by omega) (by omega)]
    congr 1
    omega
  have first := byte 0 (by omega)
  simp only [Place.plus, Nat.add_zero] at first
  rw [wordAt, Host.shownWord, first, byte 1 (by omega), byte 2 (by omega), byte 3 (by omega)]

end Granted

/-! ## The section table -/

/-- What the section table is depends on files only. -/
theorem readSections_congr {h h' : Host} (files : FilesKept h h') (descriptor offset : Int)
    (length : Nat) (e : ElfReads) :
    readSections h' descriptor offset length e = readSections h descriptor offset length e := by
  simp only [readSections, Host.fstat, files.inode, files.size, readExactAt_congr files]

theorem armPatchElfMapping_cases {descriptor offset : Int} {address length : Nat} {e : ElfReads}
    {s t : Image}
    (done : armPatchElfMapping descriptor offset address length e s = some (none, t)) :
    (readSections s.host descriptor offset length e = some .skip ∧ t = s) ∨
    ∃ sections, readSections s.host descriptor offset length e = some (.found sections) ∧
      patchSections address offset.toNat (offset.toNat + length) sections s = some (none, t) := by
  rw [armPatchElfMapping] at done
  split at done
  · cases done
  · rename_i skipped
    cases done
    exact Or.inl ⟨skipped, rfl⟩
  · cases done
  · rename_i sections found
    exact Or.inr ⟨sections, found, done⟩

/-! ## A successful call -/

/-- A mapping of a file without `PROT_EXEC`: the host has made it, `arm_patch_elf_mapping`
has gone over it, and nothing but its protection has changed since. -/
structure DataMapped (m : Machine) (r : Registers) (e : MmapHost) (m' : Machine)
    (protection : Protection) (address inode : Nat) (host : Host) (patched : Image) : Prop where
  granted : m.image.host.Granted r.address r.length protection ⟨r.mapShared, r.mapFixed, false⟩
    r.descriptor r.offset address host
  file : m.image.host.inode r.descriptor = some inode
  whole : m.mappedLength r = m.image.host.pageCount r.length * m.image.host.pageSize.bytes
  elf : armPatchElfMapping r.descriptor r.offset address (m.mappedLength r) e.elf
    (m.cleared r address host) = some (none, patched)
  bytes : m'.image.host.bytes = patched.host.bytes
  size : m'.image.host.size = patched.host.size
  access : ∀ a, m'.image.host.access (fun _ => true) a = patched.host.access (fun _ => true) a

theorem linuxMmap2_dataMapped {m m' : Machine} {r : Registers} {e : MmapHost} {code : Int}
    (call : linuxMmap2 r e m = some (code, m')) (success : 0 ≤ code)
    (named : r.mapAnonymous = false) (data : r.r2 &&& 4 = 0) :
    ∃ (protection : Protection) (address inode : Nat) (host : Host) (patched : Image),
      code = (address : Int) ∧ DataMapped m r e m' protection address inode host patched := by
  generalize same : (code, m') = result at call
  cases linuxMmap2_outcome call with
  | refused failed =>
    cases same
    omega
  | dropped failed =>
    cases same
    omega
  | abandoned failed =>
    cases same
    omega
  | @mapped _ protection address host filled patched maps _ _ _ plain _ elf image _ _ =>
    cases same
    have exec : protection.exec = false := by
      have translated := (checkMmap2_ok maps.checked).translated
      unfold translateProtection at translated
      split at translated
      · cases translated
      · cases translated
        exact decide_eq_false (not_not.mpr data)
    have copies : r.copies protection = false := by simp [Registers.copies, exec]
    obtain rfl := plain copies
    have asked := maps.asked
    have flags : r.hostFlags protection = ⟨r.mapShared, r.mapFixed, false⟩ := by
      simp [Registers.hostFlags, copies, named]
    rw [Machine.askHost, flags, copies] at asked
    have granted := mmap_granted asked
    obtain ⟨inode, file, -, -⟩ := granted.file rfl
    have final : m'.image.host.bytes = patched.host.bytes ∧
        m'.image.host.size = patched.host.size ∧
        ∀ a, m'.image.host.access (fun _ => true) a = patched.host.access (fun _ => true) a := by
      obtain image | image := image
      · rw [image]
        exact ⟨rfl, rfl, fun _ => rfl⟩
      · rw [image]
        exact ⟨rfl, rfl, access_protect _ _ _ _⟩
    exact ⟨_, address, inode, _, patched, rfl, granted, file, maps_mappedLength maps, elf named,
      final.1, final.2.1, final.2.2⟩

section Data
variable {m m' : Machine} {r : Registers} {e : MmapHost} {protection : Protection}
  {address inode : Nat} {host : Host} {patched : Image}
  (mapping : DataMapped m r e m' protection address inode host patched)
include mapping

theorem DataMapped.fits : address + m.mappedLength r ≤ 2 ^ 32 :=
  mapping.whole ▸ mapping.granted.inside

theorem DataMapped.startAligned : address % 4 = 0 :=
  Nat.mod_eq_zero_of_dvd (m.image.host.pageSize.four_dvd.trans
    (Nat.dvd_of_mod_eq_zero mapping.granted.aligned))

theorem DataMapped.offsetAligned : r.offset.toNat % 4 = 0 := by
  obtain ⟨-, -, -, whole⟩ := mapping.granted.file rfl
  exact Nat.mod_eq_zero_of_dvd (m.image.host.pageSize.four_dvd.trans
    (Nat.dvd_of_mod_eq_zero whole))

/-- The scan is skipped, or goes over the sections of the file as it was. -/
theorem DataMapped.sections :
    (readSections m.image.host r.descriptor r.offset (m.mappedLength r) e.elf = some .skip ∧
      patched = m.cleared r address host) ∨ ∃ sections,
      readSections m.image.host r.descriptor r.offset (m.mappedLength r) e.elf =
        some (.found sections) ∧
      patchSections address r.offset.toNat (r.offset.toNat + m.mappedLength r) sections
        (m.cleared r address host) = some (none, patched) := by
  have files := granted_files mapping.granted
  have table := readSections_congr files r.descriptor r.offset (m.mappedLength r) e.elf
  obtain ⟨skipped, same⟩ | ⟨sections, found, scan⟩ := armPatchElfMapping_cases mapping.elf
  · exact Or.inl ⟨table.symm.trans skipped, same⟩
  · exact Or.inr ⟨sections, table.symm.trans found, scan⟩

/-- A word of the mapping is the word of the file at its offset. -/
theorem DataMapped.loaded {word : UInt32} (low : address ≤ a)
    (high : a + 4 ≤ address + m.mappedLength r) (seen : host.loadWord a = some word) :
    word = m.image.host.shownWord r.mapShared inode (r.offset.toNat + (a - address)) := by
  have ends := mapping.whole ▸ high
  rw [Host.loadWord, Host.wordVia, Option.map_eq_some_iff] at seen
  obtain ⟨place, found, rfl⟩ := seen
  rw [granted_place mapping.granted rfl mapping.file low (by omega) found]
  exact granted_word mapping.granted rfl mapping.file low ends

/-- A byte of the file, or one of the requested bytes of the mapping. -/
def Visible (m : Machine) (r : Registers) (address inode : Nat) (p : Place (Option Nat)) : Prop :=
  (∃ i, i < m.image.host.size inode ∧ p = ⟨some inode, i⟩) ∨
  ∃ i, i < r.length ∧ r.offset.toNat + i < m.image.host.size inode ∧
    p = filePlace r.mapShared inode address r.offset.toNat (address + i)

omit mapping in
theorem covered_visible {p : Place (Option Nat)} (visible : Visible m r address inode p)
    (low : address ≤ a)
    (covers : (filePlace r.mapShared inode address r.offset.toNat a).covers p = true) :
    r.offset.toNat + (a - address) < m.image.host.size inode ∧
      (r.mapShared = false → r.offset.toNat + (a - address) < r.offset.toNat + r.length) := by
  rw [Place.covers_iff] at covers
  unfold Visible at visible
  revert covers visible
  unfold filePlace
  cases r.mapShared with
  | true =>
    rintro (⟨i, inside, rfl⟩ | ⟨i, -, inside, rfl⟩) ⟨-, start, -⟩
    · simp only [↓reduceIte] at start
      exact ⟨by omega, by simp⟩
    · simp only [↓reduceIte] at start
      exact ⟨by omega, by simp⟩
  | false =>
    rintro (⟨i, inside, rfl⟩ | ⟨i, asked, inside, rfl⟩) ⟨region, start, -⟩
    · cases region
    · simp only [Bool.false_eq_true, ↓reduceIte] at start
      exact ⟨by omega, fun _ => by omega⟩

theorem DataMapped.kept (clean : ¬ m.PatchesData r e) {p : Place (Option Nat)}
    (visible : Visible m r address inode p) : patched.host.bytes p = host.bytes p := by
  obtain ⟨-, skipped⟩ | ⟨sections, found, scan⟩ := mapping.sections
  · rw [skipped]
    rfl
  · obtain same | ⟨a, word, place, scanned, even, seen, code, opened, covers⟩ :=
      (patchSections_patched scan).byte p
    · exact same
    · exfalso
      have window : r.offset.toNat + m.mappedLength r - r.offset.toNat = m.mappedLength r := by omega
      obtain ⟨low, high, x, member, holds, first, last⟩ :=
        scanned.word (window.symm ▸ mapping.fits) even
      rw [window] at high
      have ends := mapping.whole ▸ high
      obtain rfl := granted_place mapping.granted rfl mapping.file low (by omega) opened
      obtain ⟨inside, asked⟩ := covered_visible visible low covers
      rw [mapping.loaded low high seen] at code
      have aligned : (r.offset.toNat + (a - address)) % 4 = 0 := by
        have start := mapping.startAligned
        have first := mapping.offsetAligned
        omega
      exact clean ⟨inode, sections, x, r.offset.toNat + (a - address), mapping.file, found, member,
        holds, first, last, by omega, by omega, aligned, inside, asked, code⟩

/-- A scanned instruction to patch has become the trap. -/
theorem DataMapped.trap {sections : List Section}
    (scan : patchSections address r.offset.toNat (r.offset.toNat + m.mappedLength r) sections
      (m.cleared r address host) = some (none, patched))
    (scanned : Scanned sections address r.offset.toNat (r.offset.toNat + m.mappedLength r) a)
    (low : address ≤ a) (high : a + 4 ≤ address + m.mappedLength r) (aligned : a % 4 = 0)
    (code : patchable (m.image.host.shownWord r.mapShared inode
      (r.offset.toNat + (a - address))) = true) :
    patched.host.access Page.readable a =
        some (filePlace r.mapShared inode address r.offset.toNat a) ∧
      wordAt patched.host.bytes (filePlace r.mapShared inode address r.offset.toNat a) =
        armUdfTrap := by
  have change := patchSections_patched scan
  obtain ⟨left, seen, plain⟩ := patchSections_complete scan scanned aligned
  obtain unchanged | stop := change.wordVia Page.readable aligned
  · rw [mapping.loaded low high (unchanged.symm.trans seen), code] at plain
    cases plain
  · rw [Host.wordVia, Option.map_eq_some_iff] at stop
    obtain ⟨place, readable, trap⟩ := stop
    obtain ⟨bytes, frame⟩ := change.frame
    have access : host.access Page.readable a = some place := by
      rw [frame] at readable
      exact (access_congr rfl rfl _ _).symm.trans readable
    have ends := mapping.whole ▸ high
    obtain rfl := granted_place mapping.granted rfl mapping.file low (by omega) access
    exact ⟨readable, trap⟩

/-- So the first byte of its word is not the file's. -/
theorem DataMapped.changed (dirty : m.PatchesData r e) :
    ∃ word, r.offset.toNat ≤ word ∧ word < m.image.host.size inode ∧
      (r.mapShared = false → word < r.offset.toNat + r.length) ∧
      patched.host.access (fun _ => true) (address + (word - r.offset.toNat)) =
        some (filePlace r.mapShared inode address r.offset.toNat
          (address + (word - r.offset.toNat))) ∧
      patched.host.bytes (filePlace r.mapShared inode address r.offset.toNat
        (address + (word - r.offset.toNat))) ≠ m.image.host.bytes ⟨some inode, word⟩ := by
  obtain ⟨other, sections, x, word, file, found, member, holds, first, last, low, high, even,
    inside, asked, code⟩ := dirty
  obtain rfl : inode = other := Option.some.inj (mapping.file.symm.trans file)
  obtain ⟨skipped, -⟩ | ⟨same, again, scan⟩ := mapping.sections
  · rw [found] at skipped
    cases skipped
  rw [found] at again
  cases again
  have start := mapping.startAligned
  have offset := mapping.offsetAligned
  refine ⟨word, low, inside, asked, ?_⟩
  generalize here : address + (word - r.offset.toNat) = a
  have back : r.offset.toNat + (a - address) = word := by omega
  have above : address ≤ a := by omega
  have below : a + 4 ≤ address + m.mappedLength r := by omega
  have aligned : a % 4 = 0 := by omega
  have window : r.offset.toNat + m.mappedLength r - r.offset.toNat = m.mappedLength r := by omega
  have scanned : Scanned sections address r.offset.toNat (r.offset.toNat + m.mappedLength r) a :=
    scanned_of_word member holds above (window.symm ▸ below) (window.symm ▸ mapping.fits)
      (back.symm ▸ first) (back.symm ▸ last) aligned
  obtain ⟨readable, trap⟩ := mapping.trap scan scanned above below aligned (back.symm ▸ code)
  refine ⟨access_weaken (fun _ _ => rfl) readable, ?_⟩
  intro equal
  have trapByte : (patched.host.bytes (filePlace r.mapShared inode address
      r.offset.toNat a)).toNat = 0xf0 := by
    rw [← wordAt_low, trap]
    rfl
  have fileByte : (m.image.host.shownWord r.mapShared inode word).toNat % 256 =
      (m.image.host.bytes ⟨some inode, word⟩).toNat := by
    rw [Host.shownWord, wordOf_low, shownByte_inside inside]
  exact patchable_low code (by rw [fileByte, ← equal, trapByte])

theorem DataMapped.base : patched.host.size = m.image.host.size ∧
    ∀ a, patched.host.access (fun _ => true) a = host.access (fun _ => true) a := by
  have size := (granted_files mapping.granted).size
  obtain ⟨-, skipped⟩ | ⟨sections, -, scan⟩ := mapping.sections
  · rw [skipped]
    exact ⟨size, fun _ => rfl⟩
  · obtain ⟨bytes, frame⟩ := (patchSections_patched scan).frame
    rw [frame]
    exact ⟨size, fun a => access_congr rfl rfl _ a⟩

end Data

/-- A file mapped without `PROT_EXEC` shows the file, and leaves it as it is, exactly
when there is no instruction to patch in its sections of code inside the mapping. -/
theorem data_mapping_shows_file_iff {m m' : Machine} {r : Registers} {e : MmapHost} {code : Int}
    (call : linuxMmap2 r e m = some (code, m')) (success : 0 ≤ code)
    (named : r.mapAnonymous = false) (data : r.r2 &&& 4 = 0) :
    ShowsFile m r code.toNat m' ↔ ¬ m.PatchesData r e := by
  obtain ⟨protection, address, inode, host, patched, rfl, mapping⟩ :=
    linuxMmap2_dataMapped call success named data
  have size : m'.image.host.size = m.image.host.size := mapping.size.trans mapping.base.1
  rw [Int.toNat_natCast]
  constructor
  · rintro ⟨other, file, shown, -, kept⟩ dirty
    obtain rfl : inode = other := Option.some.inj (mapping.file.symm.trans file)
    obtain ⟨word, low, inside, asked, access, differs⟩ := mapping.changed dirty
    rw [← mapping.bytes] at differs
    cases kind : r.mapShared with
    | true =>
      rw [kind, filePlace, if_pos rfl] at differs
      rw [show r.offset.toNat + (address + (word - r.offset.toNat) - address) = word by omega]
        at differs
      exact differs (kept word inside)
    | false =>
      have byte := shown (word - r.offset.toNat) (by have := asked kind; omega) (by omega)
      rw [Host.peekByte, mapping.access, access, Option.map_some, Option.some.injEq,
        show r.offset.toNat + (word - r.offset.toNat) = word by omega] at byte
      exact differs byte
  · intro clean
    refine ⟨inode, mapping.file, ?_, by rw [size], ?_⟩
    · intro i asked inside
      have room := le_pageCount_mul m.image.host r.length
      have back : r.offset.toNat + (address + i - address) = r.offset.toNat + i := by omega
      have there := granted_there mapping.granted rfl mapping.file (a := address + i) (by omega)
        (by omega) (by omega)
      rw [Host.peekByte, mapping.access, mapping.base.2, there, Option.map_some, mapping.bytes,
        mapping.kept clean (Or.inr ⟨i, asked, inside, rfl⟩),
        granted_byte mapping.granted rfl mapping.file (by omega) (by omega), back,
        shownByte_inside inside]
    · intro i inside
      rw [mapping.bytes, mapping.kept clean (Or.inl ⟨i, inside, rfl⟩)]
      exact (granted_files mapping.granted).bytes _ _

/-- The first page of descriptor 3, privately and for reading only. -/
def readOnly : Registers := ⟨0, 4096, 1, 0x2, 3, 0⟩

/-- A host whose descriptor 3 is a text file. -/
def textMachine : Machine :=
  { bareMachine with
    image := { bareMachine.image with
      host := { bareHost with bytes := fun p => if p.region = some 0 then 0x61 else 0 } } }

theorem text_file_shown :
    ShowsFile textMachine readOnly 0x20000000
      (after textMachine (linuxMmap2 readOnly (willingHost 0x20000000) textMachine)) := by
  refine (data_mapping_shows_file_iff (after_eq (show _ = some 0x20000000 by decide +kernel))
    (by decide) (by decide) (by decide)).mpr ?_
  rintro ⟨_, sections, _, _, _, found, -⟩
  have skipped : readSections textMachine.image.host readOnly.descriptor readOnly.offset
      (textMachine.mappedLength readOnly) (willingHost 0x20000000).elf = some .skip := by
    decide +kernel
  rw [skipped] at found
  cases found

/-- The executable of the small program, mapped to be read: byte 84 is zero in the file
and part of a trap in the mapping. Mapped shared and writable, the file has the trap. -/
theorem mapped_executable_shows_trap :
    Reached smallProgram ∧ 84 < smallProgram.image.host.size 0 ∧
    smallProgram.image.host.bytes ⟨some 0, 84⟩ = 0 ∧
    (linuxMmap2 readOnly (willingHost 0x20000000) smallProgram).map
      (fun (code, m) => (code, m.image.host.peekByte 0x20000054)) =
        some (0x20000000, some 0xf0) ∧
    (linuxMmap2 ⟨0, 4096, 3, 0x1, 3, 0⟩ (willingHost 0x20000000) smallProgram).map
      (fun (code, m) => (code, m.image.host.bytes ⟨some 0, 84⟩)) = some (0x20000000, 0xf0) := by
  exact ⟨⟨_, smallProgram_loaded, .start⟩, by decide +kernel⟩

end Linuxemu.Guest
