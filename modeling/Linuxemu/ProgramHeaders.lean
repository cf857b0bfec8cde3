import Linuxemu.LoadedObject

/-! The address that a loaded object gives for its program headers (`AT_PHDR`): what is in
memory there. -/
namespace Linuxemu.Guest
open Lib Registry

/-! ## The image by the addresses of the file -/

section
variable (o : ObjectFile)

theorem segmentByte_shift (file : Nat → UInt8) (base : Nat) (x : ElfProgramHeader) (v : Nat) :
    segmentByte file base x (base + v) = segmentByte file 0 x v := by
  have offset : base + v - (base + x.pVaddr) = v - (0 + x.pVaddr) := by omega
  unfold segmentByte
  rw [offset]
  exact if_congr (by omega) rfl rfl

theorem byte_shift (base v : Nat) : o.byte base (base + v) = o.byte 0 v := by
  have same : (fun x : ElfProgramHeader => x.loads && decide (base + x.pVaddr ≤ base + v) &&
      decide (base + v < base + x.pVaddr + x.pMemsz)) =
      fun x => x.loads && decide (0 + x.pVaddr ≤ v) && decide (v < 0 + x.pVaddr + x.pMemsz) := by
    funext x
    rw [decide_eq_decide.mpr (show base + x.pVaddr ≤ base + v ↔ 0 + x.pVaddr ≤ v by omega),
      decide_eq_decide.mpr (show base + v < base + x.pVaddr + x.pMemsz ↔
        v < 0 + x.pVaddr + x.pMemsz by omega)]
  unfold ObjectFile.byte
  rw [same]
  split
  · rfl
  · exact segmentByte_shift o.file base _ v

theorem word_shift (base v : Nat) : o.word base (base + v) = o.word 0 v := by
  unfold ObjectFile.word
  simp only [Nat.add_assoc, byte_shift]

theorem replaced_shift {base : Nat} (aligned : base % 4 = 0) (v : Nat) :
    o.replaced base (base + v) = o.replaced 0 v := by
  have sections : (fun x : ElfSection => x.codeAt base (base + v)) = (·.codeAt 0 v) := by
    funext x
    unfold ElfSection.codeAt
    rw [decide_eq_decide.mpr (show base + x.shAddr ≤ base + v ↔ 0 + x.shAddr ≤ v by omega),
      decide_eq_decide.mpr (show base + v < base + x.shAddr + x.shSize ↔
        v < 0 + x.shAddr + x.shSize by omega)]
  rw [ObjectFile.replaced, ObjectFile.replaced, ObjectFile.code, ObjectFile.code, word_shift,
    sections, decide_eq_decide.mpr (show (base + v) % 4 = 0 ↔ v % 4 = 0 by omega)]

/-- What the file makes of a byte of its image, with traps for the words that are replaced. -/
def ObjectFile.imageByte (v : Nat) : UInt8 :=
  if o.replaced 0 (v / 4 * 4) then byteOf armUdfTrap (v % 4) else o.byte 0 v

/-- A header that is loaded takes in these addresses. -/
def ObjectFile.LoadsRange (v length : Nat) : Prop :=
  ∃ y ∈ o.headers, y.loads = true ∧ y.pVaddr ≤ v ∧ v + length ≤ y.pVaddr + y.pMemsz

end

/-- Memory shows the image of the file. -/
theorem ObjectImage.shows {file : Nat → UInt8} {page : Nat} {object : ElfObject} {s : Image}
    (h : ObjectImage file page object s) {v length : Nat}
    (loads : (objectFile file).LoadsRange v length) {i : Nat} (inside : i < length) :
    s.host.peekByte (object.loadBias + v + i) = some ((objectFile file).imageByte (v + i)) := by
  obtain ⟨y, member, loaded, low, high⟩ := loads
  have base := h.base
  have place : object.loadBias + y.pVaddr + (v + i - y.pVaddr) = object.loadBias + (v + i) := by
    omega
  have holds := (h.rule y member loaded (v + i - y.pVaddr) (by omega)).1
  rw [place] at holds
  have word : (object.loadBias + (v + i)) / 4 * 4 = object.loadBias + (v + i) / 4 * 4 := by omega
  have rest : (object.loadBias + (v + i)) % 4 = (v + i) % 4 := by omega
  rw [Nat.add_assoc, (h.image _ holds).1, word, rest, replaced_shift _ base, byte_shift]
  rfl

/-! ## Traps in a table -/

/-- The trap differs from what it replaces at both ends. -/
theorem patchable_ends {word : UInt32} (code : patchable word = true) :
    byteOf word 0 ≠ byteOf armUdfTrap 0 ∧ byteOf word 3 ≠ byteOf armUdfTrap 3 := by
  constructor
  · intro same
    have low := congrArg UInt8.toNat same
    simp only [byteOf, Nat.pow_zero, Nat.div_one, UInt8.toNat_ofNat'] at low
    exact patchable_low code low
  · rw [patchable, Bool.or_eq_true, decide_eq_true_iff, decide_eq_true_iff] at code
    obtain rfl | read := code
    · decide
    · have bits := congrArg (fun w : UInt32 => w.toNat >>> 24) read
      simp only [UInt32.toNat_and, Nat.shiftRight_and_distrib] at bits
      have top : word.toNat >>> 24 = 0xee := by
        have small : word.toNat >>> 24 < 2 ^ 8 := by
          rw [Nat.shiftRight_eq_div_pow]
          have := word.toNat_lt
          omega
        have mask : armTpidruroMask.toNat >>> 24 = 2 ^ 8 - 1 := by decide
        rw [mask, Nat.and_two_pow_sub_one_eq_mod, Nat.mod_eq_of_lt small] at bits
        exact bits.trans (by decide)
      intro same
      have high := congrArg UInt8.toNat same
      rw [Nat.shiftRight_eq_div_pow] at top
      rw [byteOf, show 256 ^ 3 = 2 ^ 24 from rfl, top] at high
      exact absurd high (by decide)

/-- Some bytes of the file are in the image as they are exactly if no trap is put among
them. -/
theorem imageByte_eq_iff {o : ObjectFile} {v length : Nat} {content : Nat → UInt8}
    (long : 4 ≤ length) (plain : ∀ i, i < length → o.byte 0 (v + i) = content i) :
    (∀ i, i < length → o.imageByte (v + i) = content i) ↔
      ∀ a, o.replaced 0 a = true → a + 4 ≤ v ∨ v + length ≤ a := by
  constructor
  · intro kept a replaced
    by_contra meets
    obtain ⟨code, patch⟩ := Bool.and_eq_true_iff.mp replaced
    have aligned : a % 4 = 0 := by
      have := (Bool.and_eq_true_iff.mp code).1
      exact of_decide_eq_true this
    obtain ⟨first, last⟩ := patchable_ends patch
    -- the word at `a` reaches into the range with its first or with its last byte
    have byte (k : Nat) (small : k < 4) (low : v ≤ a + k) (high : a + k < v + length) :
        byteOf (o.word 0 a) k = byteOf armUdfTrap k := by
      have here := kept (a + k - v) (by omega)
      rw [← plain (a + k - v) (by omega), show v + (a + k - v) = a + k by omega,
        ObjectFile.imageByte, show (a + k) / 4 * 4 = a by omega, if_pos replaced,
        show (a + k) % 4 = k by omega] at here
      exact (byteOf_wordOf (fun k => o.byte 0 (a + k)) small).trans here.symm
    by_cases inside : v ≤ a
    · exact first (byte 0 (by omega) (by omega) (by omega))
    · exact last (byte 3 (by omega) (by omega) (by omega))
  · intro apart i inside
    rw [ObjectFile.imageByte, if_neg, plain i inside]
    intro replaced
    have := apart _ replaced
    omega

/-! ## The table -/

/-- `e_phoff`, and the size of the table. -/
def tableOffset (file : Nat → UInt8) : Nat := u32 (filePart file 0 52) 28

def tableSize (file : Nat → UInt8) : Nat := 32 * u16 (filePart file 0 52) 44

/-- The first `PT_LOAD` header with the table in its part of the file. -/
def tableHeader (file : Nat → UInt8) : Option ElfProgramHeader :=
  (objectFile file).headers.find? (·.coversTable (tableOffset file) (tableSize file))

/-- Where that header puts the table, before the base is added. -/
def tableAddress (file : Nat → UInt8) (x : ElfProgramHeader) : Nat :=
  (x.pVaddr + (tableOffset file - x.pOffset)) % 2 ^ 32

/-- No word of the table is replaced; or the header is not loaded, but the image of the other
segments happens to hold the same bytes. -/
def TableKept (file : Nat → UInt8) (x : ElfProgramHeader) : Prop :=
  if x.loads then
    ∀ a, (objectFile file).replaced 0 a = true →
      a + 4 ≤ tableAddress file x ∨ tableAddress file x + tableSize file ≤ a
  else
    (objectFile file).LoadsRange (tableAddress file x) (tableSize file) ∧
      ∀ i, i < tableSize file →
        (objectFile file).imageByte (tableAddress file x + i) = file (tableOffset file + i)

/-- The table is at this address: in one segment loaded for the object, byte by byte. -/
def TableShown (file : Nat → UInt8) (object : ElfObject) (s : Image) : Prop :=
  (∃ y ∈ (objectFile file).headers, y.loads = true ∧
    object.loadBias + y.pVaddr ≤ object.programHeaders ∧
    object.programHeaders + tableSize file ≤ object.loadBias + y.pVaddr + y.pMemsz) ∧
  ∀ i, i < tableSize file →
    s.host.peekByte (object.programHeaders + i) = some (file (tableOffset file + i))

section
variable {file : Nat → UInt8} {page : Nat} {object : ElfObject} {s : Image} {x : ElfProgramHeader}

section
variable (h : ObjectImage file page object s)
include h

theorem ObjectImage.address (nonzero : object.programHeaders ≠ 0) :
    ∃ x, tableHeader file = some x ∧
      object.programHeaders = (object.loadBias + tableAddress file x) % 2 ^ 32 := by
  have built := congrArg ElfObject.programHeaders h.built
  unfold elfObject programHeadersAddress at built
  dsimp only at built
  split at built
  · exact absurd built nonzero
  · rename_i x found
    refine ⟨x, found, ?_⟩
    rw [built, tableAddress, tableOffset]
    omega

/-- The address in memory stands for the one in the file. -/
theorem ObjectImage.tableShown_iff
    (place : object.programHeaders = (object.loadBias + tableAddress file x) % 2 ^ 32) :
    TableShown file object s ↔
      (objectFile file).LoadsRange (tableAddress file x) (tableSize file) ∧
        ∀ i, i < tableSize file →
          (objectFile file).imageByte (tableAddress file x + i) = file (tableOffset file + i) := by
  have small : tableAddress file x < 2 ^ 32 := Nat.mod_lt _ (by decide)
  have bytes (loads : (objectFile file).LoadsRange (tableAddress file x) (tableSize file))
      (same : object.programHeaders = object.loadBias + tableAddress file x) :
      (∀ i, i < tableSize file →
        s.host.peekByte (object.programHeaders + i) = some (file (tableOffset file + i))) ↔
      ∀ i, i < tableSize file →
        (objectFile file).imageByte (tableAddress file x + i) = file (tableOffset file + i) := by
    refine forall_congr' fun i => imp_congr_right fun inside => ?_
    rw [same, h.shows loads inside, Option.some.injEq]
  constructor
  · rintro ⟨⟨y, member, loaded, low, high⟩, shown⟩
    have fits := (h.fits y member loaded).1
    have same : object.programHeaders = object.loadBias + tableAddress file x := by omega
    have loads : (objectFile file).LoadsRange (tableAddress file x) (tableSize file) :=
      ⟨y, member, loaded, by omega, by omega⟩
    exact ⟨loads, (bytes loads same).mp shown⟩
  · rintro ⟨loads, shown⟩
    obtain ⟨y, member, loaded, low, high⟩ := loads
    have fits := (h.fits y member loaded).1
    have same : object.programHeaders = object.loadBias + tableAddress file x := by omega
    exact ⟨⟨y, member, loaded, by omega, by omega⟩,
      (bytes ⟨y, member, loaded, low, high⟩ same).mpr shown⟩

/-- A header that is loaded has the table where it says, but for traps. -/
theorem ObjectImage.table_plain (found : tableHeader file = some x) (loads : x.loads = true) :
    (objectFile file).LoadsRange (tableAddress file x) (tableSize file) ∧
      ∀ i, i < tableSize file →
        (objectFile file).byte 0 (tableAddress file x + i) = file (tableOffset file + i) := by
  have member := List.mem_of_find?_eq_some found
  have covers := List.find?_some found
  simp only [ElfProgramHeader.coversTable, Bool.and_eq_true, decide_eq_true_iff] at covers
  obtain ⟨⟨⟨-, start⟩, delta⟩, room⟩ := covers
  obtain ⟨fits, sizes⟩ := h.fits x member loads
  have place : tableAddress file x = x.pVaddr + (tableOffset file - x.pOffset) := by
    unfold tableAddress
    omega
  refine ⟨⟨x, member, loads, by omega, by omega⟩, fun i inside => ?_⟩
  have rule := (h.rule x member loads (tableOffset file - x.pOffset + i) (by omega)).2
  rw [if_pos (by omega), show x.pOffset + (tableOffset file - x.pOffset + i) =
    tableOffset file + i by omega, Nat.add_assoc, byte_shift] at rule
  rw [place, Nat.add_assoc]
  exact rule

theorem ObjectImage.tableKept_iff (found : tableHeader file = some x) :
    ((objectFile file).LoadsRange (tableAddress file x) (tableSize file) ∧
      ∀ i, i < tableSize file →
        (objectFile file).imageByte (tableAddress file x + i) = file (tableOffset file + i)) ↔
      TableKept file x := by
  unfold TableKept
  split
  · rename_i loads
    obtain ⟨range, plain⟩ := h.table_plain found loads
    have long : 4 ≤ tableSize file := by
      have := h.headers
      unfold tableSize
      omega
    rw [and_iff_right range, imageByte_eq_iff long plain]
  · exact Iff.rfl

end

end

/-- An object that gives an address for its program headers has its table there, unless the
header that the address comes from is not loaded or a trap is put into the table. -/
theorem program_headers_shown_iff {dynamicBias : Nat} {allowExecutable : Bool}
    {capacity : Option Nat} {e : LoadHost} {m n : Machine} {object : ElfObject}
    {interpreter : List UInt8} (loading : Loading m)
    (done : loadElfObject dynamicBias allowExecutable capacity e m =
      some (.ok (object, interpreter), n)) (nonzero : object.programHeaders ≠ 0) :
    ∃ descriptor inode x, e.opened = .ok descriptor ∧
      m.image.host.inode descriptor = some inode ∧
      let file := fun k => m.image.host.bytes ⟨some inode, k⟩
      tableHeader file = some x ∧ (TableShown file object n.image ↔ TableKept file x) := by
  obtain ⟨descriptor, inode, opened, found, shown⟩ := loadElfObject_image loading done
  obtain ⟨x, first, place⟩ := shown.address nonzero
  exact ⟨descriptor, inode, x, opened, found, first,
    (shown.tableShown_iff place).trans (shown.tableKept_iff first)⟩

theorem program_headers_shown_small :
    ∃ n, smallLoad = some (.ok (⟨0x10054, 0, 0x10034, 32, 1, 0x10058⟩, []), n) ∧
      TableShown (fun k => bareMachine.image.host.bytes ⟨some 0, k⟩)
        ⟨0x10054, 0, 0x10034, 32, 1, 0x10058⟩ n.image := by
  have result : smallLoad.map (·.1) =
      some (.ok (⟨0x10054, 0, 0x10034, 32, 1, 0x10058⟩, [])) := by decide +kernel
  obtain ⟨⟨outcome, n⟩, done, same⟩ := Option.map_eq_some_iff.mp result
  obtain rfl : outcome = .ok (⟨0x10054, 0, 0x10034, 32, 1, 0x10058⟩, []) := same
  obtain ⟨descriptor, inode, x, opened, found, first, shown⟩ :=
    program_headers_shown_iff (.start rfl rfl rfl fun _ => rfl) done (by decide)
  cases opened
  cases found
  generalize known : (fun k => bareMachine.image.host.bytes ⟨some 0, k⟩) = file at first shown
  have facts : tableHeader file = some ⟨⟨0, 0x10000, 88, 88, 5⟩, 1, 4⟩ ∧
      (objectFile file).sections = [⟨⟨1, 6, 0x54, 4⟩, 0x10054, 4⟩] ∧ tableSize file = 32 ∧
      tableAddress file ⟨⟨0, 0x10000, 88, 88, 5⟩, 1, 4⟩ = 0x10034 := by
    rw [← known]
    decide +kernel
  obtain ⟨header, sections, size, address⟩ := facts
  cases first.symm.trans header
  refine ⟨n, done, shown.mpr fun a replaced => ?_⟩
  rw [ObjectFile.replaced, ObjectFile.code, sections] at replaced
  simp only [List.any_cons, List.any_nil, Bool.or_false, ElfSection.codeAt, Bool.and_eq_true,
    decide_eq_true_iff] at replaced
  rw [address, size]
  omega

/-- An executable whose first header says where the whole file would be, but takes up no
memory; the second one is loaded. -/
def phantomFile : List UInt8 :=
  [0x7f, 0x45, 0x4c, 0x46, 1, 1, 1, 0, 0, 0, 0, 0, 0, 0, 0, 0,
    2, 0, 0x28, 0, 1, 0, 0, 0, 0x74, 0, 1, 0, 0x34, 0, 0, 0, 0x78, 0, 0, 0,
    0, 0, 0, 5, 0x34, 0, 0x20, 0, 2, 0, 0x28, 0, 1, 0, 0, 0,
    1, 0, 0, 0, 0, 0, 0, 0, 0, 0, 5, 0, 0, 0, 0, 0,
    0x78, 0, 0, 0, 0, 0, 0, 0, 5, 0, 0, 0, 4, 0, 0, 0,
    1, 0, 0, 0, 0, 0, 0, 0, 0, 0, 1, 0, 0, 0, 0, 0,
    0x78, 0, 0, 0, 0x78, 0, 0, 0, 5, 0, 0, 0, 4, 0, 0, 0,
    0, 0, 0, 0xef,
    0, 0, 0, 0, 1, 0, 0, 0, 6, 0, 0, 0, 0x74, 0, 1, 0, 0x74, 0, 0, 0,
    4, 0, 0, 0, 0, 0, 0, 0, 0, 0, 0, 0, 4, 0, 0, 0, 0, 0, 0, 0]

def phantomMachine : Machine :=
  { bareMachine with
    image := { bareMachine.image with
      host := { bareHost with
        bytes := fun p => if p.region = some 0 then phantomFile.getD p.index 0 else 0
        size := fun _ => phantomFile.length } } }

def phantomAnswers : LoadHost where
  opened := .ok 3
  stat := none
  header := [.upto 52]
  malloc := true
  headers := [.upto 64]
  interpreter := []
  attempt := fun _ => ⟨fun _ => ⟨.ok 0x10000, [.upto 120]⟩, true, [.upto 40], .enoexec⟩

def phantomLoad : Option (Except Errno (ElfObject × List UInt8) × Machine) :=
  loadElfObject mainEtDynBias true (some 1024) phantomAnswers phantomMachine

/-- The address it gives is not mapped at all. -/
theorem program_headers_unmapped :
    Loading phantomMachine ∧
      ∃ n, phantomLoad = some (.ok (⟨0x10074, 0, 0x50034, 32, 2, 0x10078⟩, []), n) ∧
        n.image.host.peekByte 0x50034 = none := by
  have result : phantomLoad.map (fun x => (x.1, x.2.image.host.peekByte 0x50034)) =
      some (.ok (⟨0x10074, 0, 0x50034, 32, 2, 0x10078⟩, []), none) := by decide +kernel
  obtain ⟨⟨outcome, n⟩, done, same⟩ := Option.map_eq_some_iff.mp result
  obtain ⟨rfl, unmapped⟩ := Prod.mk.inj same
  exact ⟨.start rfl rfl rfl fun _ => rfl, n, done, unmapped⟩

end Linuxemu.Guest
