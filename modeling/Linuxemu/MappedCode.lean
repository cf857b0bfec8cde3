import Linuxemu.FileMapping
import Linuxemu.FileReads

/-! `arm_patch_elf_mapping` on a mapped file: which words of the mapping become traps,
what is recorded and what stays. -/
namespace Linuxemu.Guest
open Lib Registry

/-- The sections of the file, if it is an ARM ELF file with its section table inside. -/
def Host.elfSections (h : Host) (inode : Nat) : List Section :=
  let header := h.slice inode 0 52
  let count := u16 header 48
  if 52 ≤ h.size inode ∧ armElfHeader header = true ∧
      u32 header 32 + count * 40 ≤ h.size inode then
    (List.range count).map (sectionAt (h.slice inode (u32 header 32) (count * 40)))
  else []

/-- A word of the window, inside a section of code, that holds an instruction to patch. -/
structure MappedCode (s : Image) (inode offset address length a : Nat) (word : UInt32) : Prop where
  aligned : a % 4 = 0
  low : address ≤ a
  high : a + 4 ≤ address + length
  code : ∃ x ∈ s.host.elfSections inode, x.holdsCode = true ∧
    x.shOffset ≤ offset + (a - address) ∧ offset + (a - address) + 4 ≤ x.shOffset + x.shSize
  loaded : s.host.loadWord a = some word
  patched : patchable word = true

/-- From one image to another exactly these instructions have become traps. -/
structure TrapsExactly (code : Nat → UInt32 → Prop) (window : Nat → Prop) (s t : Image) :
    Prop where
  records : ∃ new, t.patches = s.patches ++ new ∧ (new.map PatchRecord.address).Nodup ∧
    ∀ r, r ∈ new ↔ code r.address r.original
  trapped : ∀ a w, code a w → t.host.loadWord a = some armUdfTrap
  others : ∀ a, window a → a % 4 = 0 → (∀ w, ¬ code a w) → t.host.loadWord a = s.host.loadWord a
  bytes : ∀ p, t.host.bytes p ≠ s.host.bytes p → ∃ a w place, code a w ∧
    s.host.access Page.writable a = some place ∧ place.covers p = true
  frame : ∃ bytes, t.host = { s.host with bytes }

/-- A mapping of a file shows every place once. -/
theorem granted_shownOnce {h after : Host} {requested length : Nat} {protection : Protection}
    {flags : MapFlags} {descriptor offset : Int} {result inode : Nat}
    (granted : h.Granted requested length protection flags descriptor offset result after)
    (named : flags.anonymous = false) (file : h.inode descriptor = some inode) :
    after.ShownOnce fun a => result ≤ a ∧ a < result + h.pageCount length * h.pageSize.bytes := by
  rintro a b place ⟨lowA, highA⟩ ⟨lowB, highB⟩ foundA foundB
  have placeA := granted_place granted named file lowA highA foundA
  have placeB := granted_place granted named file lowB highB foundB
  have same := placeA.symm.trans placeB
  unfold filePlace at same
  split at same
  · rw [Place.mk.injEq] at same
    omega
  · rw [Place.mk.injEq] at same
    exact same.2

/-! ## The section table -/

section Sections
variable {h : Host} {descriptor : Int} {inode offset length size : Nat} {e : ElfReads}
  (opened : 0 ≤ descriptor) (file : h.inode descriptor = some inode)
  (stat : h.fstat descriptor e.stat = .ok size)
include file

include stat

/-- The table that is found is that of the file. -/
theorem readSections_found {sections : List Section}
    (found : readSections h descriptor offset length e = some (.found sections)) :
    sections = h.elfSections inode := by
  have whole := fstat_size file stat
  rw [readSections, stat] at found
  split at found
  · cases found
  dsimp only at found
  split at found
  · cases found
  · cases found
  · rename_i header read
    split at found
    · cases found
    rename_i arm
    split at found
    · cases found
    rename_i complete
    split at found
    · cases found
    split at found
    · cases found
    · cases found
    · rename_i table tableRead
      cases found
      have long := (readExactAt_ok file read).2
      have first := readExactAt_slice file read
      have second := readExactAt_slice file tableRead
      subst first second
      rw [Host.elfSections, if_pos ⟨by omega, by simpa using arm, by omega⟩]

include opened

/-- A file is skipped when it has no such table. -/
theorem readSections_skipped
    (header : 52 ≤ h.size inode → ∃ bytes, h.readExactAt descriptor 52 0 e.header = some (.ok bytes))
    (skipped : readSections h descriptor offset length e = some .skip) :
    length = 0 ∨ h.elfSections inode = [] := by
  have whole := fstat_size file stat
  by_cases empty : length = 0
  · exact Or.inl empty
  right
  by_cases long : 52 ≤ h.size inode
  · obtain ⟨bytes, read⟩ := header long
    have first := readExactAt_slice file read
    rw [readSections, stat, if_neg (by omega)] at skipped
    dsimp only at skipped
    rw [read] at skipped
    dsimp only at skipped
    rw [Host.elfSections, ← first]
    split at skipped
    · rename_i other
      rw [if_neg]
      rintro ⟨-, arm, -⟩
      simp [arm] at other
    split at skipped
    · rename_i cut
      rw [if_neg]
      rintro ⟨-, -, complete⟩
      omega
    split at skipped
    · cases skipped
    split at skipped
    · cases skipped
    · cases skipped
    · cases skipped
  · rw [Host.elfSections, if_neg fun all => long all.1]

end Sections

/-! ## The mapping -/

/-- Without code nothing happens. -/
theorem TrapsExactly.nothing {code : Nat → UInt32 → Prop} (window : Nat → Prop) (s : Image)
    (none : ∀ a w, ¬ code a w) : TrapsExactly code window s s where
  records := ⟨[], by simp, by simp, fun r => by simp [none]⟩
  trapped a w here := absurd here (none a w)
  others _ _ _ _ := rfl
  bytes _ changed := absurd rfl changed
  frame := ⟨_, rfl⟩

/-- The scan of sections traps the code in them. -/
theorem patchSections_exact {inode offset address length : Nat} {s t : Image}
    (fits : address + length ≤ 2 ^ 32)
    (once : s.host.ShownOnce fun a => address ≤ a ∧ a < address + length)
    (done : patchSections address offset (offset + length) (s.host.elfSections inode) s =
      some (none, t)) :
    TrapsExactly (MappedCode s inode offset address length)
      (fun a => address ≤ a ∧ a < address + length) s t := by
  have span : offset + length - offset = length := Nat.add_sub_cancel_left _ _
  have patched := patchSections_patched done
  have word {a : Nat} {w : UInt32} (even : a % 4 = 0)
      (scanned : Scanned (s.host.elfSections inode) address offset (offset + length) a)
      (loaded : s.host.loadWord a = some w) (code : patchable w = true) :
      MappedCode s inode offset address length a w := by
    obtain ⟨low, high, inSection⟩ := scanned.word (by rwa [span]) even
    rw [span] at high
    exact ⟨even, low, high, inSection, loaded, code⟩
  obtain ⟨new, records, nodup, each, rest⟩ := patched.new (fun a scanned => by
    have := scanned.inside (by rwa [span])
    rwa [span] at this) once
  -- every word of code is scanned, and none is left after the scan
  have recorded {a : Nat} {w : UInt32} (here : MappedCode s inode offset address length a w) :
      ⟨a, w⟩ ∈ new := by
    obtain ⟨x, member, code, low, high⟩ := here.code
    have scanned := scanned_of_word member code here.low (by rw [span]; exact here.high)
      (by rwa [span]) low high here.aligned
    obtain ⟨left, seen, plain⟩ := patchSections_complete done scanned here.aligned
    have changed : a ∈ new.map PatchRecord.address := by
      by_contra absent
      have below : a < address + length := Nat.lt_of_lt_of_le (by omega) here.high
      rw [(rest a absent).2 ⟨here.low, below⟩ here.aligned, here.loaded,
        Option.some.injEq] at seen
      rw [← seen, here.patched] at plain
      cases plain
    obtain ⟨r, known, rfl⟩ := List.mem_map.mp changed
    have old := (each r known).2.2.1
    rw [here.loaded, Option.some.injEq] at old
    rwa [old]
  constructor
  · refine ⟨new, records, nodup, ?_⟩
    intro r
    constructor
    · intro member
      obtain ⟨scanned, even, loaded, code, -⟩ := each r member
      exact word even scanned loaded code
    · exact recorded
  · intro a w here
    exact (each _ (recorded here)).2.2.2.2.1
  · intro a window even plain
    refine (rest a ?_).2 window even
    intro changed
    obtain ⟨r, member, rfl⟩ := List.mem_map.mp changed
    obtain ⟨scanned, -, loaded, code, -⟩ := each r member
    exact plain _ (word even scanned loaded code)
  · intro p changed
    obtain same | ⟨a, w, place, scanned, even, loaded, code, found, covers⟩ := patched.byte p
    · exact absurd same changed
    · exact ⟨a, w, place, word even scanned loaded code, found, covers⟩
  · exact patched.frame

/-- Where patching a mapped file succeeds, the traps are exactly the instructions to patch
that lie in the window and in a section of code of the file. -/
theorem elf_patching_exact {descriptor : Int} {inode offset address length size : Nat}
    {e : ElfReads} {s t : Image} (opened : 0 ≤ descriptor)
    (file : s.host.inode descriptor = some inode)
    (stat : s.host.fstat descriptor e.stat = .ok size)
    (header : 52 ≤ s.host.size inode →
      ∃ bytes, s.host.readExactAt descriptor 52 0 e.header = some (.ok bytes))
    (fits : address + length ≤ 2 ^ 32)
    (once : s.host.ShownOnce fun a => address ≤ a ∧ a < address + length)
    (done : armPatchElfMapping descriptor offset address length e s = some (none, t)) :
    TrapsExactly (MappedCode s inode offset address length)
      (fun a => address ≤ a ∧ a < address + length) s t := by
  obtain ⟨skipped, rfl⟩ | ⟨sections, found, patched⟩ := armPatchElfMapping_cases done
  · apply TrapsExactly.nothing
    intro a w here
    obtain empty | none := readSections_skipped opened file stat header skipped
    · have := here.low
      have := here.high
      omega
    · obtain ⟨x, member, -⟩ := here.code
      rw [none] at member
      cases member
  · obtain rfl := readSections_found file stat found
    exact patchSections_exact fits once patched

/-- The file of `bareHost`, mapped for reading and writing. -/
def fileMapped : Image where
  host := bareHost.map 0x20000000 4096 ⟨true, true, false⟩ ⟨false, false, false⟩ (some 0) 0
  patches := []
  trapped := fun _ => none

def fileReads : ElfReads := ⟨none, [.upto 52], true, [.upto 40]⟩

def filePatched : Option (Option Errno × Image) :=
  armPatchElfMapping 3 (0 : Nat) 0x20000000 4096 fileReads fileMapped

theorem elf_patching_one_call :
    MappedCode fileMapped 0 0 0x20000000 4096 0x20000054 armLinuxSvc0 ∧
    TrapsExactly (MappedCode fileMapped 0 0 0x20000000 4096)
      (fun a => 0x20000000 ≤ a ∧ a < 0x20000000 + 4096) fileMapped (after fileMapped filePatched) := by
  have granted : bareHost.Granted 0 4096 ⟨true, true, false⟩ ⟨false, false, false⟩ 3 0 0x20000000
      fileMapped.host := by
    apply mmap_granted (show _ = Except.ok (0x20000000, fileMapped.host) from ?_)
    · exact .ok 0x20000000
    · rfl
  have stat : fileMapped.host.fstat 3 fileReads.stat = .ok (fileMapped.host.size 0) :=
    fstat_ok rfl (by decide +kernel)
  constructor
  · exact ⟨by decide, by decide, by decide, ⟨⟨1, 6, 0x54, 4⟩, by decide +kernel, by decide, by decide,
      by decide⟩, by decide +kernel, by decide⟩
  · exact elf_patching_exact (by decide) (by decide +kernel) stat
      (fun _ => readExactAt_once rfl (by decide +kernel) (by decide)) (by decide)
      (granted_shownOnce granted rfl rfl) (after_eq (show _ = some none by decide +kernel))

end Linuxemu.Guest
