import Linuxemu.Host
import Linuxemu.Registry

/-! Instruction patching (`arm_patch.c`): the patch table, the scan that replaces
system calls and thread-pointer reads by a trap, and the scan of a mapped ELF file. -/
namespace Linuxemu.Guest
open Lib Registry

def maxPatches : Nat := 4096

def armLinuxSvc0 : UInt32 := 0xef000000
def armTpidruroMask : UInt32 := 0xffff0fff
def armTpidruroRead : UInt32 := 0xee1d0f70
def armUdfTrap : UInt32 := 0xe7f000f0

def patchable (word : UInt32) : Bool :=
  decide (word = armLinuxSvc0) || decide (word &&& armTpidruroMask = armTpidruroRead)

/-- `struct patch_record`. -/
structure PatchRecord where
  address : Nat
  original : UInt32
  deriving DecidableEq, Repr

/-- Host memory and the patch table. `trapped` is history: the instruction over
which `arm_patch_range` last stored the trap at an address, while neither a guest
store, a rollback nor another mapping has taken the trap away. -/
structure Image where
  host : Host
  patches : List PatchRecord
  trapped : Nat → Option UInt32

/-- Record the instruction and put the trap in its place. -/
def Image.trap (s : Image) (address : Nat) (word : UInt32) : Option Image :=
  (s.host.storeWord address armUdfTrap).map fun host =>
    { host
      patches := s.patches ++ [⟨address, word⟩]
      trapped := fun a => if a = address then some word else s.trapped a }

/-- The scan of `arm_patch_range` over the next `count` words. The first component
of a result is the error, if any; no result at all is a fault in the emulator. -/
def patchWords : Nat → Nat → Image → Option (Option Errno × Image)
  | 0, _, s => some (none, s)
  | count + 1, address, s =>
    match s.host.loadWord address with
    | none => none
    | some word =>
      if !patchable word then patchWords count (address + 4) s
      else if s.patches.length = maxPatches then some (some .e2big, s)
      else match s.trap address word with
        | none => none
        | some s => patchWords count (address + 4) s

def armPatchRange (start length : Nat) (s : Image) : Option (Option Errno × Image) :=
  if start % 4 ≠ 0 ∨ length % 4 ≠ 0 ∨ uintptrMax - start < length then some (some .enoexec, s)
  else patchWords (length / 4) start s

def armPatchOriginal (patches : List PatchRecord) (address : Nat) : Option UInt32 :=
  (patches.find? fun r => r.address = address).map PatchRecord.original

def armPatchForgetRange (address length : Nat) (s : Image) : Image :=
  let stop := if uintptrMax - address < length then uintptrMax else address + length
  { s with
    patches := s.patches.filter fun r => decide (r.address < address) || decide (stop ≤ r.address) }

/-- Put these instructions back, in this order. -/
def Image.restore : List PatchRecord → Image → Option Image
  | [], s => some s
  | r :: rest, s =>
    match s.host.storeWord r.address r.original with
    | none => none
    | some host =>
      Image.restore rest
        { s with host, trapped := fun a => if a = r.address then none else s.trapped a }

/-- The newest record goes first. -/
def armPatchRollback (retained : Nat) (s : Image) : Option Image :=
  Image.restore (s.patches.drop retained).reverse { s with patches := s.patches.take retained }

/-! ## Mapped ELF files -/

def u16 (bytes : List UInt8) (i : Nat) : Nat :=
  (bytes.getD i 0).toNat + 256 * (bytes.getD (i + 1) 0).toNat

def u32 (bytes : List UInt8) (i : Nat) : Nat := u16 bytes i + 65536 * u16 bytes (i + 2)

/-- The checks of `arm_patch_elf_mapping` on an `Elf32_Ehdr`. -/
def armElfHeader (header : List UInt8) : Bool :=
  decide (header.take 6 = [0x7f, 0x45, 0x4c, 0x46, 1, 1]) && decide (u16 header 18 = 40) &&
    decide (u16 header 48 ≠ 0) && decide (u16 header 46 = 40)

/-- The fields of an `Elf32_Shdr` that patching reads. -/
structure Section where
  shType : Nat
  shFlags : Nat
  shOffset : Nat
  shSize : Nat
  deriving DecidableEq, Repr

def sectionAt (table : List UInt8) (i : Nat) : Section :=
  ⟨u32 table (40 * i + 4), u32 table (40 * i + 8), u32 table (40 * i + 16), u32 table (40 * i + 20)⟩

/-- How the host answers while the section table is read. -/
structure ElfReads where
  stat : Option Errno
  header : List Pread
  malloc : Bool
  table : List Pread

inductive SectionTable where
  | skip
  | failed (errno : Errno)
  | found (sections : List Section)
  deriving DecidableEq

/-- `arm_patch_elf_mapping` up to its loop. A file that is not an ARM ELF file with
a complete section table is skipped. -/
def readSections (h : Host) (descriptor offset : Int) (length : Nat) (e : ElfReads) :
    Option SectionTable :=
  if descriptor < 0 ∨ offset < 0 ∨ length = 0 then some .skip
  else match h.fstat descriptor e.stat with
  | .error _ => some .skip
  | .ok size =>
    match h.readExactAt descriptor 52 0 e.header with
    | none => none
    | some (.error _) => some .skip
    | some (.ok header) =>
      let tableSize := u16 header 48 * 40
      if !armElfHeader header then some .skip
      else if size < u32 header 32 ∨ size - u32 header 32 < tableSize then some .skip
      else if !e.malloc then some (.failed .enomem)
      else match h.readExactAt descriptor tableSize (u32 header 32) e.table with
        | none => none
        | some (.error errno) => some (.failed errno)
        | some (.ok table) => some (.found ((List.range (u16 header 48)).map (sectionAt table)))

/-- `SHT_PROGBITS` with `SHF_EXECINSTR`. -/
def Section.holdsCode (x : Section) : Bool :=
  decide (x.shType = 1) && decide (x.shFlags &&& 4 ≠ 0)

/-- The inner loop: step to a word boundary of the mapping. -/
def alignedStart (address mappingStart patchStart patchEnd : Nat) : Nat :=
  if patchStart < patchEnd ∧ (address + (patchStart - mappingStart)) % 4 ≠ 0 then
    alignedStart address mappingStart (patchStart + 1) patchEnd
  else patchStart
termination_by patchEnd - patchStart

/-- The file range of a section that is patched: inside the mapping, in whole words. -/
def Section.patchRange (x : Section) (address mappingStart mappingEnd : Nat) :
    Option (Nat × Nat) :=
  let sectionEnd := x.shOffset + x.shSize
  if !x.holdsCode ∨ x.shSize = 0 ∨ mappingEnd ≤ x.shOffset ∨ sectionEnd ≤ mappingStart then none
  else
    let patchEnd := min sectionEnd mappingEnd
    let patchStart := alignedStart address mappingStart (max x.shOffset mappingStart) patchEnd
    let patchEnd := patchEnd - (patchEnd - patchStart) % 4
    if patchStart < patchEnd then some (patchStart, patchEnd) else none

def patchSections (address mappingStart mappingEnd : Nat) :
    List Section → Image → Option (Option Errno × Image)
  | [], s => some (none, s)
  | x :: rest, s =>
    match x.patchRange address mappingStart mappingEnd with
    | none => patchSections address mappingStart mappingEnd rest s
    | some (patchStart, patchEnd) =>
      match armPatchRange ((address + (patchStart - mappingStart)) % 2 ^ 32)
          (patchEnd - patchStart) s with
      | some (none, s) => patchSections address mappingStart mappingEnd rest s
      | stopped => stopped

def armPatchElfMapping (descriptor offset : Int) (address length : Nat) (e : ElfReads)
    (s : Image) : Option (Option Errno × Image) :=
  match readSections s.host descriptor offset length e with
  | none => none
  | some .skip => some (none, s)
  | some (.failed errno) => some (some errno, s)
  | some (.found sections) =>
    patchSections address offset.toNat (offset.toNat + length) sections s

end Linuxemu.Guest
