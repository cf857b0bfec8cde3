import Linuxemu.GuestMemory

/-! The memory system calls of `linux_syscall.c`: `mmap2`, `mprotect`, `munmap`, `brk`. -/
namespace Linuxemu.Guest
open Lib Registry

/-- A 32-bit value read as signed, as `int` and `off_t` are on the host. -/
def signed32 (n : Nat) : Int :=
  if n % 2 ^ 32 < 2 ^ 31 then n % 2 ^ 32 else (n % 2 ^ 32 : Nat) - 2 ^ 32

def linuxError (errno : Errno) : Int := -(linuxErrnoNumber errno)

/-- `-EINVAL`, `-ENOMEM` and `-EACCES`, whose host and Linux numbers agree. -/
def einval : Int := -22
def enomem : Int := -12
def eacces : Int := -13

/-- The host's own `-EOPNOTSUPP`, which the source returns untranslated. -/
def hostEopnotsupp : Int := -103

def translateProtection (linuxProtection : UInt32) : Option Protection :=
  if linuxProtection &&& ~~~7 ≠ 0 then none
  else some ⟨decide (linuxProtection &&& 1 ≠ 0), decide (linuxProtection &&& 2 ≠ 0),
    decide (linuxProtection &&& 4 ≠ 0)⟩

/-- `length == 0 || length > SIZE_MAX - (host_page_size - 1)`. -/
def Machine.badLength (m : Machine) (length : Nat) : Bool :=
  decide (length = 0) || decide (uintptrMax - (m.pageBytes - 1) < length)

/-! ## mmap2 -/

structure Registers where
  r0 : UInt32
  r1 : UInt32
  r2 : UInt32
  r3 : UInt32
  r4 : UInt32
  r5 : UInt32
  deriving DecidableEq, Repr

def Registers.flag (r : Registers) (bit : UInt32) : Bool := decide (r.r3 &&& bit ≠ 0)
def Registers.mapShared (r : Registers) : Bool := r.flag 0x1
def Registers.mapPrivate (r : Registers) : Bool := r.flag 0x2
def Registers.mapFixed (r : Registers) : Bool := r.flag 0x10
def Registers.mapAnonymous (r : Registers) : Bool := r.flag 0x20
def Registers.address (r : Registers) : Nat := r.r0.toNat
def Registers.length (r : Registers) : Nat := r.r1.toNat
def Registers.descriptor (r : Registers) : Int := signed32 r.r4.toNat
def Registers.offset (r : Registers) : Int := signed32 (r.r5.toNat * 4096)

/-- How the host answers during one `mmap2`. -/
structure MmapHost where
  mmap : Except Errno Nat
  stat : Option Errno
  copy : List Pread
  elf : ElfReads
  msync : Option Errno
  mprotect : Option Errno

/-- The checks before the host call, in the source's order; the guest's protection
if all pass. -/
def Machine.checkMmap2 (m : Machine) (r : Registers) : Except Int Protection :=
  match translateProtection r.r2 with
  | none => .error einval
  | some protection =>
    if r.r3 &&& ~~~0x33 ≠ 0 then .error einval
    else if r.mapShared && r.mapPrivate then .error einval
    else if !r.mapShared && !r.mapPrivate then .error einval
    else if m.badLength r.length then .error einval
    else if r.mapFixed && (decide (r.address % m.pageBytes ≠ 0) ||
        !m.guestMemoryRuntimeOwned r.address (alignUp r.length m.pageBytes)) then .error enomem
    else if r.mapShared && protection.exec then .error hostEopnotsupp
    else .ok protection

/-- `copy_executable_file`. -/
def Registers.copies (r : Registers) (protection : Protection) : Bool :=
  r.mapPrivate && !r.mapAnonymous && protection.exec

def Registers.hostFlags (r : Registers) (protection : Protection) : MapFlags :=
  ⟨r.mapShared, r.mapFixed, r.mapAnonymous || r.copies protection⟩

/-- `mapping_protection`: a private file is first mapped writable and not executable. -/
def Registers.mappingProtection (r : Registers) (protection : Protection) : Protection :=
  if r.mapPrivate && !r.mapAnonymous then ⟨true, true, false⟩ else protection

/-- Undo of a failed call once the patch table may name the mapping. -/
def Machine.abandon (m : Machine) (address length : Nat) : Machine :=
  { m with image := armPatchForgetRange address length m.image }.munmap address length

/-- The file bytes of an executable private mapping are read into anonymous memory. -/
def Machine.copyExecutableFile (m : Machine) (r : Registers) (e : MmapHost) (address : Nat) :
    Option (Except Int Machine) :=
  match m.image.host.fstat r.descriptor e.stat with
  | .error errno => some (.error (linuxError errno))
  | .ok size =>
    if r.offset < 0 ∨ size < r.offset then some (.error einval)
    else
      let left := size - r.offset.toNat
      let fileBytes := if left < signed32 r.length then left else r.length
      match m.image.host.readExactAt r.descriptor fileBytes r.offset.toNat e.copy with
      | none => none
      | some (.error errno) => some (.error (linuxError errno))
      | some (.ok bytes) =>
        some (.ok { m with
          image := { m.image with
            host := m.image.host.fill address fileBytes fun k => bytes.getD k 0 } })

/-- The last step, `guest_memory_runtime_map`. -/
def Machine.registerMapping (m : Machine) (protection : Protection) (address length : Nat) :
    Int × Machine :=
  let reply := guestMemoryRuntimeMap m.registry address length (if protection.exec then 1 else 0)
  let m := { m with registry := reply.table }
  if reply.code ≠ 0 then (linuxError (reply.errno.getD .enomem), m.abandon address length)
  else (address, m)

/-- Instruction cache, final protection and registration. -/
def Machine.settleMapping (m : Machine) (r : Registers) (e : MmapHost) (protection : Protection)
    (address length : Nat) : Int × Machine :=
  match if protection.exec then e.msync else none with
  | some errno => (linuxError errno, m.abandon address length)
  | none =>
    if r.mappingProtection protection = protection then m.registerMapping protection address length
    else match m.mprotect address length protection e.mprotect with
    | (some errno, m) => (linuxError errno, m.abandon address length)
    | (none, m) => m.registerMapping protection address length

/-- Forget what was patched there before, patch the file's code, settle. -/
def Machine.patchMapping (m : Machine) (r : Registers) (e : MmapHost) (protection : Protection)
    (address length : Nat) : Option (Int × Machine) :=
  let image := armPatchForgetRange address length m.image
  match if r.mapAnonymous then some (none, image)
    else armPatchElfMapping r.descriptor r.offset address length e.elf image with
  | none => none
  | some (some errno, image) => some (linuxError errno, { m with image }.abandon address length)
  | some (none, image) => some ({ m with image }.settleMapping r e protection address length)

/-- The call once the host has mapped the pages. -/
def Machine.finishMmap2 (m : Machine) (r : Registers) (e : MmapHost) (protection : Protection)
    (address length : Nat) : Option (Int × Machine) :=
  if address < guestMinAddress ∨ guestMaxAddress ≤ address ∨ guestMaxAddress - address < length
  then some (enomem, m.munmap address length)
  else
    match if r.copies protection then m.copyExecutableFile r e address else some (.ok m) with
    | none => none
    | some (.error code) => some (code, m.munmap address length)
    | some (.ok m) => m.patchMapping r e protection address length

/-- `linux_mmap2`; no result is a fault of the emulator or a host read that never ends. -/
def linuxMmap2 (r : Registers) (e : MmapHost) (m : Machine) : Option (Int × Machine) :=
  match m.checkMmap2 r with
  | .error code => some (code, m)
  | .ok protection =>
    match m.mmap r.address r.length (r.mappingProtection protection) (r.hostFlags protection)
      (if r.copies protection then -1 else r.descriptor)
      (if r.copies protection then 0 else r.offset) e.mmap with
    | (.error errno, m) => some (linuxError errno, m)
    | (.ok address, m) =>
      m.finishMmap2 r e protection address (alignUp r.length m.pageBytes)

/-! ## mprotect -/

/-- How the host answers during one `mprotect`: the call that opens the pages for
patching, `msync`, the call that closes them after a failure, and the last call.
`stale` is the `errno` left by earlier calls. -/
structure MprotectHost where
  unlock : Option Errno
  msync : Option Errno
  relock : Option Errno
  final : Option Errno
  stale : Errno

/-- Roll the new patches back and give the pages their protection. -/
def Machine.undoPatches (m : Machine) (patchesBefore address length : Nat)
    (protection : Protection) (errno : Errno) (e : MprotectHost) : Option (Int × Machine) :=
  match armPatchRollback patchesBefore m.image with
  | none => none
  | some image =>
    some (linuxError errno, ({ m with image }.mprotect address length protection e.relock).2)

def Machine.finalProtect (m : Machine) (patchesBefore address length : Nat)
    (protection : Protection) (e : MprotectHost) : Option (Int × Machine) :=
  match m.mprotect address length protection e.final with
  | (some errno, m) =>
    match if protection.exec then armPatchRollback patchesBefore m.image else some m.image with
    | none => none
    | some image => some (linuxError errno, { m with image })
  | (none, m) =>
    let reply := guestMemoryRuntimeProtect m.registry address length
      (if protection.exec then 1 else 0)
    some (if reply.code ≠ 0 then linuxError (reply.errno.getD e.stale) else 0,
      { m with registry := reply.table })

/-- `mprotect` of a range the registry owns. -/
def Machine.protectRuntime (m : Machine) (address length : Nat) (protection : Protection)
    (e : MprotectHost) : Option (Int × Machine) :=
  let patchesBefore := m.image.patches.length
  if !protection.exec then m.finalProtect patchesBefore address length protection e
  else match m.mprotect address length ⟨true, true, true⟩ e.unlock with
  | (some errno, m) => some (linuxError errno, m)
  | (none, m) =>
    match armPatchRange address length m.image with
    | none => none
    | some (some errno, image) =>
      { m with image }.undoPatches patchesBefore address length protection errno e
    | some (none, image) =>
      let m := { m with image }
      match e.msync with
      | some errno => m.undoPatches patchesBefore address length protection errno e
      | none => m.finalProtect patchesBefore address length protection e

/-- `mprotect` of any other range: inside a load segment only, and never newly executable. -/
def Machine.protectSegment (m : Machine) (address length : Nat) (protection : Protection)
    (e : MprotectHost) : Int × Machine :=
  if !m.guestMemoryRangeOwned address length then (enomem, m)
  else if protection.exec && !m.guestMemoryIsExecutable address length then (eacces, m)
  else match m.mprotect address length protection e.final with
  | (some errno, m) => (linuxError errno, m)
  | (none, m) => (0, m)

def linuxMprotectRuntime (address length protection : UInt32) (e : MprotectHost) (m : Machine) :
    Option (Int × Machine) :=
  match translateProtection protection with
  | none => some (einval, m)
  | some protection =>
    if address.toNat % m.pageBytes ≠ 0 ∨ m.badLength length.toNat then some (einval, m)
    else
      let mapped := alignUp length.toNat m.pageBytes
      if m.guestMemoryRuntimeOwned address.toNat mapped then
        m.protectRuntime address.toNat mapped protection e
      else some (m.protectSegment address.toNat mapped protection e)

/-! ## munmap -/

/-- How the host answers, and where the caller's stack is. -/
structure MunmapHost where
  activeStack : Option Nat
  munmap : Option Errno

def linuxMunmapRuntime (address length : UInt32) (e : MunmapHost) (m : Machine) : Int × Machine :=
  if address.toNat % m.pageBytes ≠ 0 ∨ m.badLength length.toNat then (einval, m)
  else
    let mapped := alignUp length.toNat m.pageBytes
    if !m.guestMemoryRuntimeOwned address.toNat mapped then (einval, m)
    else match guestThreadDeferActiveStackUnmap address.toNat mapped e.activeStack m with
    | some m => (0, m)
    | none =>
      match e.munmap with
      | some errno => (linuxError errno, m.note .munmap address.toNat mapped)
      | none =>
        let m := m.munmap address.toNat mapped
        (0, { m with
          image := armPatchForgetRange address.toNat mapped m.image
          registry := guestMemoryRuntimeUnmap m.registry address.toNat mapped })

/-! ## Calls -/

inductive MemoryCall where
  | mmap2 (r : Registers) (e : MmapHost)
  | mprotect (address length protection : UInt32) (e : MprotectHost)
  | munmap (address length : UInt32) (e : MunmapHost)
  | brk (requested : UInt32) (outcome : Except Errno Nat)

/-- The machine at the start of a call, which has received nothing yet. -/
def Machine.entered (m : Machine) : Machine := { m with received := none }

/-- One system call. -/
def Machine.call (m : Machine) (c : MemoryCall) : Option (Int × Machine) :=
  let m := m.entered
  match c with
  | .mmap2 r e => linuxMmap2 r e m
  | .mprotect address length protection e => linuxMprotectRuntime address length protection e m
  | .munmap address length e => some (linuxMunmapRuntime address length e m)
  | .brk requested outcome =>
    let result := guestBrkSet requested.toNat outcome m
    some (signed32 result.1, result.2)

end Linuxemu.Guest
