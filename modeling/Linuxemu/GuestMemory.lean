import Linuxemu.Patch

/-! The guest's address space (`guest_memory.c`): load segments, the runtime
registry, the heap, and the deferred unmapping of `guest_thread.c`. -/
namespace Linuxemu.Guest
open Lib Registry

def guestMinAddress : Nat := 0x10000
def guestMaxAddress : Nat := 0x70000000
def guestStackSize : Nat := 1024 * 1024
def maxLoadSegments : Nat := 32

structure LoadSegment where
  mapStart : Nat
  mapLength : Nat
  finalProtection : Protection
  deriving DecidableEq, Repr

inductive HostCallKind where
  | munmap | mprotect | mmapFixed
  deriving DecidableEq, Repr

/-- A range passed to the host: was it owned by the registry then, inside a load
segment, or the mapping that the same call had received? -/
structure HostCall where
  kind : HostCallKind
  start : Nat
  length : Nat
  owned : Bool
  inSegment : Bool
  justReceived : Bool
  deriving DecidableEq, Repr

/-- The state that memory calls read and write. `received` and `calls` are
history: the mapping the current call has got from the host, and every range
passed to the host, newest first. -/
structure Machine where
  image : Image
  loadSegments : List LoadSegment
  registry : Table
  currentBreak : Nat
  minimumBreak : Nat
  breakMappingEnd : Nat
  deferredUnmapStart : Nat
  deferredUnmapLength : Nat
  received : Option (Nat × Nat)
  calls : List HostCall

def Machine.pageBytes (m : Machine) : Nat := m.image.host.pageSize.bytes

/-! ## Questions -/

/-- The first loop of `guest_memory_range_owned`. -/
def Machine.insideSegment (m : Machine) (address length : Nat) : Bool :=
  m.loadSegments.any fun x =>
    decide (x.mapStart ≤ address) && decide (address + length ≤ x.mapStart + x.mapLength)

def Machine.guestMemoryRangeOwned (m : Machine) (address length : Nat) : Bool :=
  !badRange address length && (m.insideSegment address length ||
    runtimeRangeOwnedLocked m.registry.runtimeMappings address (address + length))

def Machine.guestMemoryRuntimeOwned (m : Machine) (address length : Nat) : Bool :=
  Registry.guestMemoryRuntimeOwned m.registry address length

def Machine.guestMemoryIsExecutable (m : Machine) (address length : Nat) : Bool :=
  !decide (uintptrMax - address < length) &&
  ((m.loadSegments.any fun x =>
      x.finalProtection.exec && decide (x.mapStart ≤ address) &&
        decide (address + length ≤ x.mapStart + x.mapLength)) ||
    m.registry.runtimeMappings.any fun x =>
      decide (x.flag ≠ 0) && decide (x.start ≤ address) && decide (address + length ≤ x.stop))

/-! ## Host calls on behalf of the guest -/

def Image.untrap (s : Image) (start length : Nat) : Nat → Option UInt32 :=
  fun a => if s.host.inSpan start length (a / s.host.pageSize.bytes) then none else s.trapped a

/-- The image once the host has mapped these pages anew. -/
def Image.remap (s : Image) (host : Host) (start length : Nat) : Image :=
  { s with host, trapped := s.untrap start length }

def Image.munmap (s : Image) (start length : Nat) : Image :=
  s.remap (s.host.munmap start length) start length

def Machine.note (m : Machine) (kind : HostCallKind) (start length : Nat) : Machine :=
  { m with
    calls := ⟨kind, start, length, m.guestMemoryRuntimeOwned start length,
      m.insideSegment start length, decide (m.received = some (start, length))⟩ :: m.calls }

def Machine.munmap (m : Machine) (start length : Nat) : Machine :=
  { m.note .munmap start length with image := m.image.munmap start length }

def Machine.mprotect (m : Machine) (start length : Nat) (protection : Protection)
    (failure : Option Errno) : Option Errno × Machine :=
  let noted := m.note .mprotect start length
  match m.image.host.mprotect start length protection failure with
  | .error errno => (some errno, noted)
  | .ok host => (none, { noted with image := { m.image with host } })

def Machine.noteFixed (m : Machine) (flags : MapFlags) (start length : Nat) : Machine :=
  if flags.fixed then m.note .mmapFixed start length else m

/-- `length` is what the source passes; the mapping has `alignUp length` bytes. -/
def Machine.mmap (m : Machine) (address length : Nat) (protection : Protection)
    (flags : MapFlags) (descriptor offset : Int) (outcome : Except Errno Nat) :
    Except Errno Nat × Machine :=
  let mapped := alignUp length m.pageBytes
  let noted := m.noteFixed flags address mapped
  match m.image.host.mmap address length protection flags descriptor offset outcome with
  | .error errno => (.error errno, noted)
  | .ok (result, host) =>
    (.ok result, { noted with
      image := m.image.remap host result length
      received := some (result, mapped) })

/-! ## The heap -/

def guestBrkInitialize (initialBreak : Nat) (m : Machine) : Option Machine :=
  if initialBreak < guestMinAddress ∨ guestMaxAddress ≤ initialBreak then none
  else some { m with
    currentBreak := initialBreak
    minimumBreak := initialBreak
    breakMappingEnd := alignUp initialBreak m.pageBytes }

def brkProtection : Protection := ⟨true, true, false⟩
def brkFlags : MapFlags := ⟨false, false, true⟩

def guestBrkSet (requested : Nat) (outcome : Except Errno Nat) (m : Machine) : Nat × Machine :=
  if requested = 0 then (m.currentBreak, m)
  else if requested < m.minimumBreak then (m.currentBreak, m)
  else if requested < m.currentBreak then
    let mappingEnd := alignUp requested m.pageBytes
    if mappingEnd < m.breakMappingEnd then
      let length := m.breakMappingEnd - mappingEnd
      let released := m.munmap mappingEnd length
      (requested, { released with
        registry := guestMemoryRuntimeUnmap m.registry mappingEnd length
        breakMappingEnd := mappingEnd
        currentBreak := requested })
    else (requested, { m with currentBreak := requested })
  else if guestMaxAddress ≤ requested ∨ uintptrMax - (m.pageBytes - 1) < requested then
    (m.currentBreak, m)
  else
    let mappingEnd := alignUp requested m.pageBytes
    let oldEnd := m.breakMappingEnd
    if oldEnd < mappingEnd then
      let length := mappingEnd - oldEnd
      match m.mmap oldEnd length brkProtection brkFlags (-1) 0 outcome with
      | (.error _, m) => (m.currentBreak, m)
      | (.ok mapping, m) =>
        if mapping ≠ oldEnd then (m.currentBreak, m.munmap mapping length)
        else
          let reply := guestMemoryRuntimeMap m.registry oldEnd length 0
          let m := { m with registry := reply.table }
          if reply.code ≠ 0 then (m.currentBreak, m.munmap mapping length)
          else (requested, { m with breakMappingEnd := mappingEnd, currentBreak := requested })
    else (requested, { m with currentBreak := requested })

/-! ## Deferred unmapping -/

/-- `activeStack` is the address of a local of the caller, or nothing when the
thread has no record. -/
def guestThreadDeferActiveStackUnmap (address length : Nat) (activeStack : Option Nat)
    (m : Machine) : Option Machine :=
  match activeStack with
  | none => none
  | some stack =>
    if stack < address ∨ length ≤ stack - address then none
    else
      let widen := m.deferredUnmapLength ≠ 0
      let oldEnd := m.deferredUnmapStart + m.deferredUnmapLength
      let start := if widen ∧ m.deferredUnmapStart < address then m.deferredUnmapStart else address
      let stop := if widen ∧ address + length < oldEnd then oldEnd else address + length
      some { m with deferredUnmapStart := start, deferredUnmapLength := stop - start }

end Linuxemu.Guest
