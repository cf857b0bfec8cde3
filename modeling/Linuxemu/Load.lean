import Linuxemu.GuestMemory

/-! How a program gets into memory: load segments, the patching of their code, the
undoing of a failed attempt, the heap and the first stack. -/
namespace Linuxemu.Guest
open Lib Registry

/-- The fields of an `Elf32_Phdr` that mapping reads. -/
structure ProgramHeader where
  pOffset : Nat
  pVaddr : Nat
  pFilesz : Nat
  pMemsz : Nat
  pFlags : Nat
  deriving DecidableEq, Repr

/-- `validate_load_range`, true when the range can be used. -/
def Machine.validateLoadRange (m : Machine) (start stop : Nat) : Bool :=
  !(decide (start < guestMinAddress) || decide (stop ≤ start) || decide (guestMaxAddress < stop)) &&
    !m.loadSegments.any fun x => rangesOverlap start stop x.mapStart (x.mapStart + x.mapLength)

def protectionFromFlags (flags : Nat) : Protection :=
  ⟨decide (flags &&& 4 ≠ 0), decide (flags &&& 2 ≠ 0), decide (flags &&& 1 ≠ 0)⟩

/-- How the host answers while one segment is mapped. -/
structure SegmentHost where
  mmap : Except Errno Nat
  read : List Pread

/-- Read the file bytes in, clear the rest, and add the segment to the table. -/
def Machine.fillSegment (m : Machine) (header : ProgramHeader) (bytes : List UInt8)
    (segmentStart mapStart mapLength : Nat) : Machine :=
  let host := m.image.host.fill segmentStart header.pFilesz fun k => bytes.getD k 0
  let host := host.fill (segmentStart + header.pFilesz) (header.pMemsz - header.pFilesz) fun _ => 0
  let host := host.fill mapStart (segmentStart - mapStart) fun _ => 0
  { m with
    image := { m.image with host }
    loadSegments := m.loadSegments ++ [⟨mapStart, mapLength, protectionFromFlags header.pFlags⟩] }

/-- The calls to the host, once the range has been found good. -/
def Machine.placeSegment (m : Machine) (descriptor : Int) (header : ProgramHeader)
    (segmentStart mapStart mapLength : Nat) (e : SegmentHost) : Option (Option Errno × Machine) :=
  match m.mmap mapStart mapLength brkProtection brkFlags (-1) 0 e.mmap with
  | (.error errno, m) => some (some errno, m)
  | (.ok mapping, m) =>
    if mapping ≠ mapStart then some (some .eexist, m.munmap mapping mapLength)
    else match m.image.host.readExactAt descriptor header.pFilesz header.pOffset e.read with
    | none => none
    | some (.error errno) => some (some errno, m.munmap mapping mapLength)
    | some (.ok bytes) => some (none, m.fillSegment header bytes segmentStart mapStart mapLength)

def guestMemoryMapLoadSegment (descriptor : Int) (header : ProgramHeader)
    (loadBias fileSize : Nat) (e : SegmentHost) (m : Machine) : Option (Option Errno × Machine) :=
  let segmentStart := loadBias + header.pVaddr
  let segmentEnd := segmentStart + header.pMemsz
  let mapStart := alignDown segmentStart m.pageBytes
  let mapEnd := alignUp segmentEnd m.pageBytes
  if header.pMemsz < header.pFilesz ∨ (header.pFilesz ≠ 0 ∧ (fileSize < header.pOffset ∨
      fileSize - header.pOffset < header.pFilesz)) ∨ uintptrMax - header.pVaddr < loadBias then
    some (some .enoexec, m)
  else if uintptrMax - segmentStart < header.pMemsz then some (some .enoexec, m)
  else if uintptrMax - (m.pageBytes - 1) < segmentEnd then some (some .enoexec, m)
  else if !m.validateLoadRange mapStart mapEnd then some (some .enoexec, m)
  else if m.loadSegments.length = maxLoadSegments then some (some .e2big, m)
  else m.placeSegment descriptor header segmentStart mapStart (mapEnd - mapStart) e

/-- Unmap these segments, in this order. -/
def Machine.unmapSegments : List LoadSegment → Machine → Machine
  | [], m => m
  | x :: rest, m => Machine.unmapSegments rest (m.munmap x.mapStart x.mapLength)

/-- The newest segment goes first. -/
def guestMemoryRollback (segmentCount : Nat) (m : Machine) : Machine :=
  { m.unmapSegments (m.loadSegments.drop segmentCount).reverse with
    loadSegments := m.loadSegments.take segmentCount }

/-- The loop of `guest_memory_finalize`; the host's answers are by segment. -/
def Machine.finalizeSegments (answer : LoadSegment → Option Errno × Option Errno) :
    List LoadSegment → Machine → Option Errno × Machine
  | [], m => (none, m)
  | x :: rest, m =>
    match m.mprotect x.mapStart x.mapLength x.finalProtection (answer x).1 with
    | (some errno, m) => (some errno, m)
    | (none, m) =>
      match if x.finalProtection.exec then (answer x).2 else none with
      | some errno => (some errno, m)
      | none => Machine.finalizeSegments answer rest m

def guestMemoryFinalize (answer : LoadSegment → Option Errno × Option Errno) (m : Machine) :
    Option Errno × Machine :=
  m.finalizeSegments answer m.loadSegments

/-- `create_guest_stack` as far as memory goes; `content` is what it writes. -/
def createGuestStack (outcome : Except Errno Nat) (content : Nat → UInt8) (m : Machine) :
    Option Machine :=
  match m.mmap 0 guestStackSize brkProtection brkFlags (-1) 0 outcome with
  | (.error _, _) => none
  | (.ok lowerBound, m) =>
    let reply := guestMemoryRuntimeMap m.registry lowerBound guestStackSize 0
    if lowerBound < guestMinAddress ∨ guestMaxAddress ≤ lowerBound ∨
        guestMaxAddress - lowerBound < guestStackSize ∨ reply.code ≠ 0 then none
    else some { m with
      registry := reply.table
      image := { m.image with
        host := m.image.host.fill lowerBound guestStackSize content } }

/-! ## States of the loader -/

/-- One attempt to load an object, from its start: segments are mapped and sections
of executable segments are patched. The header checks, which only end an attempt,
are left out. -/
inductive Attempt (m : Machine) : Machine → Prop
  | start : Attempt m m
  | segment {a b : Machine} {descriptor : Int} {header : ProgramHeader} {bias fileSize : Nat}
      {e : SegmentHost} {error : Option Errno} (before : Attempt m a)
      (mapped : guestMemoryMapLoadSegment descriptor header bias fileSize e a = some (error, b)) :
      Attempt m b
  | code {a : Machine} {start length : Nat} {error : Option Errno} {image : Image}
      (before : Attempt m a) (executable : a.guestMemoryIsExecutable start length = true)
      (patched : armPatchRange start length a.image = some (error, image)) :
      Attempt m { a with image }

/-- States between the attempts: one has succeeded, or has been rolled back. -/
inductive Loading : Machine → Prop
  | start {m : Machine} (segments : m.loadSegments = []) (registry : m.registry = Registry.empty)
      (patches : m.image.patches = []) (untrapped : ∀ a, m.image.trapped a = none) : Loading m
  | object {m n : Machine} (before : Loading m) (attempt : Attempt m n) : Loading n
  | failed {m n : Machine} {image : Image} (before : Loading m) (attempt : Attempt m n)
      (undone : armPatchRollback m.image.patches.length n.image = some image) :
      Loading (guestMemoryRollback m.loadSegments.length { n with image })

/-- A program about to run: loaded, with its heap and its first stack. -/
inductive Loaded : Machine → Prop
  | load {a b c d : Machine} {entry initialBreak : Nat}
      {answer : LoadSegment → Option Errno × Option Errno} {outcome : Except Errno Nat}
      {content : Nat → UInt8} (loading : Loading a) (patched : a.image.patches ≠ [])
      (executable : a.guestMemoryIsExecutable entry 4 = true)
      (heap : guestBrkInitialize initialBreak a = some b)
      (final : guestMemoryFinalize answer b = (none, c))
      (stack : createGuestStack outcome content c = some d) :
      Loaded { d with received := none, calls := [] }

/-! ## A small program -/

/-- What a step leaves, or `start` if the step gives nothing. -/
def after {α β : Type} (start : β) (step : Option (α × β)) : β :=
  match step with
  | none => start
  | some (_, next) => next

theorem after_eq {α β : Type} {start : β} {step : Option (α × β)} {value : α}
    (result : step.map Prod.fst = some value) : step = some (value, after start step) := by
  cases step with
  | none => cases result
  | some pair =>
    cases result
    rfl

/-- An executable with one segment and one section: a system call at offset 84. -/
def smallFile : List UInt8 :=
  [0x7f, 0x45, 0x4c, 0x46, 1, 1, 1, 0, 0, 0, 0, 0, 0, 0, 0, 0,
    2, 0, 0x28, 0, 1, 0, 0, 0, 0x54, 0, 1, 0, 0x34, 0, 0, 0, 0x58, 0, 0, 0,
    0, 0, 0, 5, 0x34, 0, 0x20, 0, 1, 0, 0x28, 0, 1, 0, 0, 0,
    1, 0, 0, 0, 0, 0, 0, 0, 0, 0, 1, 0, 0, 0, 0, 0,
    0x58, 0, 0, 0, 0x58, 0, 0, 0, 5, 0, 0, 0, 4, 0, 0, 0,
    0, 0, 0, 0xef,
    0, 0, 0, 0, 1, 0, 0, 0, 6, 0, 0, 0, 0x54, 0, 1, 0, 0x54, 0, 0, 0,
    4, 0, 0, 0, 0, 0, 0, 0, 0, 0, 0, 0, 4, 0, 0, 0, 0, 0, 0, 0]

/-- A host with nothing mapped and the file open as descriptor 3. -/
def bareHost : Host where
  pageSize := .smallest
  pages := fun _ => none
  bytes := fun p => if p.region = some 0 then smallFile.getD p.index 0 else 0
  size := fun _ => smallFile.length
  inode := fun descriptor => if descriptor = 3 then some 0 else none

def bareMachine : Machine :=
  ⟨⟨bareHost, [], fun _ => none⟩, [], Registry.empty, 0, 0, 0, 0, 0, none, []⟩

def smallSegment : Option (Option Errno × Machine) :=
  guestMemoryMapLoadSegment 3 ⟨0, 0x10000, 88, 88, 5⟩ 0 128 ⟨.ok 0x10000, [.upto 88]⟩ bareMachine

def smallPatch : Option (Option Errno × Image) :=
  armPatchRange 0x10054 4 (after bareMachine smallSegment).image

def smallHeap : Option Machine :=
  guestBrkInitialize 0x10058
    { after bareMachine smallSegment with image := after bareMachine.image smallPatch }

def smallFinal : Option Errno × Machine :=
  guestMemoryFinalize (fun _ => (none, none)) (smallHeap.getD bareMachine)

def smallStack : Option Machine := createGuestStack (.ok 0x40000000) (fun _ => 0) smallFinal.2

/-- The program loaded at 0x10000, its heap empty and its stack at 0x40000000. -/
def smallProgram : Machine :=
  { smallStack.getD bareMachine with received := none, calls := [] }

theorem eq_some_getD {α : Type} {x : Option α} (start : α) (found : x.isSome = true) :
    x = some (x.getD start) := by
  obtain ⟨value, rfl⟩ := Option.isSome_iff_exists.mp found
  rfl

theorem eq_pair {α β : Type} {pair : α × β} {first : α} (same : pair.1 = first) :
    pair = (first, pair.2) := by
  cases same
  rfl

theorem smallProgram_loaded : Loaded smallProgram := by
  have mapped : smallSegment = some (none, after bareMachine smallSegment) :=
    after_eq (by decide +kernel)
  have patched : smallPatch = some (none, after bareMachine.image smallPatch) :=
    after_eq (by decide +kernel)
  have start : Loading bareMachine := .start rfl rfl rfl fun _ => rfl
  have code : Attempt bareMachine
      { after bareMachine smallSegment with image := after bareMachine.image smallPatch } :=
    .code (.segment .start mapped) (by decide +kernel) patched
  have entry : Machine.guestMemoryIsExecutable
      { after bareMachine smallSegment with image := after bareMachine.image smallPatch }
      0x10054 4 = true := by decide +kernel
  have heap : smallHeap = some (smallHeap.getD bareMachine) :=
    eq_some_getD bareMachine (by decide +kernel)
  have final : smallFinal = (none, smallFinal.2) := eq_pair (by decide +kernel)
  have stack : smallStack = some (smallStack.getD bareMachine) :=
    eq_some_getD bareMachine (by decide +kernel)
  exact .load (.object start code) (by decide +kernel) entry heap final stack

end Linuxemu.Guest
