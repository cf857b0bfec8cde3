import Linuxemu.Load
import Linuxemu.Path

/-! Loading a program (`elf_loader.c`): the checks on the headers of an object, attempts at
several addresses, each undone before the next, and the program with its interpreter. -/
namespace Linuxemu.Guest
open Lib Registry

/-! ## Headers -/

/-- An `Elf32_Phdr`. -/
structure ElfProgramHeader extends ProgramHeader where
  pType : Nat
  pAlign : Nat
  deriving DecidableEq, Repr

def programHeaderAt (table : List UInt8) (i : Nat) : ElfProgramHeader where
  pType := u32 table (32 * i)
  pOffset := u32 table (32 * i + 4)
  pVaddr := u32 table (32 * i + 8)
  pFilesz := u32 table (32 * i + 16)
  pMemsz := u32 table (32 * i + 20)
  pFlags := u32 table (32 * i + 24)
  pAlign := u32 table (32 * i + 28)

/-- The fields of an `Elf32_Shdr` that loading reads. -/
structure ElfSection extends Section where
  shAddr : Nat
  shAddralign : Nat
  deriving DecidableEq, Repr

def elfSectionAt (table : List UInt8) (i : Nat) : ElfSection where
  toSection := sectionAt table i
  shAddr := u32 table (40 * i + 12)
  shAddralign := u32 table (40 * i + 32)

/-- A `PT_LOAD` segment that takes up memory. -/
def ElfProgramHeader.loads (x : ElfProgramHeader) : Bool :=
  decide (x.pType = 1) && decide (x.pMemsz ≠ 0)

/-- `PT_INTERP`. -/
def ElfProgramHeader.namesInterpreter (x : ElfProgramHeader) : Bool := decide (x.pType = 3)

def rangeInFile (offset length fileSize : Nat) : Bool :=
  decide (offset ≤ fileSize) && decide (length ≤ fileSize - offset)

def validAlignment (alignment : Nat) : Bool :=
  decide (alignment = 0) || decide (alignment = 1) || decide (alignment &&& (alignment - 1) = 0)

/-- True when the header is valid. -/
def validateProgramHeader (x : ElfProgramHeader) (fileSize : Nat) : Bool :=
  if x.loads then
    !(decide (x.pMemsz < x.pFilesz) ||
      (decide (x.pFilesz ≠ 0) && !rangeInFile x.pOffset x.pFilesz fileSize) ||
      !validAlignment x.pAlign ||
      (decide (1 < x.pAlign) &&
        decide ((x.pVaddr + 2 ^ 32 - x.pOffset) % 2 ^ 32 &&& (x.pAlign - 1) ≠ 0)) ||
      decide (x.pFlags &&& (2 ^ 32 - 8) ≠ 0) || decide (x.pFlags &&& 3 = 3))
  else !(x.namesInterpreter && !rangeInFile x.pOffset x.pFilesz fileSize)

def safeInterpreterPath (path : List UInt8) : Bool :=
  match path with
  | [] => false
  | first :: rest =>
    decide (first = 47) && !rest.isEmpty && decide (rest.getLast? ≠ some 47) &&
      (rest.splitOn 47).all fun component =>
        !(component.isEmpty || component == [46] || component == [46, 46])

/-- `ET_DYN`; the other type that is accepted is `ET_EXEC`. -/
def dynamicObject (header : List UInt8) : Bool := decide (u16 header 16 = 3)

def acceptableHeader (header : List UInt8) (allowExecutable : Bool) (fileSize : Nat) : Bool :=
  decide (header.take 7 = [0x7f, 0x45, 0x4c, 0x46, 1, 1, 1]) && decide (u32 header 20 = 1) &&
    decide (u16 header 18 = 40) &&
    (dynamicObject header || (allowExecutable && decide (u16 header 16 = 2))) &&
    decide (u16 header 40 = 52) && decide (u16 header 42 = 32) &&
    decide (u16 header 44 ≠ 0) && decide (u16 header 44 ≤ maxLoadSegments) &&
    decide (u32 header 28 ≤ fileSize) && decide (u32 header 24 % 2 = 0)

/-! ## Segments and sections -/

/-- The loop over the program headers; the host's answers are by index. -/
def mapSegments (descriptor : Int) (loadBias fileSize : Nat) (answer : Nat → SegmentHost) :
    Nat → List ElfProgramHeader → Machine → Option (Option Errno × Machine)
  | _, [], m => some (none, m)
  | i, x :: rest, m =>
    if x.loads then
      match guestMemoryMapLoadSegment descriptor x.toProgramHeader loadBias fileSize (answer i) m with
      | some (none, m) => mapSegments descriptor loadBias fileSize answer (i + 1) rest m
      | stopped => stopped
    else mapSegments descriptor loadBias fileSize answer (i + 1) rest m

def sectionInExecutableLoad (x : ElfSection) (headers : List ElfProgramHeader) : Bool :=
  headers.any fun header =>
    decide (header.pType = 1) && decide (header.pFlags &&& 1 ≠ 0) &&
      decide (header.pVaddr ≤ x.shAddr) && decide (header.pOffset ≤ x.shOffset) &&
      decide (x.shAddr - header.pVaddr = x.shOffset - header.pOffset) &&
      decide (x.shOffset - header.pOffset ≤ header.pFilesz) &&
      decide (x.shSize ≤ header.pFilesz - (x.shOffset - header.pOffset))

/-- A section that is not empty and holds instructions (`SHF_EXECINSTR`). -/
def ElfSection.holdsInstructions (x : ElfSection) : Bool :=
  decide (x.shFlags &&& 4 ≠ 0) && decide (x.shSize ≠ 0)

def acceptableSection (x : ElfSection) (headers : List ElfProgramHeader) (loadBias fileSize : Nat) :
    Bool :=
  decide (x.shType = 1) && rangeInFile x.shOffset x.shSize fileSize &&
    validAlignment x.shAddralign && decide (x.shFlags &&& 1 = 0) &&
    sectionInExecutableLoad x headers && decide (loadBias ≤ uintptrMax - x.shAddr)

/-- The loop over the sections, with the number patched so far. An error without a code
leaves `errno` as it is. -/
def patchSectionLoop (headers : List ElfProgramHeader) (loadBias fileSize : Nat) :
    List ElfSection → Nat → Machine → Option (Except (Option Errno) Nat × Machine)
  | [], executableSections, m => some (.ok executableSections, m)
  | x :: rest, executableSections, m =>
    if !x.holdsInstructions then
      patchSectionLoop headers loadBias fileSize rest executableSections m
    else if !acceptableSection x headers loadBias fileSize then some (.error (some .enoexec), m)
    else if (loadBias + x.shAddr) % 4 ≠ 0 ∨ x.shSize % 4 ≠ 0 ∨
        !m.guestMemoryIsExecutable (loadBias + x.shAddr) x.shSize then some (.error none, m)
    else match armPatchRange (loadBias + x.shAddr) x.shSize m.image with
      | none => none
      | some (some errno, image) => some (.error (some errno), { m with image })
      | some (none, image) =>
        patchSectionLoop headers loadBias fileSize rest (executableSections + 1) { m with image }

/-- How the host answers during one attempt. `errno` is what that variable holds where the
attempt itself does not set it, or `ENOEXEC` for no error. -/
structure AttemptHost where
  segment : Nat → SegmentHost
  malloc : Bool
  table : List Pread
  errno : Errno

def patchExecutableSections (descriptor : Int) (header : List UInt8)
    (headers : List ElfProgramHeader) (loadBias fileSize : Nat) (e : AttemptHost) (m : Machine) :
    Option (Except (Option Errno) Unit × Machine) :=
  let tableSize := u16 header 48 * 40
  if u16 header 48 = 0 ∨ u16 header 46 ≠ 40 ∨ fileSize < u32 header 32 then
    some (.error (some .enoexec), m)
  else if fileSize - u32 header 32 < tableSize then some (.error (some .enoexec), m)
  else if !e.malloc then some (.error (some .enomem), m)
  else match m.image.host.readExactAt descriptor tableSize (u32 header 32) e.table with
    | none => none
    | some (.error errno) => some (.error (some errno), m)
    | some (.ok table) =>
      match patchSectionLoop headers loadBias fileSize
          ((List.range (u16 header 48)).map (elfSectionAt table)) 0 m with
      | none => none
      | some (.error errno, m) => some (.error errno, m)
      | some (.ok executableSections, m) =>
        if executableSections = 0 then some (.error (some .enoexec), m) else some (.ok (), m)

/-! ## Attempts -/

def loadAttempt (descriptor : Int) (header : List UInt8) (headers : List ElfProgramHeader)
    (fileSize loadBias : Nat) (e : AttemptHost) (m : Machine) : Option (Option Errno × Machine) :=
  match mapSegments descriptor loadBias fileSize e.segment 0 headers m with
  | none => none
  | some (some errno, n) => some (some errno, n)
  | some (none, n) =>
    if n.loadSegments.length = m.loadSegments.length then some (some e.errno, n)
    else match patchExecutableSections descriptor header headers loadBias fileSize e n with
      | none => none
      | some (.error errno, n) => some (some (errno.getD e.errno), n)
      | some (.ok (), n) =>
        if uintptrMax - u32 header 24 < loadBias then some (some e.errno, n) else some (none, n)

/-- The attempts at these addresses. A failed one is undone, and only an object that can lie
anywhere is tried again, where something else was in the way. -/
def loadAttempts (descriptor : Int) (header : List UInt8) (headers : List ElfProgramHeader)
    (fileSize : Nat) : List (Nat × AttemptHost) → Machine → Option (Except Errno Nat × Machine)
  | [], m => some (.error .eexist, m)
  | (loadBias, e) :: rest, m =>
    match loadAttempt descriptor header headers fileSize loadBias e m with
    | none => none
    | some (none, n) => some (.ok loadBias, n)
    | some (some errno, n) =>
      match armPatchRollback m.image.patches.length n.image with
      | none => none
      | some image =>
        let undone := guestMemoryRollback m.loadSegments.length { n with image }
        if !dynamicObject header ∨ errno ≠ .eexist then some (.error errno, undone)
        else loadAttempts descriptor header headers fileSize rest undone

/-! ## The object -/

def mainEtDynBias : Nat := 0x20000000
def interpreterBias : Nat := 0x60000000

def mainBiases : List Nat := [0x20000000, 0x30000000, 0x40000000, 0x50000000]
def interpreterBiases : List Nat := [0x60000000, 0x50000000, 0x40000000, 0x30000000]

/-- `struct elf_object`. -/
structure ElfObject where
  entry : Nat
  loadBias : Nat
  programHeaders : Nat
  programHeaderSize : Nat
  programHeaderCount : Nat
  dataEnd : Nat
  deriving DecidableEq, Repr

/-- How the host answers during a whole load; attempts are by number. -/
structure LoadHost where
  opened : Except Errno Int
  stat : Option Errno
  header : List Pread
  malloc : Bool
  headers : List Pread
  interpreter : List Pread
  attempt : Nat → AttemptHost

/-- The path of the interpreter, empty without one. `capacity` is that of the caller's
buffer, and `none` for no buffer. -/
def readInterpreter (h : Host) (descriptor : Int) (capacity : Option Nat) (reads : List Pread)
    (headers : List ElfProgramHeader) : Option (Except Errno (List UInt8)) :=
  match headers.find? (·.namesInterpreter) with
  | none => some (.ok [])
  | some x =>
    if x.pFilesz < 2 ∨ capacity.getD 0 < x.pFilesz then some (.error .enoexec)
    else match h.readExactAt descriptor x.pFilesz x.pOffset reads with
      | none => none
      | some (.error _) => some (.error .enoexec)
      | some (.ok interpreter) =>
        let path := interpreter.take (x.pFilesz - 1)
        if interpreter.getD (x.pFilesz - 1) 0 ≠ 0 ∨ 0 ∈ path ∨ !safeInterpreterPath path then
          some (.error .enoexec)
        else some (.ok path)

/-- `data_end`, the highest end of a segment. -/
def dataEnd (loadBias : Nat) (headers : List ElfProgramHeader) : Nat :=
  headers.foldl (fun stop x =>
    if x.loads ∧ stop < loadBias + x.pVaddr + x.pMemsz then loadBias + x.pVaddr + x.pMemsz
    else stop) 0

/-- The file bytes of a `PT_LOAD` header take in the table. The header need not have been
checked or mapped. -/
def ElfProgramHeader.coversTable (phoff headersSize : Nat) (x : ElfProgramHeader) : Bool :=
  decide (x.pType = 1) && decide (x.pOffset ≤ phoff) &&
    decide (phoff - x.pOffset ≤ x.pFilesz) &&
    decide (headersSize ≤ x.pFilesz - (phoff - x.pOffset))

/-- Where the program headers are in memory, 0 if no segment holds them. -/
def programHeadersAddress (loadBias phoff headersSize : Nat) (headers : List ElfProgramHeader) :
    Nat :=
  match headers.find? (·.coversTable phoff headersSize) with
  | none => 0
  | some x => (loadBias + x.pVaddr + (phoff - x.pOffset)) % 2 ^ 32

def elfObject (header : List UInt8) (headers : List ElfProgramHeader) (loadBias : Nat) : ElfObject where
  entry := loadBias + u32 header 24
  loadBias := loadBias
  programHeaders := programHeadersAddress loadBias (u32 header 28) (32 * u16 header 44) headers
  programHeaderSize := u16 header 42
  programHeaderCount := u16 header 44
  dataEnd := dataEnd loadBias headers

/-- The headers of a file are read and checked; then come the attempts. No result at all is
a `pread` that has not returned, or a fault. -/
def loadElfObject (dynamicBias : Nat) (allowExecutable : Bool) (capacity : Option Nat)
    (e : LoadHost) (m : Machine) : Option (Except Errno (ElfObject × List UInt8) × Machine) :=
  match e.opened with
  | .error errno => some (.error errno, m)
  | .ok descriptor =>
    match m.image.host.fstat descriptor e.stat with
    | .error errno => some (.error errno, m)
    | .ok fileSize =>
      match m.image.host.readExactAt descriptor 52 0 e.header with
      | none => none
      | some (.error errno) => some (.error errno, m)
      | some (.ok header) =>
        let headersSize := 32 * u16 header 44
        if !acceptableHeader header allowExecutable fileSize then some (.error .enoexec, m)
        else if fileSize - u32 header 28 < headersSize then some (.error .enoexec, m)
        else if !e.malloc then some (.error .enomem, m)
        else match m.image.host.readExactAt descriptor headersSize (u32 header 28) e.headers with
          | none => none
          | some (.error errno) => some (.error errno, m)
          | some (.ok table) =>
            let headers := (List.range (u16 header 44)).map (programHeaderAt table)
            let interpreters := headers.countP (·.namesInterpreter)
            if !headers.all (validateProgramHeader · fileSize) then some (.error .enoexec, m)
            else if 1 < interpreters ∨ (interpreters ≠ 0 ∧ capacity = none) then
              some (.error .enoexec, m)
            else match readInterpreter m.image.host descriptor capacity e.interpreter headers with
              | none => none
              | some (.error errno) => some (.error errno, m)
              | some (.ok interpreter) =>
                let biases := if dynamicBias = interpreterBias then interpreterBiases else mainBiases
                let tries := if dynamicObject header then biases else [0]
                match loadAttempts descriptor header headers fileSize
                    (tries.zipIdx.map fun x => (x.1, e.attempt x.2)) m with
                | none => none
                | some (.error errno, n) => some (.error errno, n)
                | some (.ok loadBias, n) =>
                  some (.ok (elfObject header headers loadBias, interpreter), n)

/-! ## The program and its interpreter -/

/-- `struct guest_image`. -/
structure GuestImage where
  entry : Nat
  startEntry : Nat
  programHeaders : Nat
  programHeaderSize : Nat
  programHeaderCount : Nat
  initialBrk : Nat
  interpreterBase : Nat
  deriving DecidableEq, Repr

/-- How the host answers while a program is loaded. `errno` is what that variable holds where
nothing has set it, or `ENOEXEC` for no error. -/
structure ImageHost where
  main : LoadHost
  interpreter : LoadHost
  finalize : LoadSegment → Option Errno × Option Errno
  errno : Errno

def guestImage (main : ElfObject) : GuestImage where
  entry := main.entry
  startEntry := main.entry
  programHeaders := main.programHeaders
  programHeaderSize := main.programHeaderSize
  programHeaderCount := main.programHeaderCount
  initialBrk := main.dataEnd
  interpreterBase := 0

/-- The program, and the interpreter it names. -/
def loadObjects (p : Path.Paths) (e : ImageHost) (m : Machine) :
    Option (Except Errno GuestImage × Machine) :=
  match loadElfObject mainEtDynBias true (some p.pathMax) e.main m with
  | none => none
  | some (.error errno, n) => some (.error errno, n)
  | some (.ok (main, interpreter), n) =>
    if interpreter = [] then some (.ok (guestImage main), n)
    else match Path.guestPathResolve p (some interpreter) false p.pathMax with
      | .error errno => some (.error (errno.getD e.errno), n)
      | .ok _ =>
        match loadElfObject interpreterBias false none e.interpreter n with
        | none => none
        | some (.error errno, n) => some (.error errno, n)
        | some (.ok (object, _), n) =>
          some (.ok { guestImage main with
            startEntry := object.entry
            interpreterBase := object.loadBias }, n)

/-- Everything that comes before `guest_memory_finalize`. -/
def prepareGuestImage (p : Path.Paths) (e : ImageHost) (m : Machine) :
    Option (Except Errno GuestImage × Machine) :=
  match loadObjects p e m with
  | none => none
  | some (.error errno, n) => some (.error errno, n)
  | some (.ok image, n) =>
    if n.image.patches.length = 0 ∨ !n.guestMemoryIsExecutable image.entry 4 ∨
        !n.guestMemoryIsExecutable image.startEntry 4 then some (.error e.errno, n)
    else match guestBrkInitialize image.initialBrk n with
      | none => some (.error .enoexec, n)
      | some n => some (.ok image, n)

/-- Patches go first, then segments, back to the counts that `m` has. -/
def undoLoad (m n : Machine) : Option Machine :=
  match armPatchRollback m.image.patches.length n.image with
  | none => none
  | some image => some (guestMemoryRollback m.loadSegments.length { n with image })

def loadGuestImage (p : Path.Paths) (e : ImageHost) (m : Machine) :
    Option (Except Errno GuestImage × Machine) :=
  match prepareGuestImage p e m with
  | none => none
  | some (.error errno, n) => (undoLoad m n).map fun n => (.error errno, n)
  | some (.ok image, n) =>
    match guestMemoryFinalize e.finalize n with
    | (none, n) => some (.ok image, n)
    | (some errno, n) => (undoLoad m n).map fun n => (.error errno, n)

end Linuxemu.Guest
