import Linuxemu.FileReads
import Linuxemu.Load
import Linuxemu.MmapOutcome
import Linuxemu.RegistryRuns

/-! File offsets (`linux_syscall.c`): the guest passes 64 bits, or a number of pages, and
the host's `off_t` has 32. -/
namespace Linuxemu.Guest
open Lib Registry
variable {r : Registers} {protection : Protection} {m : Machine} {address length : Nat}
  {e : MmapHost} {n : UInt32}

/-- `loff_t`: two registers read as a signed value. -/
def signed64 (low high : UInt32) : Int :=
  let value : Nat := low.toNat + 2 ^ 32 * high.toNat
  if value < 2 ^ 63 then (value : Int) else (value : Int) - 2 ^ 64

/-- `(off_t)` of the unsigned value assembled from the two registers. -/
def narrowed (low high : UInt32) : Int := signed32 (low.toNat + 2 ^ 32 * high.toNat)

/-- The host calls that take an `off_t`. -/
inductive HostFileCall where
  | pread (descriptor : Int) (buffer count : UInt32) (offset : Int)
  | pwrite (descriptor : Int) (buffer count : UInt32) (offset : Int)
  | ftruncate (descriptor : Int) (length : Int)
  | lseek (descriptor : Int) (offset whence : Int)

def HostFileCall.offset : HostFileCall → Int
  | .pread _ _ _ offset | .pwrite _ _ _ offset | .ftruncate _ offset | .lseek _ offset _ => offset

/-- What every host refuses with `EINVAL`: a place before the start of a file, and a seek
from nowhere. -/
def HostFileCall.invalid : HostFileCall → Bool
  | .pread _ _ _ offset | .pwrite _ _ _ offset | .ftruncate _ offset => decide (offset < 0)
  | .lseek _ offset whence =>
    (whence == 0 && decide (offset < 0)) || (whence != 0 && whence != 1 && whence != 2)

/-- A host with files in the state `σ`: a call that fails leaves them as they were. -/
structure FileHost (σ : Type) where
  answer : HostFileCall → σ → Except Errno Nat × σ
  untouched : ∀ call files errno, (answer call files).1 = .error errno →
    (answer call files).2 = files
  refuses : ∀ call files, call.invalid = true → ∃ errno, (answer call files).1 = .error errno

/-- The guest's calls on a file; `llseek` is `_llseek`. -/
inductive FileSyscall where
  | pread64 | pwrite64 | ftruncate64 | llseek

namespace FileSyscall

/-- The offset or length the guest asks for. -/
def requested (c : FileSyscall) (r : Registers) : Int :=
  match c with
  | .pread64 | .pwrite64 => signed64 r.r4 r.r5
  | .ftruncate64 => signed64 r.r2 r.r3
  | .llseek => signed64 r.r2 r.r1

def hostCall (c : FileSyscall) (r : Registers) : HostFileCall :=
  match c with
  | .pread64 => .pread (signed32 r.r0.toNat) r.r1 r.r2 (narrowed r.r4 r.r5)
  | .pwrite64 => .pwrite (signed32 r.r0.toNat) r.r1 r.r2 (narrowed r.r4 r.r5)
  | .ftruncate64 => .ftruncate (signed32 r.r0.toNat) (narrowed r.r2 r.r3)
  | .llseek => .lseek (signed32 r.r0.toNat) (narrowed r.r2 r.r1) (signed32 r.r4.toNat)

/-- The result, what `_llseek` stores for the guest and where, and the files. -/
def run {σ : Type} (c : FileSyscall) (r : Registers) (host : FileHost σ) (files : σ) :
    Int × Option (UInt32 × Nat) × σ :=
  match host.answer (c.hostCall r) files with
  | (.error errno, files) => (linuxError errno, none, files)
  | (.ok result, files) =>
    match c with
    | .pread64 | .pwrite64 | .ftruncate64 => (result, none, files)
    | .llseek => (0, some (r.r3, result), files)

/-- Whatever the host does, its call has the guest's value, or the guest gets an error and
the files are as they were. -/
def Honoured (c : FileSyscall) (r : Registers) : Prop :=
  ∀ (σ : Type) (host : FileHost σ) (files : σ), (c.hostCall r).offset = c.requested r ∨
    ((c.run r host files).1 < 0 ∧ (c.run r host files).2.2 = files)

/-- A host that does whatever is valid. -/
def willing : FileHost Unit where
  answer call files := (if call.invalid then .error .einval else .ok 0, files)
  untouched _ _ _ _ := rfl
  refuses _ _ invalid := ⟨.einval, if_pos invalid⟩

theorem honoured_iff (c : FileSyscall) (r : Registers) :
    c.Honoured r ↔ (c.hostCall r).offset = c.requested r ∨ (c.hostCall r).invalid = true := by
  constructor
  · intro honoured
    obtain same | ⟨failed, -⟩ := honoured Unit willing ()
    · exact .inl same
    · refine .inr ?_
      by_contra valid
      have answer : willing.answer (c.hostCall r) () = (.ok 0, ()) := by simp [willing, valid]
      unfold run at failed
      rw [answer] at failed
      cases c <;> exact Int.lt_irrefl 0 failed
  · rintro (same | invalid) σ host files
    · exact .inl same
    · right
      obtain ⟨errno, refused⟩ := host.refuses _ files invalid
      have kept := host.untouched _ files errno refused
      unfold run
      generalize host.answer (c.hostCall r) files = answer at refused kept
      obtain ⟨result, after⟩ := answer
      cases refused
      exact ⟨linuxError_neg errno, kept⟩

/-- The value is one that a 32-bit `off_t` has. -/
def Fits (c : FileSyscall) (r : Registers) : Prop :=
  -2 ^ 31 ≤ c.requested r ∧ c.requested r < 2 ^ 31

/-- The host refuses the low word of the value, or the kind of seek. -/
def Refused (c : FileSyscall) (r : Registers) : Prop :=
  match c with
  | .pread64 | .pwrite64 => 2 ^ 31 ≤ r.r4.toNat
  | .ftruncate64 => 2 ^ 31 ≤ r.r2.toNat
  | .llseek => r.r4.toNat = 0 ∧ 2 ^ 31 ≤ r.r2.toNat ∨ 2 < r.r4.toNat

theorem signed32_neg : signed32 n.toNat < 0 ↔ 2 ^ 31 ≤ n.toNat := by
  have := n.toNat_lt
  unfold signed32
  split <;> omega

theorem narrowed_eq (low high : UInt32) : narrowed low high = signed32 low.toNat := by
  unfold narrowed signed32
  split <;> split <;> omega

theorem narrowed_exact {low high : UInt32} : narrowed low high = signed64 low high ↔
    -2 ^ 31 ≤ signed64 low high ∧ signed64 low high < 2 ^ 31 := by
  have := low.toNat_lt
  have := high.toNat_lt
  rw [narrowed_eq]
  unfold signed32 signed64
  dsimp only
  split <;> split <;> omega

theorem offset_exact_iff (c : FileSyscall) (r : Registers) :
    (c.hostCall r).offset = c.requested r ↔ c.Fits r := by
  cases c <;> exact narrowed_exact

theorem whence_invalid :
    (signed32 n.toNat != 0 && signed32 n.toNat != 1 && signed32 n.toNat != 2) = true ↔
      2 < n.toNat := by
  have := n.toNat_lt
  simp only [Bool.and_eq_true, bne_iff_ne]
  unfold signed32
  split <;> omega

theorem whence_zero : signed32 n.toNat = 0 ↔ n.toNat = 0 := by
  have := n.toNat_lt
  unfold signed32
  split <;> omega

theorem invalid_iff (c : FileSyscall) (r : Registers) :
    (c.hostCall r).invalid = true ↔ c.Refused r := by
  cases c with
  | pread64 | pwrite64 | ftruncate64 =>
    simp only [hostCall, HostFileCall.invalid, Refused, decide_eq_true_iff, narrowed_eq,
      signed32_neg]
  | llseek =>
    simp only [hostCall, HostFileCall.invalid, Refused, Bool.or_eq_true, whence_invalid]
    simp only [Bool.and_eq_true, beq_iff_eq, decide_eq_true_iff, whence_zero, narrowed_eq,
      signed32_neg]

end FileSyscall

/-! ## mmap2 -/

/-- What the registers of a call ask is something that some host and machine grant. -/
structure Registers.MayMap (r : Registers) (protection : Protection) : Prop where
  translated : translateProtection r.r2 = some protection
  known : r.r3 &&& ~~~0x33 = 0
  oneKind : r.mapShared = !r.mapPrivate
  sharedData : r.mapShared = true → protection.exec = false
  positive : 0 < r.length
  fits : r.length ≤ guestMaxAddress - guestMinAddress
  fixed : r.mapFixed = true → r.address % 4096 = 0 ∧ guestMinAddress ≤ r.address ∧
    r.address + r.length ≤ guestMaxAddress

/-- Whatever the machine and the host, the file is mapped or read at the guest's offset, or
the guest gets an error and the files are as they were. -/
def Registers.OffsetHonoured (r : Registers) : Prop :=
  ∀ (m m' : Machine) (e : MmapHost) (code : Int), linuxMmap2 r e m = some (code, m') →
    r.mapAnonymous = true ∨ r.offset = r.r5.toNat * 4096 ∨
      (code < 0 ∧ FilesKept m.image.host m'.image.host)

theorem checkMmap2_known (ok : m.checkMmap2 r = .ok protection) : r.r3 &&& ~~~0x33 = 0 := by
  unfold Machine.checkMmap2 at ok
  split at ok
  · cases ok
  · split at ok
    · cases ok
    · rename_i known
      exact not_not.mp known

/-- A call that passes its checks and gets pages in the guest's window asked what may be. -/
theorem Machine.Checked.mayMap (checked : m.Checked r protection) (known : r.r3 &&& ~~~0x33 = 0)
    (place : r.mapFixed = true → address = r.address) (low : guestMinAddress ≤ address)
    (high : address + m.mappedLength r ≤ guestMaxAddress) : r.MayMap protection := by
  have long : r.length ≤ m.mappedLength r := by
    rw [Machine.mappedLength, Machine.pageBytes, alignUp_eq m.image.host checked.fits]
    exact le_pageCount_mul m.image.host r.length
  refine ⟨checked.translated, known, checked.oneKind, checked.sharedData, checked.positive,
    by omega, ?_⟩
  intro set
  obtain rfl := place set
  refine ⟨?_, low, by omega⟩
  have pages : 4096 ∣ m.image.host.pageSize.bytes :=
    pow_dvd_pow 2 m.image.host.pageSize.least
  exact Nat.mod_eq_zero_of_dvd
    (pages.trans (Nat.dvd_of_mod_eq_zero (checked.fixed set).1))

theorem copyExecutableFile_negative {result : Except Int Machine} (negative : r.offset < 0)
    (done : m.copyExecutableFile r e address = some result) : ∃ code < 0, result = .error code := by
  unfold Machine.copyExecutableFile at done
  split at done
  · cases done
    exact ⟨_, linuxError_neg _, rfl⟩
  · rw [if_pos (Or.inl negative)] at done
    cases done
    exact ⟨_, by decide, rfl⟩

/-- A call that does not fail before it patches has a place in the window and an offset. -/
theorem finishMmap2_early {result : Int × Machine}
    (done : m.finishMmap2 r e protection address length = some result) :
    (result.1 < 0 ∧ FilesKept m.image.host result.2.image.host) ∨
    (guestMinAddress ≤ address ∧ address + length ≤ guestMaxAddress ∧
      (r.copies protection = true → 0 ≤ r.offset)) := by
  have taken : FilesKept m.image.host (m.munmap address length).image.host :=
    ⟨rfl, rfl, rfl, fun _ _ => rfl⟩
  unfold Machine.finishMmap2 at done
  split at done
  · cases done
    exact .inl ⟨show enomem < 0 by decide, taken⟩
  · rename_i window
    by_cases bad : r.copies protection = true ∧ r.offset < 0
    · left
      rw [if_pos bad.1] at done
      split at done
      · cases done
      · rename_i code copied
        cases done
        obtain ⟨code', failed, same⟩ := copyExecutableFile_negative bad.2 copied
        cases same
        exact ⟨failed, taken⟩
      · rename_i copied
        obtain ⟨_, _, wrong⟩ := copyExecutableFile_negative bad.2 copied
        cases wrong
    · refine .inr ⟨by omega, by omega, fun copies => ?_⟩
      by_contra negative
      exact bad ⟨copies, by omega⟩

theorem linuxMmap2_early {result : Int × Machine} (call : linuxMmap2 r e m = some result) :
    (result.1 < 0 ∧ FilesKept m.image.host result.2.image.host) ∨
    ((∃ protection, r.MayMap protection) ∧ (r.mapAnonymous = false → 0 ≤ r.offset)) := by
  unfold linuxMmap2 at call
  split at call
  · rename_i refused
    cases call
    exact .inl ⟨checkMmap2_error refused, .refl _⟩
  · rename_i protection checked
    obtain ⟨errno, -, asked⟩ | ⟨address, host, asked, mapped⟩ := mmap_cases m r.address r.length
      (r.mappingProtection protection) (r.hostFlags protection)
      (if r.copies protection then -1 else r.descriptor)
      (if r.copies protection then 0 else r.offset) e.mmap
    · rw [asked] at call
      cases call
      obtain ⟨calls, noted⟩ := noteFixed_frame m (r.hostFlags protection) r.address
        (alignUp r.length m.pageBytes)
      rw [noted]
      exact .inl ⟨linuxError_neg errno, .refl _⟩
    · rw [mapped] at call
      have granted := mmap_granted asked
      have files := granted_files granted
      dsimp only [Machine.pageBytes, Image.remap] at call
      rw [files.pageSize] at call
      obtain ⟨failed, kept⟩ | ⟨low, high, sign⟩ := finishMmap2_early call
      · exact .inl ⟨failed, files.trans kept⟩
      · refine .inr ⟨⟨protection, ?_⟩, ?_⟩
        · exact (checkMmap2_ok checked).mayMap (checkMmap2_known checked) granted.fixed low high
        · intro named
          cases copies : r.copies protection with
          | true => exact sign copies
          | false =>
            have flag : (r.hostFlags protection).anonymous = false := by
              rw [Registers.hostFlags, named, copies]
              rfl
            obtain ⟨-, -, positive, -⟩ := granted.file flag
            rwa [copies] at positive

/-! ### A host that maps whatever may be mapped -/

def openHost : Host where
  pageSize := .smallest
  pages _ := none
  bytes _ := 0
  size _ := 2 ^ 31 - 1
  inode _ := some 0

/-- A fixed mapping needs an entry that owns its range already. -/
def Registers.openTable (r : Registers) : Table :=
  if r.mapFixed then
    ⟨[⟨r.address, r.address + alignUp r.length 4096, 0⟩], empty.runtimeMappingScratch⟩
  else empty

def Registers.openMachine (r : Registers) : Machine :=
  { bareMachine with image := ⟨openHost, [], fun _ => none⟩, registry := r.openTable }

def Registers.openPlace (r : Registers) : Nat := if r.mapFixed then r.address else guestMinAddress

def Registers.openAnswers (r : Registers) : MmapHost :=
  ⟨.ok r.openPlace, none, [.upto (2 ^ 32)], ⟨some .eio, [], true, []⟩, none, none⟩

theorem settleMapping_done (msync : e.msync = none) (mprotect : e.mprotect = none)
    (mapped : m.image.host.spanAll address length Option.isSome = true)
    (room : (guestMemoryRuntimeMap m.registry address length
      (if protection.exec then 1 else 0)).code = 0) :
    ∃ m', m.settleMapping r e protection address length = ((address : Int), m') := by
  have registered (m₁ : Machine) (same : m₁.registry = m.registry) :
      ∃ m', m₁.registerMapping protection address length = ((address : Int), m') := by
    obtain ⟨full, -⟩ | ⟨-, result⟩ := registerMapping_cases m₁ protection address length
    · rw [same] at full
      exact absurd room full
    · exact ⟨_, result⟩
  unfold Machine.settleMapping
  rw [msync, mprotect, ite_self]
  dsimp only
  split
  · exact registered m rfl
  · rw [mprotect_done m protection mapped]
    exact registered _ rfl

theorem patchMapping_done {errno : Errno} (stat : e.elf.stat = some errno) (msync : e.msync = none)
    (mprotect : e.mprotect = none)
    (mapped : m.image.host.spanAll address length Option.isSome = true)
    (room : (guestMemoryRuntimeMap m.registry address length
      (if protection.exec then 1 else 0)).code = 0) :
    ∃ m', m.patchMapping r e protection address length = some ((address : Int), m') := by
  have skipped (image : Image) :
      armPatchElfMapping r.descriptor r.offset address length e.elf image = some (none, image) := by
    have skip : readSections image.host r.descriptor r.offset length e.elf = some .skip := by
      unfold readSections Host.fstat
      rw [stat]
      exact ite_self _
    rw [armPatchElfMapping, skip]
  unfold Machine.patchMapping
  dsimp only
  rw [skipped, ite_self]
  dsimp only
  obtain ⟨m', done⟩ := settleMapping_done (m := { m with
    image := armPatchForgetRange address length m.image }) (r := r) msync mprotect mapped room
  exact ⟨m', congrArg some done⟩

/-- What is asked for, or the rest of the file if that is less, is read at once. -/
theorem copyExecutableFile_done {inode : Nat} (stat : e.stat = none)
    (copy : e.copy = [.upto (2 ^ 32)]) (file : m.image.host.inode r.descriptor = some inode)
    (size : m.image.host.size inode = 2 ^ 31 - 1) (sign : 0 ≤ r.offset)
    (short : r.length < 2 ^ 31) :
    ∃ m₁, m.copyExecutableFile r e address = some (.ok m₁) ∧
      m₁.image.host.pageSize = m.image.host.pageSize ∧
      m₁.image.host.pages = m.image.host.pages ∧ m₁.registry = m.registry := by
  have most : r.offset < 2 ^ 31 := by
    unfold Registers.offset signed32
    split <;> omega
  have known : m.image.host.fstat r.descriptor e.stat = .ok (2 ^ 31 - 1) := by
    rw [stat, fstat_ok file (by omega), size]
  have plain : signed32 r.length = r.length := by
    unfold signed32
    split <;> omega
  unfold Machine.copyExecutableFile
  rw [known, copy]
  dsimp only
  rw [if_neg (by omega), plain]
  generalize bound : (if ((2 ^ 31 - 1 - r.offset.toNat : Nat) : Int) < r.length then
    2 ^ 31 - 1 - r.offset.toNat else r.length) = fileBytes
  have within : fileBytes ≤ r.length ∧ r.offset.toNat + fileBytes ≤ 2 ^ 31 - 1 := by
    split at bound <;> omega
  obtain ⟨bytes, read⟩ := readExactAt_once file (size ▸ within.2)
    (show fileBytes ≤ 2 ^ 32 by omega)
  rw [read]
  exact ⟨_, rfl, rfl, rfl, rfl⟩

section Granting
variable {r : Registers} {protection : Protection}

theorem Registers.MayMap.mappedLength (may : r.MayMap protection) :
    r.openMachine.mappedLength r = (r.length + 4095) / 4096 * 4096 := by
  have fits := may.fits
  unfold guestMaxAddress guestMinAddress at fits
  exact alignUp_eq openHost (show r.length ≤ 2 ^ 32 - 1 - (4096 - 1) by omega)

theorem Registers.MayMap.place (may : r.MayMap protection) : r.openPlace % 4096 = 0 ∧
    guestMinAddress ≤ r.openPlace ∧
    r.openPlace + r.openMachine.mappedLength r ≤ guestMaxAddress := by
  have fits := may.fits
  rw [may.mappedLength]
  unfold Registers.openPlace guestMaxAddress guestMinAddress at *
  split
  · rename_i set
    obtain ⟨aligned, low, high⟩ := may.fixed set
    unfold guestMaxAddress guestMinAddress at *
    omega
  · omega

theorem openTable_valid (may : r.MayMap protection) : r.openTable.Valid := by
  unfold Registers.openTable
  split
  · have positive := may.positive
    have length := may.mappedLength
    refine ⟨⟨⟨?_, List.pairwise_singleton _ _⟩, List.isChain_singleton _⟩, by simp [maxRuntimeMappings],
      by simp [empty]⟩
    intro p member
    rw [List.mem_singleton] at member
    subst member
    show r.address < r.address + r.openMachine.mappedLength r
    omega
  · exact reachable_valid .start

theorem Registers.MayMap.checked (may : r.MayMap protection) : r.openMachine.Checked r protection := by
  have fits := may.fits
  unfold guestMaxAddress guestMinAddress at fits
  refine ⟨may.translated, may.oneKind, may.positive, ?_, ?_, may.sharedData⟩
  · show r.length ≤ 2 ^ 32 - 1 - (4096 - 1)
    omega
  · intro set
    refine ⟨(may.fixed set).1, ?_⟩
    have positive := may.positive
    have length := may.mappedLength
    obtain ⟨-, -, high⟩ := may.place
    rw [Registers.openPlace, if_pos set] at high
    refine (guestMemoryRuntimeOwned_iff _ _ _).mpr ⟨?_, ?_, ?_⟩
    · show 0 < r.openMachine.mappedLength r
      omega
    · exact Nat.le_trans high (by decide)
    · intro x low above
      show r.openTable.flagAt x ≠ none
      rw [Registers.openTable, if_pos set, Table.flagAt, ne_eq, Piece.flagAt_eq_none]
      exact fun none => none _ List.mem_cons_self ⟨low, above⟩

theorem offset_whole (r : Registers) (sign : 0 ≤ r.offset) : r.offset.toNat % 4096 = 0 := by
  unfold Registers.offset signed32 at *
  split at sign <;> split <;> omega

theorem Registers.MayMap.canMap (may : r.MayMap protection) (sign : 0 ≤ r.offset) :
    openHost.canMap r.address r.length (r.hostFlags protection)
      (if r.copies protection then -1 else r.descriptor)
      (if r.copies protection then 0 else r.offset) r.openPlace = true := by
  obtain ⟨aligned, -, high⟩ := may.place
  rw [may.mappedLength] at high
  have inside : r.openPlace + openHost.pageCount r.length * openHost.pageSize.bytes ≤ 2 ^ 32 :=
    Nat.le_trans high (by decide)
  have start : r.openPlace % openHost.pageSize.bytes = 0 := aligned
  have place : (if (r.hostFlags protection).fixed then decide (r.openPlace = r.address)
      else openHost.spanAll r.openPlace r.length Option.isNone) = true := by
    show (if r.mapFixed then _ else _) = true
    split
    · rename_i set
      rw [Registers.openPlace, if_pos set]
      exact decide_eq_true rfl
    · exact List.all_eq_true.mpr fun _ _ => rfl
  have file : ((r.hostFlags protection).anonymous ||
      ((openHost.inode (if r.copies protection then -1 else r.descriptor)).isSome &&
        decide (0 ≤ if r.copies protection then 0 else r.offset) &&
        decide ((if r.copies protection then 0 else r.offset).toNat %
          openHost.pageSize.bytes = 0))) = true := by
    cases copies : r.copies protection with
    | true => simp [Registers.hostFlags, copies]
    | false =>
      have whole : r.offset.toNat % openHost.pageSize.bytes = 0 := offset_whole r sign
      have file (descriptor : Int) : openHost.inode descriptor = some 0 := rfl
      simp [sign, whole, file]
  unfold Host.canMap
  rw [place, file]
  simp only [start, inside, may.positive, decide_true, Bool.and_self]

/-- The mapped pages are there, whatever is copied into them. -/
theorem granted_spanAll {h after host : Host} {result : Nat} {flags : MapFlags}
    {descriptor offset : Int}
    (granted : h.Granted address length protection flags descriptor offset result after)
    (size : host.pageSize = after.pageSize) (pages : host.pages = after.pages) :
    host.spanAll result (h.pageCount length * h.pageSize.bytes) Option.isSome = true := by
  have same : after.pageSize = h.pageSize := (granted_files granted).pageSize
  refine (spanAll_iff host result _ Option.isSome).mpr ?_
  intro n member
  rw [inSpan_congr (size.trans same), inSpan_rounded] at member
  rw [pages, granted.after]
  simp [Host.map, member]

theorem finishMmap2_done (may : r.MayMap protection) (sign : 0 ≤ r.offset)
    (size : m.image.host.size = openHost.size) (inode : m.image.host.inode = openHost.inode)
    (mapped : ∀ host : Host, host.pageSize = m.image.host.pageSize →
      host.pages = m.image.host.pages →
      host.spanAll r.openPlace (r.openMachine.mappedLength r) Option.isSome = true)
    (registry : m.registry = r.openTable) :
    ∃ m', m.finishMmap2 r r.openAnswers protection r.openPlace (r.openMachine.mappedLength r) =
      some ((r.openPlace : Int), m') := by
  obtain ⟨-, low, high⟩ := may.place
  have positive := may.positive
  have fits := may.fits
  have length := may.mappedLength
  have room : (guestMemoryRuntimeMap r.openTable r.openPlace (r.openMachine.mappedLength r)
      (if protection.exec then 1 else 0)).code = 0 := by
    refine map_room (openTable_valid may) _ (by omega) (Nat.le_trans high (by decide)) ?_
    unfold Registers.openTable
    split
    · exact show 1 + 2 ≤ 2048 by decide
    · exact show 0 + 2 ≤ 2048 by decide
  unfold Machine.finishMmap2
  rw [if_neg (by omega)]
  cases copies : r.copies protection with
  | false => exact patchMapping_done rfl rfl rfl (mapped _ rfl rfl) (registry ▸ room)
  | true =>
    have file : m.image.host.inode r.descriptor = some 0 := congrFun inode r.descriptor
    obtain ⟨m₁, copied, pageSize, pages, same⟩ := copyExecutableFile_done (m := m) (r := r)
      (e := r.openAnswers) rfl rfl file (congrFun size 0) sign
      (Nat.lt_of_le_of_lt fits (by decide))
    rw [if_pos rfl, copied]
    exact patchMapping_done rfl rfl rfl (mapped _ pageSize pages) (same.trans registry ▸ room)

theorem openMachine_maps (may : r.MayMap protection) (sign : 0 ≤ r.offset) :
    ∃ m', linuxMmap2 r r.openAnswers r.openMachine = some ((r.openPlace : Int), m') := by
  unfold linuxMmap2
  rw [may.checked.ok may.known]
  obtain ⟨errno, asked, -⟩ | ⟨mapping, host, asked, result⟩ := mmap_cases r.openMachine r.address
    r.length (r.mappingProtection protection) (r.hostFlags protection)
    (if r.copies protection then -1 else r.descriptor)
    (if r.copies protection then 0 else r.offset) r.openAnswers.mmap
  · cases (if_pos (may.canMap sign)).symm.trans asked
  · dsimp only
    rw [result]
    have granted := mmap_granted asked
    have files := granted_files granted
    obtain ⟨calls, noted⟩ := noteFixed_frame r.openMachine (r.hostFlags protection) r.address
      (alignUp r.length r.openMachine.pageBytes)
    cases (if_pos (may.canMap sign)).symm.trans asked
    rw [noted]
    dsimp only [Machine.pageBytes, Image.remap]
    rw [files.pageSize]
    refine finishMmap2_done may sign files.size files.inode ?_ rfl
    intro host size pages
    have whole : r.openMachine.mappedLength r =
      openHost.pageCount r.length * openHost.pageSize.bytes := may.mappedLength
    rw [whole]
    exact granted_spanAll granted size pages

end Granting

/-! ## The five calls -/

inductive OffsetCall where
  | file (c : FileSyscall) (r : Registers)
  | mmap2 (r : Registers)

def OffsetCall.Honoured : OffsetCall → Prop
  | .file c r => c.Honoured r
  | .mmap2 r => r.OffsetHonoured

/-- The value fits the host's `off_t`, or what is left of it is refused. For `mmap2` the
value counts pages of 4096 bytes, and other reasons to refuse come first. -/
def OffsetCall.Sound : OffsetCall → Prop
  | .file c r => c.Fits r ∨ c.Refused r
  | .mmap2 r => r.mapAnonymous = true ∨ r.r5.toNat < 2 ^ 19 ∨ 2 ^ 19 ≤ r.r5.toNat % 2 ^ 20 ∨
      ¬ ∃ protection, r.MayMap protection

theorem offset_exact : r.offset = r.r5.toNat * 4096 ↔ r.r5.toNat < 2 ^ 19 := by
  have := r.r5.toNat_lt
  unfold Registers.offset signed32
  split <;> omega

theorem offset_negative : r.offset < 0 ↔ 2 ^ 19 ≤ r.r5.toNat % 2 ^ 20 := by
  unfold Registers.offset signed32
  split <;> omega

theorem offsetHonoured_iff (r : Registers) : r.OffsetHonoured ↔
    r.mapAnonymous = true ∨ r.r5.toNat < 2 ^ 19 ∨ 2 ^ 19 ≤ r.r5.toNat % 2 ^ 20 ∨
      ¬ ∃ protection, r.MayMap protection := by
  constructor
  · intro honoured
    by_contra lost
    simp only [not_or, not_not] at lost
    obtain ⟨named, large, sign, protection, may⟩ := lost
    rw [← offset_exact] at large
    rw [← offset_negative, Int.not_lt] at sign
    obtain ⟨m', done⟩ := openMachine_maps may sign
    obtain anonymous | exact | ⟨failed, -⟩ := honoured _ _ _ _ done
    · exact named anonymous
    · exact large exact
    · omega
  · intro safe m m' e code call
    obtain failed | ⟨may, sign⟩ := linuxMmap2_early call
    · exact .inr (.inr failed)
    · obtain anonymous | small | negative | never := safe
      · exact .inl anonymous
      · exact .inr (.inl (offset_exact.mpr small))
      · cases named : r.mapAnonymous with
        | true => exact .inl rfl
        | false =>
          have := sign named
          have := offset_negative.mpr negative
          omega
      · exact absurd may never

/-- Offsets and lengths are honoured or refused exactly where narrowing loses nothing or
leaves what the host refuses. -/
theorem offset_honoured_iff (call : OffsetCall) : call.Honoured ↔ call.Sound := by
  cases call with
  | file c r =>
    show c.Honoured r ↔ c.Fits r ∨ c.Refused r
    rw [c.honoured_iff, c.offset_exact_iff, c.invalid_iff]
  | mmap2 r => exact offsetHonoured_iff r

/-- `pread64` at 4 GiB reads the start of the file, and `mmap2` at 4 GiB maps it. -/
theorem four_gigabytes_is_zero :
    let r : Registers := ⟨3, 0x20000, 16, 0, 0, 1⟩
    let page : Registers := ⟨0, 0x1000, 1, 2, 3, 0x100000⟩
    FileSyscall.pread64.requested r = 2 ^ 32 ∧
    (FileSyscall.pread64.hostCall r).offset = 0 ∧
    FileSyscall.pread64.run r FileSyscall.willing () = (0, none, ()) ∧
    page.r5.toNat * 4096 = 2 ^ 32 ∧ page.offset = 0 ∧
    (linuxMmap2 page page.openAnswers page.openMachine).map Prod.fst = some 0x10000 := by
  intro r page
  exact ⟨by decide +kernel, by decide +kernel, by decide +kernel, by decide +kernel,
    by decide +kernel, by decide +kernel⟩

end Linuxemu.Guest
