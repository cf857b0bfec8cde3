import Linuxemu.Errno
import Linuxemu.Lib.Words

/-! The host under the emulator: pages and what backs them, files, and the host
calls that `guest_memory.c`, `arm_patch.c` and the memory system calls make. How
a call turns out is a parameter; an outcome no host can give counts as a failure. -/
namespace Linuxemu.Guest
open Lib

/-- `align_down` of `util.c` on the 32-bit host. -/
def alignDown (value alignment : Nat) : Nat := value &&& (2 ^ 32 - alignment)

def alignUp (value alignment : Nat) : Nat :=
  (value + alignment - 1) % 2 ^ 32 &&& (2 ^ 32 - alignment)

/-- The host page size, a power of two. -/
structure PageSize where
  shift : Nat
  least : 12 ≤ shift
  most : shift < 32

/-- The smallest, of 4096 bytes. -/
def PageSize.smallest : PageSize := ⟨12, by decide, by decide⟩

def PageSize.bytes (p : PageSize) : Nat := 2 ^ p.shift

structure Protection where
  read : Bool
  write : Bool
  exec : Bool
  deriving DecidableEq, Repr

/-- A mapped page. A shared page shows a page of a file, named by the file and
the number of the page in it; any other page holds bytes of its own. A page past
the end of its file is `absent`: every access to it is a bus error. -/
structure Page where
  protection : Protection
  shared : Option (Nat × Nat)
  absent : Bool
  deriving DecidableEq, Repr

/-- `pages` is by page number. `bytes` holds the process's own memory by address
(region `none`) and each file by offset (region `some inode`). -/
structure Host where
  pageSize : PageSize
  pages : Nat → Option Page
  bytes : Store (Option Nat)
  size : Nat → Nat
  inode : Int → Option Nat

/-- The processor has no page that can be written or executed but not read. -/
def Page.readable (page : Page) : Bool :=
  page.protection.read || page.protection.write || page.protection.exec

def Page.writable (page : Page) : Bool := page.protection.write

def Host.page (h : Host) (address : Nat) : Option Page := h.pages (address / h.pageSize.bytes)

/-- Where the byte at an address of this page is kept. -/
def Host.placeOn (h : Host) (page : Page) (address : Nat) : Place (Option Nat) :=
  match page.shared with
  | none => ⟨none, address⟩
  | some (inode, number) =>
    ⟨some inode, number * h.pageSize.bytes + address % h.pageSize.bytes⟩

/-- The place behind an address, if the page is there and allows the access. -/
def Host.access (h : Host) (allowed : Page → Bool) (address : Nat) :
    Option (Place (Option Nat)) :=
  match h.page address with
  | none => none
  | some page => if allowed page && !page.absent then some (h.placeOn page address) else none

/-- The aligned word at an address, through an access of this kind. -/
def Host.wordVia (h : Host) (allowed : Page → Bool) (address : Nat) : Option UInt32 :=
  (h.access allowed address).map (wordAt h.bytes)

/-- Load an aligned word; `none` is a fault. -/
def Host.loadWord (h : Host) (address : Nat) : Option UInt32 := h.wordVia Page.readable address

/-- The word that is there, whatever the protection of its page. -/
def Host.peek (h : Host) (address : Nat) : Option UInt32 := h.wordVia (fun _ => true) address

def Host.storeWord (h : Host) (address : Nat) (word : UInt32) : Option Host :=
  (h.access Page.writable address).map fun p => { h with bytes := setWord h.bytes p word }

def Host.storeByte (h : Host) (address : Nat) (value : UInt8) : Option Host :=
  (h.access Page.writable address).map fun p => { h with bytes := setByte h.bytes p value }

/-- Fill `length` bytes of the process's own memory. -/
def Host.fill (h : Host) (address length : Nat) (value : Nat → UInt8) : Host :=
  { h with
    bytes := fun p =>
      if p.region = none ∧ address ≤ p.index ∧ p.index < address + length
      then value (p.index - address) else h.bytes p }

/-! ## Mapping calls -/

structure MapFlags where
  shared : Bool
  fixed : Bool
  anonymous : Bool
  deriving DecidableEq, Repr

/-- The pages a host call on `length` bytes works on. -/
def Host.pageCount (h : Host) (length : Nat) : Nat :=
  (length + h.pageSize.bytes - 1) / h.pageSize.bytes

def Host.inSpan (h : Host) (start length page : Nat) : Bool :=
  decide (start / h.pageSize.bytes ≤ page) &&
    decide (page < start / h.pageSize.bytes + h.pageCount length)

def Host.spanAll (h : Host) (start length : Nat) (p : Option Page → Bool) : Bool :=
  (List.range (h.pageCount length)).all fun k => p (h.pages (start / h.pageSize.bytes + k))

/-- The file a mapping shows. -/
def Host.backing (h : Host) (flags : MapFlags) (descriptor : Int) : Option Nat :=
  if flags.anonymous then none else h.inode descriptor

/-- A placement the host can give: aligned, inside the address space, where it was
asked to be with `MAP_FIXED` and on free pages otherwise. -/
def Host.canMap (h : Host) (address length : Nat) (flags : MapFlags) (descriptor offset : Int)
    (result : Nat) : Bool :=
  decide (result % h.pageSize.bytes = 0) &&
  decide (result + h.pageCount length * h.pageSize.bytes ≤ 2 ^ 32) &&
  decide (0 < length) &&
  (if flags.fixed then decide (result = address) else h.spanAll result length Option.isNone) &&
  (flags.anonymous || ((h.inode descriptor).isSome && decide (0 ≤ offset) &&
    decide (offset.toNat % h.pageSize.bytes = 0)))

def Host.newPage (h : Host) (protection : Protection) (flags : MapFlags) (file : Option Nat)
    (number : Nat) : Page :=
  match file with
  | none => ⟨protection, none, false⟩
  | some inode => ⟨protection, if flags.shared then some (inode, number) else none,
      decide (h.size inode ≤ number * h.pageSize.bytes)⟩

/-- A byte of fresh private memory: the file's byte inside the file, zero elsewhere. -/
def Host.freshByte (h : Host) (file : Option Nat) (offset : Nat) : UInt8 :=
  match file with
  | none => 0
  | some inode => if offset < h.size inode then h.bytes ⟨some inode, offset⟩ else 0

def Host.map (h : Host) (result length : Nat) (protection : Protection) (flags : MapFlags)
    (file : Option Nat) (offset : Nat) : Host :=
  let placed := h.fill result (h.pageCount length * h.pageSize.bytes)
    fun k => h.freshByte file (offset + k)
  { placed with
    pages := fun n =>
      if h.inSpan result length n then
        some (h.newPage protection flags file
          (offset / h.pageSize.bytes + (n - result / h.pageSize.bytes)))
      else h.pages n }

/-- A refused call is taken to change nothing, also with `MAP_FIXED`, where POSIX allows that the
old mappings are gone. -/
def Host.mmap (h : Host) (address length : Nat) (protection : Protection) (flags : MapFlags)
    (descriptor offset : Int) (outcome : Except Errno Nat) : Except Errno (Nat × Host) :=
  match outcome with
  | .error errno => .error errno
  | .ok result =>
    if h.canMap address length flags descriptor offset result then
      .ok (result, h.map result length protection flags (h.backing flags descriptor)
        offset.toNat)
    else .error .enomem

def Host.munmap (h : Host) (start length : Nat) : Host :=
  { h with pages := fun n => if h.inSpan start length n then none else h.pages n }

def Host.protect (h : Host) (start length : Nat) (protection : Protection) : Host :=
  { h with
    pages := fun n =>
      if h.inSpan start length n then (h.pages n).map ({ · with protection }) else h.pages n }

/-- Fails on a page that is not mapped. A refused call is taken to change nothing, where POSIX
allows that a part of the range has been changed. -/
def Host.mprotect (h : Host) (start length : Nat) (protection : Protection)
    (failure : Option Errno) : Except Errno Host :=
  match failure with
  | some errno => .error errno
  | none =>
    if h.spanAll start length Option.isSome then .ok (h.protect start length protection)
    else .error .enomem

/-! ## Files -/

/-- `st_size`. A file that a 32-bit `off_t` cannot measure gives `EOVERFLOW`. -/
def Host.fstat (h : Host) (descriptor : Int) (failure : Option Errno) : Except Errno Nat :=
  match failure, h.inode descriptor with
  | some errno, _ => .error errno
  | none, none => .error .ebadf
  | none, some inode => if h.size inode < 2 ^ 31 then .ok (h.size inode) else .error (.other 79)

/-- What one `pread` does: it fails, or may read up to so many bytes. -/
inductive Pread where
  | failed (errno : Errno)
  | upto (count : Nat)

def Host.slice (h : Host) (inode offset length : Nat) : List UInt8 :=
  (List.range length).map fun k => h.bytes ⟨some inode, offset + k⟩

/-- `read_exact_at`, one `pread` after another; `none` while the last one has not
returned. -/
def Host.readExactAt (h : Host) (descriptor : Int) (length offset : Nat) :
    List Pread → Option (Except Errno (List UInt8))
  | [] => if length = 0 then some (.ok []) else none
  | result :: rest =>
    if length = 0 then some (.ok [])
    else match result, h.inode descriptor with
    | .failed .eintr, _ => h.readExactAt descriptor length offset rest
    | .failed errno, _ => some (.error errno)
    | .upto _, none => some (.error .ebadf)
    | .upto count, some inode =>
      let got := min count (min length (h.size inode - offset))
      if got = 0 then some (.error .eio)
      else match h.readExactAt descriptor (length - got) (offset + got) rest with
        | some (.ok more) => some (.ok (h.slice inode offset got ++ more))
        | other => other

end Linuxemu.Guest
