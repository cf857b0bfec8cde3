import Linuxemu.Descriptors
import Linuxemu.Lib.LittleEndian
import Mathlib.Data.List.Basic

/-! `getdents64` (`linux_syscall.c`). The emulator keeps a stream of the host for a descriptor
once its entries are asked for, and copies records from it until one does not fit; that one goes
back to the stream. `lseek` moves the offset of the descriptor, which the stream does not share. -/
namespace Linuxemu.Dir
open Linuxemu.Path (Text)
open Fd
open Lib

/-! ## Host streams -/

structure Dirent where
  inode : UInt64
  name : Text
  whole : 0 ∉ name
  deriving DecidableEq

/-- A directory that does not change. `telldir` gives a number for every place between its
entries, by which `seekdir` finds it; the reads of a stream are numbered, and some may fail. -/
structure HostDirectory where
  listing : List Dirent
  tell : Nat → UInt64
  seek : UInt64 → Nat
  fault : Nat → Option Errno
  seek_tell : ∀ i ≤ listing.length, seek (tell i) = i

structure Stream where
  directory : HostDirectory
  position : Nat
  reads : Nat

namespace Stream

def opened (d : HostDirectory) : Stream := ⟨d, 0, 0⟩

def telldir (s : Stream) : UInt64 := s.directory.tell s.position

def seekdir (s : Stream) (offset : UInt64) : Stream :=
  { s with position := s.directory.seek offset }

/-- The next entry, none at the end. -/
def readdir (s : Stream) : Except Errno (Option Dirent) × Stream :=
  let s' := { s with reads := s.reads + 1 }
  match s.directory.fault s.reads with
  | some errno => (.error errno, s')
  | none =>
    match s.directory.listing[s.position]? with
    | none => (.ok none, s')
    | some entry => (.ok (some entry), { s' with position := s.position + 1 })

end Stream

/-! ## Records -/

structure Record where
  inode : UInt64
  offset : UInt64
  name : Text
  deriving DecidableEq, Repr

/-- `(19 + name_length + 7) & ~7`, with the NUL in the name's length. -/
def Record.size (r : Record) : Nat := (19 + (r.name.length + 1) + 7) / 8 * 8

/-- The bytes of a record; its type is unknown (0). -/
def Record.encode (r : Record) : List UInt8 :=
  toBytes 8 r.inode.toNat ++ toBytes 8 r.offset.toNat ++ toBytes 2 r.size ++ [0] ++ r.name ++
    List.replicate (r.size - (19 + r.name.length)) 0

/-! ## The call -/

structure Filled where
  buffer : List UInt8
  errno : Option Errno
  stream : Stream

theorem readdir_advances {s s' : Stream} {entry : Dirent}
    (read : s.readdir = (.ok (some entry), s')) :
    s.directory.listing[s.position]? = some entry ∧
      s' = { s with position := s.position + 1, reads := s.reads + 1 } := by
  unfold Stream.readdir at read
  dsimp only at read
  split at read
  · cases read
  · split at read
    · cases read
    · rename_i found
      cases read
      exact ⟨found, rfl⟩

def fillLoop (capacity : Nat) (s : Stream) (buffer : List UInt8) : Filled :=
  let previousOffset := s.telldir
  match _read : s.readdir with
  | (.error errno, s') => ⟨buffer, some errno, s'⟩
  | (.ok none, s') => ⟨buffer, none, s'⟩
  | (.ok (some entry), s') =>
    let record : Record := ⟨entry.inode, s'.telldir, entry.name⟩
    if capacity - buffer.length < record.size then ⟨buffer, none, s'.seekdir previousOffset⟩
    else fillLoop capacity s' (buffer ++ record.encode)
termination_by s.directory.listing.length - s.position
decreasing_by
  obtain ⟨found, rfl⟩ := readdir_advances _read
  obtain ⟨below, -⟩ := List.getElem?_eq_some_iff.mp found
  dsimp only
  omega

structure Tables where
  fds : Fd.Tables
  streams : Fin maxTrackedFds → Option Stream
  /-- The offsets that the host keeps for its descriptors. -/
  offsets : Int → UInt64

/-- What the guest gets: the result, and what was written to its buffer. -/
structure Answer where
  result : Int
  bytes : List UInt8
  deriving DecidableEq, Repr

def ebadf : Int := -9

/-- The `int32_t` of a size. -/
def int32 (n : Nat) : Int := (BitVec.ofNat 32 n).toInt

namespace Tables

def setStream (t : Tables) (i : Fin maxTrackedFds) (s : Stream) : Tables :=
  { t with streams := Function.update t.streams i (some s) }

/-- The loop on a stream, and what is returned of it. -/
def fill (t : Tables) (i : Fin maxTrackedFds) (s : Stream) (capacity : UInt32) :
    Answer × Tables :=
  let filled := fillLoop capacity.toNat s []
  let result :=
    match filled.buffer, filled.errno with
    | [], some errno => linuxError errno
    | buffer, _ => int32 buffer.length
  (⟨result, filled.buffer⟩, t.setStream i filled.stream)

def linuxGetdents64 (opendir : Text → Except Errno HostDirectory) (t : Tables) (fd : Int)
    (capacity : UInt32) : Answer × Tables :=
  match tracked fd with
  | none => (⟨ebadf, []⟩, t)
  | some i =>
    match t.streams i with
    | some s => t.fill i s capacity
    | none =>
      match t.fds.fdPaths i with
      | none => (⟨ebadf, []⟩, t)
      | some path =>
        match opendir path with
        | .error errno => (⟨linuxError errno, []⟩, t)
        | .ok d => t.fill i (.opened d) capacity

/-- `lseek` from the start of the file, or `_llseek` (`wide`), which stores the offset elsewhere
and returns 0. The host may refuse. -/
def linuxLseek (t : Tables) (wide : Bool) (fd : Int) (offset : UInt64) (refused : Option Errno) :
    Int × Tables :=
  match refused with
  | some errno => (linuxError errno, t)
  | none =>
    (if wide then 0 else int32 offset.toNat,
      { t with offsets := Function.update t.offsets fd offset })

end Tables

end Linuxemu.Dir
