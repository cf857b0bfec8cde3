import Linuxemu.Descriptors

/-! System calls on paths (`linux_syscall.c`). A call resolves its paths and asks the host for
something at the host paths; what it asked for, in order, is part of its outcome. The table of
paths that a successful `open` updates is in `Descriptors`. -/
namespace Linuxemu.Files
open Linuxemu.Path Fd

/-! ## The host -/

inductive Access where
  | rdonly | wronly | rdwr
  deriving DecidableEq, Repr

structure HostFlags where
  access : Access
  creat : Bool
  excl : Bool
  noctty : Bool
  trunc : Bool
  append : Bool
  nonblock : Bool
  dsync : Bool
  directory : Bool
  nofollow : Bool
  direct : Bool
  cloexec : Bool
  deriving DecidableEq, Repr

/-- The flags that only some hosts define. -/
structure Macros where
  dsync : Bool
  directory : Bool
  nofollow : Bool
  direct : Bool
  cloexec : Bool

structure Status where
  kind : FileKind
  atime : Int
  mtime : Int
  deriving DecidableEq, Repr

inductive HostCall where
  | open (path : Text) (flags : HostFlags) (mode : UInt32)
  | stat (path : Text)
  | lstat (path : Text)
  | access (path : Text) (mode : UInt32)
  | mkdir (path : Text) (mode : UInt32)
  | unlink (path : Text)
  | rmdir (path : Text)
  | rename (old new : Text)
  | link (old new : Text)
  | symlink (target path : Text)
  | readlink (path : Text) (size : Nat)
  | chmod (path : Text) (mode : UInt32)
  | utime (path : Text) (times : Option (Int × Int))
  deriving DecidableEq, Repr

/-- What the emulator runs on: its paths and tables, and the host's answers while nothing changes.
`errno` is what the variable holds where a failing function leaves it as it is. -/
structure Env where
  paths : Paths
  tables : Tables
  macros : Macros
  errno : Errno
  /-- What a call returns if it is not one of those below. -/
  answer : HostCall → Except Errno Nat
  times : Text → Int × Int
  stat : Text → Except Errno Status
  now : Except Errno Int

/-- What is asked of the host, and whether the host did it. -/
structure Issued where
  call : HostCall
  succeeded : Bool
  deriving DecidableEq, Repr

/-- What the guest gets, and what was asked of the host for it. -/
structure Outcome where
  result : Int
  status : Option Status
  text : Option Text
  calls : List Issued

namespace Env
variable (e : Env)

def lstat (path : Text) : Except Errno Status :=
  (e.paths.host.lstat path).map fun kind => ⟨kind, (e.times path).1, (e.times path).2⟩

/-- A result without a host call. -/
def returns (result : Int) : Outcome := ⟨result, none, none, []⟩

def failed (errno : Option Errno) : Outcome := returns (linuxError (errno.getD e.errno))

/-- `linux_host_result` of one host call. -/
def issue (call : HostCall) : Outcome :=
  match e.answer call with
  | .error errno => ⟨linuxError errno, none, none, [⟨call, false⟩]⟩
  | .ok result => ⟨result, none, none, [⟨call, true⟩]⟩

def resolved (path : Result) (next : Text → Outcome) : Outcome :=
  match path with
  | .error errno => e.failed errno
  | .ok hostPath => next hostPath

def resolveAt (directoryFd : Int) (guestPath : Option Text) (allowMissingLeaf nofollow : Bool) :
    Result :=
  match e.tables.directoryPath directoryFd guestPath with
  | .error errno => .error (some errno)
  | .ok (some base) =>
    guestPathResolveAt e.paths (some base) guestPath allowMissingLeaf nofollow e.paths.pathMax
  | .ok none =>
    if nofollow then guestPathResolveNofollow e.paths guestPath e.paths.pathMax
    else guestPathResolve e.paths guestPath allowMissingLeaf e.paths.pathMax

end Env

/-! ## System calls -/

def linuxAtSymlinkNofollow : UInt32 := 0x100
def linuxAtRemovedir : UInt32 := 0x200
def linuxAtSymlinkFollow : UInt32 := 0x400

def hostOpenFlags (macros : Macros) (flags : UInt32) : Option HostFlags :=
  if linuxOpenFlags flags = false then none
  else some {
    access := if flags &&& 3 = 0 then .rdonly else if flags &&& 3 = 1 then .wronly else .rdwr
    creat := flags &&& linuxOCreat != 0
    excl := flags &&& linuxOExcl != 0
    noctty := flags &&& 0x100 != 0
    trunc := flags &&& 0x200 != 0
    append := flags &&& 0x400 != 0
    nonblock := flags &&& linuxONonblock != 0
    dsync := macros.dsync && flags &&& 0x1000 != 0
    directory := macros.directory && flags &&& 0x4000 != 0
    nofollow := macros.nofollow && flags &&& linuxONofollow != 0
    direct := macros.direct && flags &&& 0x10000 != 0
    cloexec := macros.cloexec && flags &&& linuxOCloexec != 0 }

/-- Whether `linux_open_path` leaves the last component alone. -/
def openNofollow (flags : UInt32) : Bool :=
  flags &&& linuxONofollow != 0 ||
    flags &&& (linuxOCreat ||| linuxOExcl) == linuxOCreat ||| linuxOExcl

/-- One of the two times; `none` where the nanoseconds are out of range. -/
def guestTime (now current : Int) (seconds nanoseconds : UInt32) : Option Int :=
  if nanoseconds = 0x3fffffff then some now
  else if nanoseconds = 0x3ffffffe then some current
  else if 1000000000 ≤ nanoseconds then none
  else some seconds.toBitVec.toInt

/-- Seconds and nanoseconds of the access and of the modification. -/
abbrev GuestTimes := (UInt32 × UInt32) × (UInt32 × UInt32)

namespace Env
variable (e : Env)

def linuxOpenPath (directoryFd : Int) (guestPath : Option Text) (flags mode : UInt32) : Outcome :=
  match hostOpenFlags e.macros flags with
  | none => returns einval
  | some hostFlags =>
    e.resolved (e.resolveAt directoryFd guestPath hostFlags.creat (openNofollow flags))
      fun hostPath => e.issue (.open hostPath hostFlags (mode &&& 0xfff))

def linuxStatPath (directoryFd : Int) (guestPath : Option Text) (follow : Bool) : Outcome :=
  e.resolved (e.resolveAt directoryFd guestPath false (!follow)) fun hostPath =>
    let call := if follow then HostCall.stat hostPath else .lstat hostPath
    match if follow then e.stat hostPath else e.lstat hostPath with
    | .error errno => ⟨linuxError errno, none, none, [⟨call, false⟩]⟩
    | .ok status => ⟨0, some status, none, [⟨call, true⟩]⟩

def linuxMkdirat (directoryFd : Int) (guestPath : Option Text) (mode : UInt32) : Outcome :=
  e.resolved (e.resolveAt directoryFd guestPath true true) fun hostPath =>
    e.issue (.mkdir hostPath (mode &&& 0xfff))

def linuxUnlinkat (directoryFd : Int) (guestPath : Option Text) (flags : UInt32) : Outcome :=
  if flags &&& ~~~linuxAtRemovedir ≠ 0 then returns einval
  else e.resolved (e.resolveAt directoryFd guestPath false true) fun hostPath =>
    e.issue (if flags &&& linuxAtRemovedir ≠ 0 then .rmdir hostPath else .unlink hostPath)

def linuxRenameat (oldDirectoryFd : Int) (oldGuestPath : Option Text) (newDirectoryFd : Int)
    (newGuestPath : Option Text) : Outcome :=
  e.resolved (e.resolveAt oldDirectoryFd oldGuestPath false true) fun oldHostPath =>
    e.resolved (e.resolveAt newDirectoryFd newGuestPath true true) fun newHostPath =>
      e.issue (.rename oldHostPath newHostPath)

def linuxFaccessat (directoryFd : Int) (guestPath : Option Text) (mode : UInt32) : Outcome :=
  if mode &&& ~~~7 ≠ 0 then returns einval
  else e.resolved (e.resolveAt directoryFd guestPath false false) fun hostPath =>
    e.issue (.access hostPath mode)

def linuxLinkat (oldDirectoryFd : Int) (oldGuestPath : Option Text) (newDirectoryFd : Int)
    (newGuestPath : Option Text) (flags : UInt32) : Outcome :=
  if flags &&& ~~~linuxAtSymlinkFollow ≠ 0 then returns einval
  else
    let nofollow := flags &&& linuxAtSymlinkFollow == 0
    e.resolved (e.resolveAt oldDirectoryFd oldGuestPath false nofollow) fun oldHostPath =>
      e.resolved (e.resolveAt newDirectoryFd newGuestPath true true) fun newHostPath =>
        e.issue (.link oldHostPath newHostPath)

def linuxSymlinkat (guestTarget : Option Text) (directoryFd : Int) (guestLink : Option Text) :
    Outcome :=
  match guestTarget with
  | none => returns (-14)
  | some target =>
    e.resolved (e.resolveAt directoryFd guestLink true true) fun hostLink =>
      e.issue (.symlink target hostLink)

def linuxChmodat (directoryFd : Int) (guestPath : Option Text) (mode : UInt32) : Outcome :=
  e.resolved (e.resolveAt directoryFd guestPath false false) fun hostPath =>
    e.issue (.chmod hostPath (mode &&& 0xfff))

/-- The text copied to the guest is as long as its buffer at most. -/
def hostReadlink (hostPath : Text) (size : Nat) : Outcome :=
  match e.paths.host.readlink hostPath with
  | .error errno => ⟨linuxError errno, none, none, [⟨.readlink hostPath size, false⟩]⟩
  | .ok target =>
    ⟨(target.take size).length, none, some (target.take size), [⟨.readlink hostPath size, true⟩]⟩

/-- `readlink`, by way of `guest_path_readlink`. -/
def linuxReadlink (guestPath : Option Text) (size : Nat) : Outcome :=
  e.resolved (guestPathResolveNofollow e.paths guestPath e.paths.pathMax) fun hostPath =>
    e.hostReadlink hostPath size

def linuxReadlinkat (directoryFd : Int) (guestPath : Option Text) (size : Nat) : Outcome :=
  e.resolved (e.resolveAt directoryFd guestPath false true) fun hostPath =>
    e.hostReadlink hostPath size

def linuxUtimensat (directoryFd : Int) (guestPath : Option Text) (guestTimes : Option GuestTimes)
    (flags : UInt32) : Outcome :=
  if flags &&& ~~~linuxAtSymlinkNofollow ≠ 0 then returns einval
  else
    let nofollow := flags &&& linuxAtSymlinkNofollow != 0
    e.resolved (e.resolveAt directoryFd guestPath false nofollow) fun hostPath =>
      match guestTimes with
      | none => e.issue (.utime hostPath none)
      | some (access, modification) =>
        let call := if nofollow then HostCall.lstat hostPath else .stat hostPath
        match if nofollow then e.lstat hostPath else e.stat hostPath with
        | .error errno => ⟨linuxError errno, none, none, [⟨call, false⟩]⟩
        | .ok status =>
          let looked (outcome : Outcome) : Outcome :=
            { outcome with calls := ⟨call, true⟩ :: outcome.calls }
          if nofollow ∧ status.kind = .symlink then looked (returns eopnotsupp)
          else match e.now with
            | .error errno => looked (e.failed (some errno))
            | .ok now =>
              match guestTime now status.atime access.1 access.2,
                  guestTime now status.mtime modification.1 modification.2 with
              | some actime, some modtime =>
                looked (e.issue (.utime hostPath (some (actime, modtime))))
              | _, _ => looked (returns einval)

end Env

inductive FileCall where
  | openat (directoryFd : Int) (guestPath : Option Text) (flags mode : UInt32)
  | stat (directoryFd : Int) (guestPath : Option Text) (follow : Bool)
  | mkdirat (directoryFd : Int) (guestPath : Option Text) (mode : UInt32)
  | unlinkat (directoryFd : Int) (guestPath : Option Text) (flags : UInt32)
  | renameat (oldDirectoryFd : Int) (oldGuestPath : Option Text) (newDirectoryFd : Int)
      (newGuestPath : Option Text)
  | faccessat (directoryFd : Int) (guestPath : Option Text) (mode : UInt32)
  | linkat (oldDirectoryFd : Int) (oldGuestPath : Option Text) (newDirectoryFd : Int)
      (newGuestPath : Option Text) (flags : UInt32)
  | symlinkat (guestTarget : Option Text) (directoryFd : Int) (guestLink : Option Text)
  | chmodat (directoryFd : Int) (guestPath : Option Text) (mode : UInt32)
  | readlink (guestPath : Option Text) (size : Nat)
  | readlinkat (directoryFd : Int) (guestPath : Option Text) (size : Nat)
  | utimensat (directoryFd : Int) (guestPath : Option Text) (guestTimes : Option GuestTimes)
      (flags : UInt32)

def FileCall.perform (e : Env) : FileCall → Outcome
  | .openat directoryFd guestPath flags mode => e.linuxOpenPath directoryFd guestPath flags mode
  | .stat directoryFd guestPath follow => e.linuxStatPath directoryFd guestPath follow
  | .mkdirat directoryFd guestPath mode => e.linuxMkdirat directoryFd guestPath mode
  | .unlinkat directoryFd guestPath flags => e.linuxUnlinkat directoryFd guestPath flags
  | .renameat oldFd oldPath newFd newPath => e.linuxRenameat oldFd oldPath newFd newPath
  | .faccessat directoryFd guestPath mode => e.linuxFaccessat directoryFd guestPath mode
  | .linkat oldFd oldPath newFd newPath flags => e.linuxLinkat oldFd oldPath newFd newPath flags
  | .symlinkat target directoryFd guestLink => e.linuxSymlinkat target directoryFd guestLink
  | .chmodat directoryFd guestPath mode => e.linuxChmodat directoryFd guestPath mode
  | .readlink guestPath size => e.linuxReadlink guestPath size
  | .readlinkat directoryFd guestPath size => e.linuxReadlinkat directoryFd guestPath size
  | .utimensat directoryFd guestPath times flags =>
    e.linuxUtimensat directoryFd guestPath times flags

end Linuxemu.Files
