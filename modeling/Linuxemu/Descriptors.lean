import Linuxemu.Path

/-! Descriptors (`linux_syscall.c`, `linux_socket.c`): the host's table of open files and
the tables that the emulator keeps beside it. An `eventfd` is a pipe whose write end, the
peer, is a descriptor like any other. Allocations succeed, and no directory stream is open:
only `getdents64` opens one. -/
namespace Linuxemu.Fd
open Linuxemu.Path (Text)

def maxTrackedFds : Nat := 256

inductive PipeEnd where
  | read | write
  deriving DecidableEq, Repr

/-- What an open file was created by; `other` is a socket or was inherited. -/
inductive OpenFile where
  | path (hostPath : Text)
  | pipe (number : Nat) (eventfd : Bool) (side : PipeEnd)
  | other
  deriving DecidableEq, Repr

/-! ## Host calls -/

structure Host where
  openMax : Nat
  table : Nat → Option OpenFile
  pipes : Nat

namespace Host

def file (h : Host) (fd : Int) : Option OpenFile := if 0 ≤ fd then h.table fd.toNat else none

def put (h : Host) (fd : Nat) (f : Option OpenFile) : Host :=
  { h with table := fun k => if k = fd then f else h.table k }

/-- New descriptors take the lowest free number from `first` on. -/
def install (h : Host) (first : Nat) (f : OpenFile) : Except Errno (Nat × Host) :=
  match (List.range' first (h.openMax - first)).find? (h.table · = none) with
  | none => .error .emfile
  | some fd => .ok (fd, h.put fd (some f))

def close (h : Host) (fd : Int) : Host := if 0 ≤ fd then h.put fd.toNat none else h

/-- The read end and the write end. -/
def pipe (h : Host) (eventfd : Bool) : Except Errno (Nat × Nat × Host) := do
  let (first, after) ← h.install 0 (.pipe h.pipes eventfd .read)
  let (second, after) ← after.install 0 (.pipe h.pipes eventfd .write)
  return (first, second, { after with pipes := h.pipes + 1 })

/-- `dup`, and `fcntl` with `F_DUPFD`. -/
def dupFrom (h : Host) (fd : Int) (first : Nat) : Except Errno (Nat × Host) :=
  match h.file fd with
  | none => .error .ebadf
  | some f => h.install first f

def fcntlDup (h : Host) (fd first : Int) : Except Errno (Nat × Host) :=
  if h.file fd = none then .error .ebadf
  else if first < 0 ∨ h.openMax ≤ first then .error .einval
  else h.dupFrom fd first.toNat

/-- `fcntl` with `F_GETFD` or `F_SETFD` fails on a closed descriptor only. -/
def fcntlFd (h : Host) (fd : Int) : Option Errno := if h.file fd = none then some .ebadf else none

def dup2 (h : Host) (source destination : Int) : Except Errno (Nat × Host) :=
  match h.file source with
  | none => .error .ebadf
  | some f =>
    if destination < 0 ∨ h.openMax ≤ destination then .error .ebadf
    else .ok (destination.toNat, h.put destination.toNat (some f))

end Host

/-! ## The emulator's tables -/

structure Tables where
  host : Host
  fdPaths : Fin maxTrackedFds → Option Text
  eventfdWritePeers : Fin maxTrackedFds → Nat

def tracked (fd : Int) : Option (Fin maxTrackedFds) :=
  if h : 0 ≤ fd ∧ fd < maxTrackedFds then some ⟨fd.toNat, by omega⟩ else none

namespace Tables

def isWakeEventfd (s : Tables) (fd : Int) : Bool :=
  match tracked fd with
  | none => false
  | some i => s.eventfdWritePeers i != 0

def setPeer (s : Tables) (i : Fin maxTrackedFds) (peer : Nat) : Tables :=
  { s with eventfdWritePeers := Function.update s.eventfdWritePeers i peer }

def setPath (s : Tables) (i : Fin maxTrackedFds) (path : Option Text) : Tables :=
  { s with fdPaths := Function.update s.fdPaths i path }

def releaseWakeEventfd (s : Tables) (fd : Int) : Tables :=
  match tracked fd with
  | none => s
  | some i =>
    if s.eventfdWritePeers i = 0 then s
    else { s.setPeer i 0 with host := s.host.close (s.eventfdWritePeers i - 1 : Nat) }

def path (s : Tables) (fd : Int) : Option Text := (tracked fd).bind s.fdPaths

def copyFdPath (s : Tables) (source destination : Int) : Tables :=
  match tracked destination with
  | none => s
  | some i => s.setPath i (s.path source)

end Tables

/-! ## System calls -/

/-- What `-EINVAL`, `-EMFILE` and `-LINUX_EOPNOTSUPP` give. -/
def einval : Int := -22
def emfile : Int := -24
def eopnotsupp : Int := -95

def linuxError (errno : Errno) : Int := -(linuxErrnoNumber errno)

theorem linuxError_neg (errno : Errno) : linuxError errno < 0 := by
  have := linuxErrnoNumber_pos errno
  unfold linuxError
  omega

def linuxOCreat : UInt32 := 0x40
def linuxOExcl : UInt32 := 0x80
def linuxONofollow : UInt32 := 0x8000
def linuxONonblock : UInt32 := 0x800
def linuxOCloexec : UInt32 := 0x80000
def linuxAtFdcwd : Int := -100

def linuxEfdSemaphore : UInt32 := 0x1

/-- A host call may also fail for reasons of the host's own. -/
def refuse {α : Type} (refused : Option Errno) (answer : Except Errno α) : Except Errno α :=
  match refused with
  | some errno => .error errno
  | none => answer

/-- Whether `linux_open_flags` knows the flags. -/
def linuxOpenFlags (flags : UInt32) : Bool := flags &&& ~~~0xbdfc3 == 0 && flags &&& 3 != 3

/-- The resolution functions of `guest_path.c` as `resolve_at` calls them: from a directory's
path, for a path, with or without a missing leaf, not following the last link or doing so. -/
abbrev Resolver := Option Text → Option Text → (allowMissingLeaf nofollow : Bool) → Except Errno Text

namespace Tables
variable (s : Tables)

def directoryPath (directoryFd : Int) (guestPath : Option Text) : Except Errno (Option Text) :=
  if (guestPath.bind List.head?) = some Path.slash ∨ directoryFd = linuxAtFdcwd then .ok none
  else match s.path directoryFd with
    | none => .error .ebadf
    | some base => .ok (some base)

def linuxOpenPath (directoryFd : Int) (guestPath : Option Text) (flags : UInt32) (resolve : Resolver)
    (refused : Option Errno) : Int × Tables :=
  if linuxOpenFlags flags = false then (einval, s)
  else
    let missing := flags &&& linuxOCreat != 0
    let nofollow := flags &&& linuxONofollow != 0 ||
      flags &&& (linuxOCreat ||| linuxOExcl) == linuxOCreat ||| linuxOExcl
    let resolved := do
      let base ← s.directoryPath directoryFd guestPath
      resolve base guestPath missing nofollow
    match resolved with
    | .error errno => (linuxError errno, s)
    | .ok hostPath =>
      match refuse refused (s.host.install 0 (.path hostPath)) with
      | .error errno => (linuxError errno, s)
      | .ok (fd, host) =>
        match tracked fd with
        | none => (fd, { s with host := host })
        | some i => (fd, { s with host := host }.setPath i (some hostPath))

/-- `answer` is what the host's `close` says of a descriptor it has closed. -/
def linuxCloseFd (fd : Int) (answer : Option Errno) : Int × Tables :=
  let s := match tracked fd with
    | none => s
    | some i => (s.releaseWakeEventfd fd).setPath i none
  match s.host.file fd with
  | none => (linuxError .ebadf, s)
  | some _ => ((answer.map linuxError).getD 0, { s with host := s.host.close fd })

/-- `linux_fcntl64` with `F_DUPFD` (0) or `F_DUPFD_CLOEXEC` (1030). -/
def linuxFcntlDup (fd : Int) (cloexec : Bool) (argument : Int) (refused : Option Errno) :
    Int × Tables :=
  if s.isWakeEventfd fd then (eopnotsupp, s)
  else match refuse refused (s.host.fcntlDup fd argument) with
    | .error errno => (linuxError errno, s)
    | .ok (result, host) =>
      match if cloexec then host.fcntlFd result else none with
      | some errno => (linuxError errno, { s with host := host.close result })
      | none => (result, { s with host := host }.copyFdPath fd result)

def linuxDup (fd : Int) (refused : Option Errno) : Int × Tables :=
  if s.isWakeEventfd fd then (eopnotsupp, s)
  else match refuse refused (s.host.dupFrom fd 0) with
    | .error errno => (linuxError errno, s)
    | .ok (result, host) => (result, { s with host := host }.copyFdPath fd result)

def linuxDup2 (source destination : Int) (refused : Option Errno) : Int × Tables :=
  if source = destination then
    match s.host.fcntlFd source with
    | some errno => (linuxError errno, s)
    | none => (source, s)
  else if s.isWakeEventfd source then (eopnotsupp, s)
  else match s.host.fcntlFd source with
    | some errno => (linuxError errno, s)
    | none =>
      let s := s.releaseWakeEventfd destination
      match refuse refused (s.host.dup2 source destination) with
      | .error errno => (linuxError errno, s)
      | .ok (result, host) => (result, { s with host := host }.copyFdPath source result)

def linuxDup3 (source destination : Int) (flags : UInt32) (refused : Option Errno) : Int × Tables :=
  if source = destination ∨ flags &&& ~~~linuxOCloexec ≠ 0 then (einval, s)
  else if s.isWakeEventfd source then (eopnotsupp, s)
  else match s.host.fcntlFd source with
    | some errno => (linuxError errno, s)
    | none =>
      let s := s.releaseWakeEventfd destination
      match refuse refused (s.host.dup2 source destination) with
      | .error errno => (linuxError errno, s)
      | .ok (result, host) =>
        let s := { s with host := host }
        match if flags &&& linuxOCloexec ≠ 0 then host.fcntlFd destination else none with
        | some errno => (linuxError errno, s)
        | none => (result, s.copyFdPath source destination)

/-- `configured` is the failure of a call that sets the flags of a new descriptor. -/
def linuxPipe (flags : UInt32) (refused configured : Option Errno) : Int × Tables :=
  if flags &&& ~~~(linuxONonblock ||| linuxOCloexec) ≠ 0 then (einval, s)
  else match refuse refused (s.host.pipe false) with
    | .error errno => (linuxError errno, s)
    | .ok (first, second, host) =>
      match if flags ≠ 0 then configured else none with
      | some errno => (linuxError errno, { s with host := (host.close first).close second })
      | none => (0, { s with host := host }.copyFdPath (-1) first |>.copyFdPath (-1) second)

def linuxEventfd2 (initialValue flags : UInt32) (refused configured : Option Errno) : Int × Tables :=
  if flags &&& ~~~(linuxEfdSemaphore ||| linuxONonblock ||| linuxOCloexec) ≠ 0 then (einval, s)
  else if initialValue ≠ 0 ∨ flags ≠ linuxONonblock ||| linuxOCloexec then (eopnotsupp, s)
  else match refuse refused (s.host.pipe true) with
    | .error errno => (linuxError errno, s)
    | .ok (first, second, host) =>
      match tracked first with
      | none => (emfile, { s with host := (host.close first).close second })
      | some i =>
        match configured with
        | some errno => (linuxError errno, { s with host := (host.close first).close second })
        | none => (first, { s with host := host }.setPeer i (second + 1) |>.copyFdPath (-1) first)

end Tables

/-- Whether `host_domain` knows the domain. -/
def hostDomain (linuxDomain : Int) : Bool := linuxDomain == 1 || linuxDomain == 2 || linuxDomain == 10

/-- Whether `socket_type` accepts the type, and if so whether it has flags to set. -/
def socketType (linuxType : UInt32) : Option Bool :=
  let flags := linuxType &&& ~~~0xf
  let type := linuxType &&& 0xf
  if flags &&& ~~~(linuxONonblock ||| linuxOCloexec) ≠ 0 ∨ type < 1 ∨ 5 < type then none
  else some (flags != 0)

namespace Tables
variable (s : Tables)

def makeSocket (domain : Int) (linuxType : UInt32) (refused configured : Option Errno) :
    Int × Tables :=
  if hostDomain domain = false then (einval, s)
  else match socketType linuxType with
    | none => (einval, s)
    | some flagged =>
      match refuse refused (s.host.install 0 .other) with
      | .error errno => (linuxError errno, s)
      | .ok (fd, host) =>
        match if flagged then configured else none with
        | some errno => (linuxError errno, { s with host := host.close fd })
        | none => (fd, { s with host := host })

/-- `flags` are those of `accept4`; `stored` is what `store_address` returns, 0 where the
guest asks for no address. -/
def acceptSocket (listener : Int) (flags : Option UInt32) (refused configured : Option Errno)
    (stored : Int) : Int × Tables :=
  match (flags.map fun flags => socketType (1 ||| flags)).getD (some false) with
  | none => (einval, s)
  | some flagged =>
    match refuse ((s.host.fcntlFd listener).or refused) (s.host.install 0 .other) with
    | .error errno => (linuxError errno, s)
    | .ok (fd, host) =>
      match if flagged then configured else none with
      | some errno => (linuxError errno, { s with host := host.close fd })
      | none =>
        if stored ≠ 0 then (stored, { s with host := host.close fd })
        else (fd, { s with host := host })

end Tables

inductive Call where
  | openat (directoryFd : Int) (guestPath : Option Text) (flags : UInt32) (resolve : Resolver)
      (refused : Option Errno)
  | close (fd : Int) (answer : Option Errno)
  | dup (fd : Int) (refused : Option Errno)
  | dup2 (source destination : Int) (refused : Option Errno)
  | dup3 (source destination : Int) (flags : UInt32) (refused : Option Errno)
  | fcntlDup (fd : Int) (cloexec : Bool) (argument : Int) (refused : Option Errno)
  | pipe (flags : UInt32) (refused configured : Option Errno)
  | eventfd2 (initialValue flags : UInt32) (refused configured : Option Errno)
  | socket (domain : Int) (linuxType : UInt32) (refused configured : Option Errno)
  | accept (listener : Int) (flags : Option UInt32) (refused configured : Option Errno) (stored : Int)

def Tables.call (s : Tables) : Call → Int × Tables
  | .openat directoryFd guestPath flags resolve refused =>
    s.linuxOpenPath directoryFd guestPath flags resolve refused
  | .close fd answer => s.linuxCloseFd fd answer
  | .dup fd refused => s.linuxDup fd refused
  | .dup2 source destination refused => s.linuxDup2 source destination refused
  | .dup3 source destination flags refused => s.linuxDup3 source destination flags refused
  | .fcntlDup fd cloexec argument refused => s.linuxFcntlDup fd cloexec argument refused
  | .pipe flags refused configured => s.linuxPipe flags refused configured
  | .eventfd2 initialValue flags refused configured =>
    s.linuxEventfd2 initialValue flags refused configured
  | .socket domain linuxType refused configured => s.makeSocket domain linuxType refused configured
  | .accept listener flags refused configured stored =>
    s.acceptSocket listener flags refused configured stored

def Step (s : Tables) (c : Call) (t : Tables) : Prop := (s.call c).2 = t

/-- Before the guest has opened anything. -/
structure Start (s : Tables) : Prop where
  paths : ∀ i, s.fdPaths i = none
  peers : ∀ i, s.eventfdWritePeers i = 0
  bounded : ∀ fd, s.host.table fd ≠ none → fd < s.host.openMax

end Linuxemu.Fd
