import Linuxemu.Descriptors
import Linuxemu.Lib.LittleEndian
import Mathlib.Algebra.Ring.Nat

/-! Sockets (`linux_socket.c`): the conversion of addresses between the guest and the host, and
the calls that carry one. The guest's memory is a function of the address, and what the code
touches of it is mapped. Host flags stand under their Linux numbers. -/
namespace Linuxemu.Socket
open Fd
open Lib

/-! ## Memory -/

abbrev Memory := Nat → UInt8

namespace Memory

def read (m : Memory) (address length : Nat) : List UInt8 :=
  (List.range length).map fun k => m (address + k)

def write (m : Memory) (address : Nat) (bytes : List UInt8) : Memory := fun x =>
  if address ≤ x ∧ x < address + bytes.length then bytes.getD (x - address) 0 else m x

def half (m : Memory) (address : Nat) : Nat := ofBytes (m.read address 2)

def word (m : Memory) (address : Nat) : Nat := ofBytes (m.read address 4)

end Memory

/-! ## Addresses -/

def efault : Int := -14
def eafnosupport : Int := -97

def linuxAfUnix : Nat := 1
def linuxAfInet : Nat := 2
def linuxAfInet6 : Nat := 10

/-- The size of `struct sockaddr_storage`, and of the buffer of `store_address`. -/
def storageSize : Nat := 128

/-- What the host's headers say. An address starts with a byte for its length and one for its
family. -/
structure Platform where
  afUnix : UInt8
  afInet : UInt8
  afInet6 : UInt8
  /-- The size of `sun_path`. -/
  sunPath : Nat
  /-- Whether there is a `MSG_WAITFORONE`. -/
  waitForOne : Bool
  /-- The number of `ENOSYS`. -/
  enosys : Nat
  unixInet : afUnix ≠ afInet
  unixInet6 : afUnix ≠ afInet6
  inetInet6 : afInet ≠ afInet6
  fits : sunPath + 2 ≤ storageSize

namespace Platform
variable (h : Platform)

def hostDomain (linux : Nat) : Option UInt8 :=
  if linux = linuxAfUnix then some h.afUnix
  else if linux = linuxAfInet then some h.afInet
  else if linux = linuxAfInet6 then some h.afInet6
  else none

def linuxDomain (host : UInt8) : Option Nat :=
  if host = h.afUnix then some linuxAfUnix
  else if host = h.afInet then some linuxAfInet
  else if host = h.afInet6 then some linuxAfInet6
  else none

/-- Flags that `message_flags` has no word for. -/
def unknownFlags (flags : UInt32) : Bool :=
  flags &&& ~~~0x141ef != 0 || (flags &&& 0x10000 != 0 && !h.waitForOne)

end Platform

/-- A `struct sockaddr_storage` and how much of it is meant. The struct is memory from 0 on, of
which nothing past its size is read. -/
structure HostAddress where
  bytes : Memory
  length : Nat

/-- A cleared struct with its first two fields and what follows them. -/
def storage (length : Nat) (family : UInt8) (data : List UInt8) : Memory :=
  (Memory.write (fun _ => 0) 0 [UInt8.ofNat length, family]).write 2 data

def guestAddress (h : Platform) (m : Memory) (guest guestLength : UInt32) :
    Except Int HostAddress :=
  if guest = 0 ∨ guestLength.toNat < 2 then .error efault
  else
    let family := m.half guest.toNat
    match h.hostDomain family with
    | none => .error eafnosupport
    | some mapped =>
      if family = linuxAfInet then
        if guestLength.toNat < 16 then .error einval
        else .ok ⟨storage 16 mapped (m.read (guest.toNat + 2) 14), 16⟩
      else if family = linuxAfInet6 then
        if guestLength.toNat < 28 then .error einval
        else .ok ⟨storage 28 mapped (m.read (guest.toNat + 2) 26), 28⟩
      else
        let pathLength := guestLength.toNat - 2
        if h.sunPath < pathLength then .error einval
        else
          let sunLen := (2 + pathLength) % 256
          .ok ⟨storage sunLen mapped (m.read (guest.toNat + 2) pathLength), sunLen⟩

/-- What goes to the guest: the bytes of the address that are copied, and its whole length. -/
structure Stored where
  bytes : List UInt8
  required : Nat
  deriving DecidableEq, Repr

/-- `capacity` is what the guest's length word holds, `none` for a null pointer to it; the result
is `none` where neither word nor buffer is there. -/
def storeAddress (h : Platform) (guest : UInt32) (capacity : Option Nat) (host : HostAddress) :
    Except Int (Option Stored) :=
  match capacity with
  | none => if guest = 0 then .ok none else .error efault
  | some capacity =>
    match h.linuxDomain (host.bytes 1) with
    | none => .error eafnosupport
    | some family =>
      let required :=
        if family = linuxAfInet then 16 else if family = linuxAfInet6 then 28 else host.length
      if storageSize < required then .error einval
      else
        let converted := toBytes 2 family ++ host.bytes.read 2 (required - 2)
        let copied :=
          if guest ≠ 0 ∧ capacity ≠ 0 then converted.take (min capacity required) else []
        .ok (some ⟨copied, required⟩)

/-- `store_address` with a length word in the guest's memory. -/
def storeGuestAddress (h : Platform) (m : Memory) (guest guestLength : UInt32)
    (host : HostAddress) : Except Int Memory :=
  let capacity := if guestLength = 0 then none else some (m.word guestLength.toNat)
  match storeAddress h guest capacity host with
  | .error code => .error code
  | .ok none => .ok m
  | .ok (some stored) =>
    .ok ((m.write guest.toNat stored.bytes).write guestLength.toNat (toBytes 4 stored.required))

/-! ## Host calls -/

inductive SocketCall where
  | bind (fd : UInt32) (address : HostAddress)
  | connect (fd : UInt32) (address : HostAddress)
  | getsockname (fd : UInt32)
  | getpeername (fd : UInt32)
  | accept (fd : UInt32) (wanted : Bool)
  /-- The `fcntl` calls of `configure_socket`. -/
  | configure (fd : Nat) (nonblock cloexec : Bool)
  | close (fd : Nat)
  | send (fd buffer size flags : UInt32)
  | sendto (fd buffer size flags : UInt32) (address : HostAddress)
  | recv (fd buffer size flags : UInt32)
  | recvfrom (fd buffer size flags : UInt32) (wanted : Bool)
  | sendmsg (fd iov count flags : UInt32) (name : Option HostAddress)
  | recvmsg (fd iov count flags : UInt32) (wanted : Bool)

/-- What the host makes of a call. `address` is the emulator's struct afterwards, with what was
in it before where the host wrote nothing, and the length that the host left; `writes` is what
it does to the guest's buffers. -/
structure Reply where
  result : Except Errno Nat
  address : HostAddress
  flags : UInt32
  writes : Memory → Memory

structure Outcome where
  result : Int
  memory : Memory
  calls : List SocketCall

inductive Syscall where
  | socket | bind | connect | listen | accept | getsockname | getpeername | socketpair | send
  | sendto | recv | recvfrom | shutdown | setsockopt | getsockopt | sendmsg | recvmsg | accept4
  deriving DecidableEq, Repr

/-- Arguments are numbered by numerals. -/
instance argumentCount : NeZero 6 := ⟨by decide⟩

abbrev Arguments := Fin 6 → UInt32

/-- The host, and the calls that carry no address. -/
structure Env where
  platform : Platform
  reply : SocketCall → Reply
  others : Syscall → Arguments → Memory → Outcome

/-! ## System calls -/

def messageFlags (h : Platform) (flags : UInt32) : Option UInt32 :=
  if h.unknownFlags flags then none else some flags

def linuxMessageFlags (flags : UInt32) : UInt32 := flags &&& 0x1ef

/-- `socket_result`. -/
def socketResult : Except Errno Nat → Int
  | .error errno => linuxError errno
  | .ok result => result

/-- A word of `struct linux_msghdr`. -/
def header (m : Memory) (arguments : Arguments) (field : Nat) : UInt32 :=
  .ofNat (m.word ((arguments 1).toNat + 4 * field))

namespace Env
variable (e : Env)

/-- One host call, whose result is that of the system call. -/
def issue (m : Memory) (call : SocketCall) : Outcome :=
  ⟨socketResult (e.reply call).result, (e.reply call).writes m, [call]⟩

/-- The address that the host left, after a call that succeeded. -/
def storeReply (m : Memory) (call : SocketCall) (guest guestLength : UInt32) (result : Int) :
    Outcome :=
  let m := (e.reply call).writes m
  match storeGuestAddress e.platform m guest guestLength (e.reply call).address with
  | .error code => ⟨code, m, [call]⟩
  | .ok m => ⟨result, m, [call]⟩

/-- A host call with an address of the guest's. -/
def handOver (m : Memory) (guest guestLength : UInt32) (call : HostAddress → SocketCall) : Outcome :=
  match guestAddress e.platform m guest guestLength with
  | .error code => ⟨code, m, []⟩
  | .ok address => e.issue m (call address)

/-- `address_call` for `getsockname` and `getpeername`. -/
def socketName (m : Memory) (call : SocketCall) (arguments : Arguments) : Outcome :=
  match (e.reply call).result with
  | .error _ => e.issue m call
  | .ok _ => e.storeReply m call (arguments 1) (arguments 2) 0

def configureSocket (fd : Nat) (nonblock cloexec : Bool) : Option Errno × List SocketCall :=
  if nonblock || cloexec then
    let call := SocketCall.configure fd nonblock cloexec
    match (e.reply call).result with
    | .error errno => (some errno, [call])
    | .ok _ => (none, [call])
  else (none, [])

def acceptSocket (m : Memory) (arguments : Arguments) (withFlags : Bool) : Outcome :=
  if withFlags ∧ socketType (1 ||| arguments 3) = none then ⟨einval, m, []⟩
  else
    let nonblock := withFlags && arguments 3 &&& linuxONonblock != 0
    let cloexec := withFlags && arguments 3 &&& linuxOCloexec != 0
    let call := SocketCall.accept (arguments 0) (arguments 1 != 0)
    match (e.reply call).result with
    | .error _ => e.issue m call
    | .ok fd =>
      let m := (e.reply call).writes m
      match e.configureSocket fd nonblock cloexec with
      | (some errno, configured) => ⟨linuxError errno, m, call :: configured ++ [.close fd]⟩
      | (none, configured) =>
        if arguments 1 = 0 then ⟨fd, m, call :: configured⟩
        else match storeGuestAddress e.platform m (arguments 1) (arguments 2)
            (e.reply call).address with
          | .error code => ⟨code, m, call :: configured ++ [.close fd]⟩
          | .ok m => ⟨fd, m, call :: configured⟩

def transfer (m : Memory) (number : Syscall) (arguments : Arguments) : Outcome :=
  match messageFlags e.platform (arguments 3) with
  | none => ⟨einval, m, []⟩
  | some flags =>
    let plain := SocketCall.send (arguments 0) (arguments 1) (arguments 2) flags
    match number with
    | .send => e.issue m plain
    | .recv => e.issue m (.recv (arguments 0) (arguments 1) (arguments 2) flags)
    | .sendto =>
      if arguments 4 = 0 ∧ arguments 5 = 0 then e.issue m plain
      else e.handOver m (arguments 4) (arguments 5)
        (.sendto (arguments 0) (arguments 1) (arguments 2) flags)
    | _ =>
      let call := SocketCall.recvfrom (arguments 0) (arguments 1) (arguments 2) flags
        (arguments 4 != 0)
      match (e.reply call).result with
      | .error _ => e.issue m call
      | .ok n =>
        if arguments 4 = 0 then e.issue m call
        else e.storeReply m call (arguments 4) (arguments 5) n

/-- `message_call`; the fields are name, name length, vector, its count, control, control length
and flags. -/
def messageCall (m : Memory) (sends : Bool) (arguments : Arguments) : Outcome :=
  if arguments 1 = 0 then ⟨efault, m, []⟩
  else
    let name := header m arguments 0
    let nameLength := header m arguments 1
    let iov := header m arguments 2
    let count := header m arguments 3
    let control := header m arguments 4
    let controlLength := header m arguments 5
    if control ≠ 0 ∨ controlLength ≠ 0 then ⟨eopnotsupp, m, []⟩
    else match messageFlags e.platform (arguments 2) with
      | none => ⟨einval, m, []⟩
      | some flags =>
        if sends then
          if name = 0 then e.issue m (.sendmsg (arguments 0) iov count flags none)
          else e.handOver m name nameLength fun address =>
            .sendmsg (arguments 0) iov count flags (some address)
        else
          let call := SocketCall.recvmsg (arguments 0) iov count flags (name != 0)
          let reply := e.reply call
          match reply.result with
          | .error _ => e.issue m call
          | .ok n =>
            let m := reply.writes m
            -- The struct is written back with the new length of the name and the flags.
            let back (m : Memory) (nameLength : Nat) : Outcome :=
              ⟨n, m.write (arguments 1).toNat (toBytes 4 name.toNat ++ toBytes 4 nameLength ++
                toBytes 4 iov.toNat ++ toBytes 4 count.toNat ++ toBytes 4 control.toNat ++
                toBytes 4 controlLength.toNat ++ toBytes 4 (linuxMessageFlags reply.flags).toNat),
                [call]⟩
            if name = 0 then back m nameLength.toNat
            else match storeAddress e.platform name (some nameLength.toNat) reply.address with
              | .error code => ⟨code, m, [call]⟩
              | .ok none => back m nameLength.toNat
              | .ok (some stored) => back (m.write name.toNat stored.bytes) stored.required

def dispatch (m : Memory) (number : Syscall) (arguments : Arguments) : Outcome :=
  match number with
  | .bind => e.handOver m (arguments 1) (arguments 2) (.bind (arguments 0))
  | .connect => e.handOver m (arguments 1) (arguments 2) (.connect (arguments 0))
  | .getsockname => e.socketName m (.getsockname (arguments 0)) arguments
  | .getpeername => e.socketName m (.getpeername (arguments 0)) arguments
  | .accept => e.acceptSocket m arguments false
  | .accept4 => e.acceptSocket m arguments true
  | .send | .sendto | .recv | .recvfrom => e.transfer m number arguments
  | .sendmsg => e.messageCall m true arguments
  | .recvmsg => e.messageCall m false arguments
  | .socket | .listen | .socketpair | .shutdown | .setsockopt | .getsockopt =>
    e.others number arguments m

end Env

/-- The calls from number 281 on, and `accept4`. -/
def syscallOf (number : UInt32) : Option Syscall :=
  if number = 366 then some .accept4
  else if number < 281 then none
  else [.socket, .bind, .connect, .listen, .accept, .getsockname, .getpeername, .socketpair, .send,
    .sendto, .recv, .recvfrom, .shutdown, .setsockopt, .getsockopt, .sendmsg, .recvmsg][
      (number - 281).toNat]?

/-- `socketcall_number`; call 0 and those from 19 on are none. -/
def socketcallNumber (call : UInt32) : Option Syscall :=
  if call = 0 then none
  else [.socket, .bind, .connect, .listen, .accept, .getsockname, .getpeername, .socketpair, .send,
    .recv, .sendto, .recvfrom, .shutdown, .setsockopt, .getsockopt, .sendmsg, .recvmsg, .accept4][
      (call - 1).toNat]?

/-- What a request asks for: the call and its arguments, which `socketcall` (102) has in memory. -/
def requested (h : Platform) (m : Memory) (number : UInt32) (arguments : Arguments) :
    Except Int (Syscall × Arguments) :=
  if number = 102 then
    match socketcallNumber (arguments 0) with
    | none => .error einval
    | some number =>
      if arguments 1 = 0 then .error einval
      else .ok (number, fun k => .ofNat (m.word ((arguments 1).toNat + 4 * k)))
  else match syscallOf number with
    | none => .error (-h.enosys)
    | some number => .ok (number, arguments)

def Env.linuxSocketSyscall (e : Env) (m : Memory) (number : UInt32) (arguments : Arguments) :
    Outcome :=
  match requested e.platform m number arguments with
  | .error code => ⟨code, m, []⟩
  | .ok (number, arguments) => e.dispatch m number arguments

end Linuxemu.Socket
