import Linuxemu.HostSignal
import Linuxemu.Lib.Action
import Linuxemu.RestartedCall

/-! The trap handler (`trap.c`): a patched instruction traps and is done for the guest; the helpers
that Linux keeps at the top of memory fault and are done as well; every other trap or fault in guest
code becomes a signal of the guest. -/
namespace Linuxemu.Trap
open Lib Signal
open Guest (Machine armPatchOriginal armLinuxSvc0 armTpidruroMask armTpidruroRead armUdfTrap
  patchable PatchRecord)

def linuxKuserMemoryBarrier : UInt32 := 0xffff0fa0
def linuxKuserCmpxchg : UInt32 := 0xffff0fc0
def linuxKuserGetTls : UInt32 := 0xffff0fe0
def linuxKuserVersionAddress : UInt32 := 0xffff0ffc
def linuxKuserVersion : UInt32 := 5
def armKuserVersionLoad : UInt32 := 0xe51cc003
def linuxArmNrSetTls : UInt32 := 0xf0005

/-- A guest thread and what it shares with the others. The memory is that of `state`; of `machine`
the patch table, the load segments and the registry are read, and the rights to its pages. What the
handler itself loads and stores is taken to be there. -/
structure Process where
  state : State
  machine : Machine
  guestTls : UInt32

/-- `fatal` is the end in `fatal_signal`, `ended` that of `exit` and `exit_group`. -/
inductive Handled where
  | resumed (p : Process)
  | fatal
  | ended

/-- What comes of a system call: its answer, the tables it leaves, and the signal that
`guest_thread_take_pending` gives after it. -/
structure CallAnswer where
  answer : SyscallAnswer
  machine : Machine
  taken : Option (Nat × Option Siginfo)

namespace Process
variable (p : Process)

def gpr : Fin 16 → UInt32 := p.state.context.gpr

def pc : Nat := (p.gpr 15).toNat

def memory : Memory := p.state.memory

def patches : List PatchRecord := p.machine.image.patches

def set (i : Fin 16) (value : UInt32) : Process := { p with state := p.state.setRegister i value }

def executable : Bool := p.machine.guestMemoryIsExecutable p.pc 4

/-- `guest_signal_deliver` from the trap handler, which gives up if no frame is pushed. -/
def deliver (code : Trampolines) (linuxSignal : Nat) (info : Siginfo) : Handled :=
  if p.executable then
    match guestSignalDeliver code p.state linuxSignal (some info) with
    | .pushed after => .resumed { p with state := after }
    | _ => .fatal
  else .fatal

def signalReturn (realtime : Bool) : Handled :=
  match guestSignalReturn p.state realtime with
  | some after => .resumed { p with state := after }
  | none => .fatal

/-- The register a read of the thread pointer names. -/
def destination (word : UInt32) : Fin 16 := .ofNat 16 (word >>> 12).toNat

def readTls (original : UInt32) : Process :=
  (p.set (destination original) p.guestTls).set 15 (p.gpr 15 + 4)

/-- A patched `svc #0`. -/
def systemCall (code : Trampolines) (a : CallAnswer) : Handled :=
  if p.gpr 7 = 119 then p.signalReturn false
  else if p.gpr 7 = 173 then p.signalReturn true
  else match trapSystemCall code p.state a.answer a.taken with
    | none => .ended
    | some after =>
      .resumed ⟨after, a.machine, if p.gpr 7 = linuxArmNrSetTls then p.gpr 0 else p.guestTls⟩

def withMemory (memory : Memory) : Process := { p with state := { p.state with memory } }

/-- `__sync_val_compare_and_swap`. -/
def exchanged (a : Nat) (oldValue newValue : UInt32) (m : Memory) : Memory :=
  if m.word a = oldValue then m.storeWord a newValue else m

/-- `__kuser_cmpxchg`. -/
def compareExchange : Process :=
  let address := (p.gpr 2).toNat
  let result := if p.memory.word address = p.gpr 0 then 0 else -1
  ((p.withMemory (exchanged address (p.gpr 0) (p.gpr 1) p.memory)).set 0 result).set 15 (p.gpr 14)

end Process

def trapHandler (code : Trampolines) (a : CallAnswer) (sig : Nat) (info : Siginfo) (p : Process) :
    Handled :=
  let pc := p.gpr 15
  let original := armPatchOriginal p.patches p.pc
  if sig = sigill ∧ pc = code.plain then p.signalReturn false
  else if sig = sigill ∧ pc = code.realtime then p.signalReturn true
  else if sig = sigsegv then
    if pc = linuxKuserGetTls then .resumed ((p.set 0 p.guestTls).set 15 (p.gpr 14))
    else if pc = linuxKuserMemoryBarrier then .resumed (p.set 15 (p.gpr 14))
    else if pc = linuxKuserCmpxchg then .resumed p.compareExchange
    else if info.addr = linuxKuserVersionAddress ∧ p.executable = true ∧
        p.memory.word p.pc = armKuserVersionLoad then
      .resumed ((p.set 12 linuxKuserVersion).set 15 (pc + 4))
    else p.deliver code 11 info
  else if sig ≠ sigill then .fatal
  else match original with
    | none => p.deliver code 4 info
    | some original =>
      if original &&& armTpidruroMask = armTpidruroRead then .resumed (p.readTls original)
      else if original = armLinuxSvc0 then p.systemCall code a
      else .fatal

/-! ## The processor -/

/-- What an instruction works on besides memory. -/
structure Registers where
  gpr : Fin 16 → UInt32
  spsr : UInt32
  vfp : Vfp

/-- Any instruction set: what a word does to the registers and to memory; `none` is an undefined
instruction. -/
abbrev Isa := UInt32 → Registers → Action (Option Registers)

namespace Process
variable (p : Process)

def registers : Registers := ⟨p.gpr, p.state.context.spsr, p.state.context.vfp⟩

def rights : Rights where
  readable a := (p.machine.image.host.access Guest.Page.readable a).isSome
  writable a := (p.machine.image.host.access Guest.Page.writable a).isSome

/-- The host lets code run at the program counter. -/
def fetchable : Bool :=
  (p.machine.image.host.access (fun page => page.protection.exec) p.pc).isSome

def word : UInt32 := p.memory.word p.pc

def withRegisters (r : Registers) : Process :=
  { p with state := { p.state with context := ⟨r.gpr, r.spsr, r.vfp, p.state.context.sigmask⟩ } }

/-- What one instruction comes to. -/
inductive Executed where
  | next (p : Process)
  | undefined (p : Process)
  | fault (address : Nat) (p : Process)

def execute (isa : Isa) : Executed :=
  let (ended, memory) := (isa p.word p.registers).run p.rights p.memory
  match ended with
  | .ok (some registers) => .next ((p.withMemory memory).withRegisters registers)
  | .ok none => .undefined (p.withMemory memory)
  | .error address => .fault address (p.withMemory memory)

/-- The host processor runs the word it finds; its exceptions come to the trap handler. -/
def native (isa : Isa) (code : Trampolines) (a : CallAnswer) (info : Siginfo) : Handled :=
  match p.execute isa with
  | .next q => .resumed q
  | .undefined q => trapHandler code a sigill info q
  | .fault address q => trapHandler code a sigsegv { info with addr := .ofNat address } q

/-- One instruction of guest code on the host. -/
def step (isa : Isa) (code : Trampolines) (a : CallAnswer) (info : Siginfo) : Handled :=
  if p.fetchable then p.native isa code a info
  else trapHandler code a sigsegv { info with addr := p.gpr 15 } p

/-- A host signal that finds the thread outside a system call. -/
def interrupted {size : Nat} (code : Trampolines) (fields : Pending.Siginfo size → Siginfo)
    (queues : Pending.Thread size) (hostSignal : Nat) (information : Pending.Siginfo size) :
    Process :=
  let (state, _) :=
    hostSignalHandler code fields p.machine false p.state queues hostSignal information
  { p with state }

end Process
end Linuxemu.Trap
