import Linuxemu.Errno
import Linuxemu.Lib.Bytes
import Linuxemu.Pending

/-! Guest signals (`guest_signal.c`): signal numbers and sets on both sides, the
frame a delivery pushes on a guest stack, and the return from it. The queues behind
`guest_thread_signal_pending` are modelled apart. -/
namespace Linuxemu.Signal
open Lib
open Pending (signalWord signalBit)

def linuxSignalCount : Nat := 64

/-! ## Signal numbers and sets -/

/-- The signal numbers of the host's `<signal.h>`. -/
def sigill : Nat := 4
def sigsegv : Nat := 11
def sigrtmin : Nat := 41
def sigrtmax : Nat := 56

/-- Zero where the host has no such signal. -/
def linuxSignalToHost (number : Nat) : Nat :=
  if 32 ≤ number ∧ number ≤ 47 then sigrtmin + number - 32
  else match number with
    | 1 | 2 | 3 | 4 | 5 | 6 | 8 | 9 | 11 | 13 | 14 | 15 => number
    | 7 => 10 | 10 => 16 | 12 => 17 | 17 => 18 | 18 => 25 | 19 => 23 | 20 => 24
    | 21 => 26 | 22 => 27 | 23 => 21 | 24 => 30 | 25 => 31 | 26 => 28 | 27 => 29
    | 28 => 20 | 29 => 22 | 30 => 19 | 31 => 12
    | _ => 0

def guestSignalFromHost (number : Nat) : Nat :=
  if sigrtmin ≤ number ∧ number ≤ sigrtmax then number - sigrtmin + 32
  else ((List.range' 1 31).find? (linuxSignalToHost · == number)).getD 0

/-- The two words of a Linux signal set. -/
structure SignalSet where
  word0 : BitVec 32
  word1 : BitVec 32
  deriving DecidableEq, Repr

namespace SignalSet

def word (s : SignalSet) : Nat → BitVec 32
  | 0 => s.word0
  | _ => s.word1

def has (s : SignalSet) (signal : Nat) : Bool :=
  (s.word (signalWord signal)).getLsbD ((signal - 1) % 32)

def union (s t : SignalSet) : SignalSet := ⟨s.word0 ||| t.word0, s.word1 ||| t.word1⟩

def minus (s t : SignalSet) : SignalSet := ⟨s.word0 &&& ~~~ t.word0, s.word1 &&& ~~~ t.word1⟩

def insert (s : SignalSet) (signal : Nat) : SignalSet :=
  if signalWord signal = 0 then { s with word0 := s.word0 ||| signalBit signal }
  else { s with word1 := s.word1 ||| signalBit signal }

/-- `words[0] &= ~((1u << (9 - 1)) | (1u << (19 - 1)))`. -/
def stripped (s : SignalSet) : SignalSet :=
  { s with word0 := s.word0 &&& ~~~ (1#32 <<< (9 - 1) ||| 1#32 <<< (19 - 1)) }

end SignalSet

/-- A `sigset_t`, by host signal number. -/
abbrev HostSet := Nat → Bool

def sigaddset (s : HostSet) (number : Nat) : HostSet := fun k => k == number || s k

def sigdelset (s : HostSet) (number : Nat) : HostSet := fun k => k != number && s k

def linuxSetToHost (words : SignalSet) : HostSet :=
  let hostSet := (List.range' 1 linuxSignalCount).foldl (fun hostSet number =>
    if words.has number = false then hostSet
    else if linuxSignalToHost number = 0 then hostSet
    else sigaddset hostSet (linuxSignalToHost number)) fun _ => false
  sigdelset (sigdelset hostSet sigill) sigsegv

def mergeHostSets (target source : HostSet) : HostSet :=
  (List.range' 1 sigrtmax).foldl (fun target number =>
    if source number then sigaddset target number else target) target

/-! ## Contexts, actions and threads -/

/-- The VFP part of a host context; the register bank is 256 bytes long. -/
structure Vfp where
  registers : Fin 64 → UInt32
  fpscr : UInt32
  fpexc : UInt32
  fpinst : UInt32
  fpinst2 : UInt32

/-- Registers are numbered by numerals. -/
instance registerCount : NeZero 16 := ⟨by decide⟩

/-- The parts of a `ucontext_t` that the emulator reads and writes. -/
structure Context where
  gpr : Fin 16 → UInt32
  spsr : UInt32
  vfp : Vfp
  sigmask : HostSet

structure SigAction where
  handler : UInt32
  flags : UInt32
  restorer : UInt32
  mask : SignalSet
  deriving DecidableEq, Repr

def saSiginfo : UInt32 := 0x00000004
def saRestorer : UInt32 := 0x04000000
def saOnstack : UInt32 := 0x08000000
def saNodefer : UInt32 := 0x40000000
def saResethand : UInt32 := 0x80000000

def SigAction.has (action : SigAction) (flag : UInt32) : Bool := action.flags &&& flag != 0

structure Siginfo where
  errno : Option Errno
  code : UInt32
  addr : UInt32
  pid : UInt32
  uid : UInt32

/-- The fields of `struct guest_thread_state` that signal delivery uses. -/
structure ThreadSignals where
  signalMask : SignalSet
  suspendRestoreMask : SignalSet
  suspendRestoreValid : Bool
  altstackPointer : UInt32
  altstackSize : UInt32

namespace ThreadSignals

def suspendRestore (t : ThreadSignals) (words : SignalSet) : ThreadSignals :=
  { t with suspendRestoreMask := words, suspendRestoreValid := true }

/-- `guest_thread_signal_delivery_mask`: the mask a frame saves, and the thread after. -/
def deliveryMask (t : ThreadSignals) : SignalSet × ThreadSignals :=
  if t.suspendRestoreValid then (t.suspendRestoreMask, { t with suspendRestoreValid := false })
  else (t.signalMask, t)

def setMask (t : ThreadSignals) (words : SignalSet) : ThreadSignals := { t with signalMask := words }

def setAltstack (t : ThreadSignals) (pointer size : UInt32) : ThreadSignals :=
  { t with altstackPointer := pointer, altstackSize := size }

/-- The stack pointer is on the alternate stack. -/
def onAltstack (t : ThreadSignals) (sp : UInt32) : Bool :=
  t.altstackSize != 0 && t.altstackPointer ≤ sp && sp < t.altstackPointer + t.altstackSize

end ThreadSignals

/-! ## Frames

A `struct linux_ucontext` is 744 bytes: the signal stack from 8, `oldmask` at 28, the
registers from 32, the CPSR at 96, the fault address at 100, the signal mask from 104
and the register space from 232. It stands at the start of a classic frame of 760 bytes
and behind the 128 bytes of information of a real-time frame of 888. -/

def saveVfp (m : Memory) (frame : Nat) (vfp : Vfp) : Memory :=
  let m := m.clear frame 512
  let m := m.storeWord frame 0x56465001
  let m := m.storeWord (frame + 4) 288
  let m := m.storeWords (frame + 8) (List.ofFn vfp.registers)
  let m := m.storeWord (frame + 264) vfp.fpscr
  let m := m.storeWord (frame + 272) vfp.fpexc
  let m := m.storeWord (frame + 276) vfp.fpinst
  m.storeWord (frame + 280) vfp.fpinst2

/-- What `restore_vfp` leaves in a context that held `vfp`; `none` is its failure. -/
def restoreVfp (m : Memory) (frame : Nat) (vfp : Vfp) : Option Vfp :=
  if m.word frame = 0 then some vfp
  else if m.word frame ≠ 0x56465001 ∨ m.word (frame + 4) ≠ 288 then none
  else some {
    registers := fun i => m.word (frame + 8 + 4 * i)
    fpscr := m.word (frame + 264)
    fpexc := m.word (frame + 272)
    fpinst := m.word (frame + 276)
    fpinst2 := m.word (frame + 280) }

def fillSiginfo (m : Memory) (destination : Nat) (linuxSignal : Nat) (source : Option Siginfo) :
    Memory :=
  let m := m.clear destination 128
  let m := m.storeWord destination (UInt32.ofNat linuxSignal)
  match source with
  | none => m
  | some info =>
    let m := m.storeWord (destination + 4) (UInt32.ofNat ((info.errno.map linuxErrnoNumber).getD 0))
    let m := m.storeWord (destination + 8) info.code
    if linuxSignal = 4 ∨ linuxSignal = 7 ∨ linuxSignal = 8 ∨ linuxSignal = 11 then
      m.storeWord (destination + 12) info.addr
    else
      let m := m.storeWord (destination + 12) info.pid
      m.storeWord (destination + 16) info.uid

def prepareContext (m : Memory) (guest : Nat) (host : Context) (oldMask : SignalSet)
    (faultAddress : UInt32) : Memory :=
  let m := m.clear guest 744
  let m := m.storeWord (guest + 12) 2
  let m := m.storeWord (guest + 28) (.ofBitVec oldMask.word0)
  let m := m.storeWords (guest + 32) (List.ofFn host.gpr)
  let m := m.storeWord (guest + 96) host.spsr
  let m := m.storeWord (guest + 100) faultAddress
  let m := m.storeWords (guest + 104) [.ofBitVec oldMask.word0, .ofBitVec oldMask.word1]
  saveVfp m (guest + 232) host.vfp

/-- The saved `signal_mask` of the frame's context. -/
def frameMask (m : Memory) (guest : Nat) : SignalSet :=
  ⟨(m.word (guest + 104)).toBitVec, (m.word (guest + 108)).toBitVec⟩

def frameSize (realtime : Bool) : Nat := if realtime then 888 else 760

def contextOffset (realtime : Bool) : Nat := if realtime then 128 else 0

/-! ## Delivery -/

/-- What one thread's delivery works on; the actions are those of the process. -/
structure State where
  context : Context
  thread : ThreadSignals
  actions : Nat → SigAction
  memory : Memory

/-- The addresses of the two return trampolines. -/
structure Trampolines where
  plain : UInt32
  realtime : UInt32

def hostSignalStackReserve : UInt32 := 8192

/-- The delivery goes to the alternate stack. -/
def switchesStack (s : State) (action : SigAction) : Bool :=
  action.has saOnstack && s.thread.altstackSize != 0 && !s.thread.onAltstack (s.context.gpr 13)

def framePointer (s : State) (action : SigAction) : UInt32 :=
  let stackPointer :=
    if switchesStack s action then s.thread.altstackPointer + s.thread.altstackSize
    else s.context.gpr 13 - hostSignalStackReserve
  (stackPointer - UInt32.ofNat (frameSize (action.has saSiginfo))) &&& ~~~ 7

/-- The frame as the delivery leaves it in memory. -/
def writeFrame (s : State) (linuxSignal : Nat) (info : Option Siginfo) (action : SigAction)
    (oldMask : SignalSet) : Memory :=
  let realtime := action.has saSiginfo
  let frame := (framePointer s action).toNat
  let guest := frame + contextOffset realtime
  let m := s.memory.clear frame (frameSize realtime)
  let m := if realtime then fillSiginfo m frame linuxSignal info else m
  let m := prepareContext m guest s.context oldMask ((info.map (·.addr)).getD 0)
  let m := m.storeWord (guest + 8) s.thread.altstackPointer
  let m := m.storeWord (guest + 16) s.thread.altstackSize
  m.storeWord (guest + 12) (if s.thread.onAltstack (s.context.gpr 13) then 1
    else if s.thread.altstackSize = 0 then 2 else 0)

/-- The host mask while the handler runs. -/
def handlerHostMask (sigmask : HostSet) (linuxSignal : Nat) (action : SigAction) : HostSet :=
  let desired := mergeHostSets sigmask (linuxSetToHost action.mask)
  if action.has saNodefer = false ∧ linuxSignalToHost linuxSignal ≠ 0 then
    sigaddset desired (linuxSignalToHost linuxSignal)
  else desired

/-- The guest mask while the handler runs. -/
def handlerMask (oldMask : SignalSet) (linuxSignal : Nat) (action : SigAction) : SignalSet :=
  let newMask := oldMask.union action.mask
  if action.has saNodefer then newMask else newMask.insert linuxSignal

def handlerRegisters (code : Trampolines) (gpr : Fin 16 → UInt32) (linuxSignal : Nat)
    (action : SigAction) (frame : UInt32) : Fin 16 → UInt32 :=
  let realtime := action.has saSiginfo
  let restorer :=
    if action.has saRestorer ∧ action.restorer ≠ 0 then action.restorer
    else if realtime then code.realtime else code.plain
  let gpr := Function.update gpr 0 (UInt32.ofNat linuxSignal)
  let gpr := if realtime then Function.update (Function.update gpr 1 frame) 2 (frame + 128) else gpr
  Function.update (Function.update (Function.update gpr 13 frame) 14 restorer) 15 action.handler

def pushFrame (code : Trampolines) (s : State) (linuxSignal : Nat) (info : Option Siginfo) :
    State :=
  let action := s.actions linuxSignal
  let oldMask := s.thread.deliveryMask.1
  { context := {
      s.context with
      gpr := handlerRegisters code s.context.gpr linuxSignal action (framePointer s action)
      sigmask := handlerHostMask s.context.sigmask linuxSignal action }
    thread := s.thread.deliveryMask.2.setMask (handlerMask oldMask linuxSignal action)
    actions :=
      if action.has saResethand then Function.update s.actions linuxSignal { action with handler := 0 }
      else s.actions
    memory := writeFrame s linuxSignal info action oldMask }

/-- The results -1, 1 and 0 of `guest_signal_deliver`. The signal of a `pending` one
was given to `guest_thread_signal_pending`. -/
inductive Delivery where
  | refused
  | pending
  | pushed (s : State)

def guestSignalDeliver (code : Trampolines) (s : State) (linuxSignal : Nat)
    (info : Option Siginfo) : Delivery :=
  if linuxSignal = 0 ∨ linuxSignalCount < linuxSignal then .refused
  else if linuxSignal ≠ 4 ∧ linuxSignal ≠ 11 ∧ s.thread.signalMask.has linuxSignal = true then
    .pending
  else if (s.actions linuxSignal).handler ≤ 1 then .refused
  else .pushed (pushFrame code s linuxSignal info)

/-- `none` is the result -1, with nothing changed. -/
def guestSignalReturn (s : State) (realtime : Bool) : Option State :=
  let stackPointer := s.context.gpr 13
  let guest := stackPointer.toNat + contextOffset realtime
  if stackPointer &&& 7 ≠ 0 then none
  else (restoreVfp s.memory (guest + 232) s.context.vfp).map fun vfp =>
    let mask := frameMask s.memory guest
    let flags := s.memory.word (guest + 12)
    let thread := s.thread.setMask mask
    { s with
      context := {
        gpr := fun i => s.memory.word (guest + 32 + 4 * i)
        spsr := s.memory.word (guest + 96)
        vfp := vfp
        sigmask := linuxSetToHost mask }
      thread :=
        if realtime = false then thread
        else if flags = 2 then thread.setAltstack 0 0
        else if flags = 0 then
          thread.setAltstack (s.memory.word (guest + 8)) (s.memory.word (guest + 16))
        else thread }

end Linuxemu.Signal
