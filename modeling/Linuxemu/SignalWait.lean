import Linuxemu.PendingOffers
import Linuxemu.SignalFrames
import Linuxemu.SignalSets

/-! One guest thread through its system calls (`trap.c`, `linux_poll.c`, `guest_signal.c`,
`linux_futex.c`, `guest_thread.c`): the waits that a signal has to end, the temporary
masks of some of them and the delivery at the end of every call. A host signal handler
may begin between any two steps; once `guest_thread_syscall_enter` has run it only records
the signal. What other threads do to this one is a step of its own. -/
namespace Linuxemu.Wait
open Signal Pending

/-- What the thread's own code does next. -/
inductive Stage where
  | guest
  | entered
  -- `ppoll` and `pselect6` with a mask
  | openPipe | publishRead | publishWrite | blockHost | setGuest | arm
  | armScan (signal : Nat)
  | poll (caught : Bool)
  | polled (interrupted : Bool)
  | unblockHost
  | endWrite (waited : Bool)
  | endRead | close
  -- `rt_sigsuspend`
  | suspendSet | suspend
  | suspended (caught : Bool)
  | suspendDone (errno : Option Errno)
  -- `futex_wait`
  | futexWait | futexReset | futexPublish | futexUnlock | futexSleep | futexUnpublish | futexEnd
  -- the end of every system call
  | leave | take | taking
  | chosen (signal : Option Nat)
  | returned (frame : Option SignalSet)
  deriving DecidableEq

/-- A handler that runs in a host wait makes it fail with `EINTR`. -/
def Stage.caught : Stage → Stage
  | .poll _ => .poll true
  | .suspended _ => .suspended true
  | stage => stage

/-- The thread. `hostMask` is followed during waits only; `pipe` counts the unread bytes of the
wake pipe; `readFd` and `writeFd` are whether its ends are published; `words`, `oldWords` and
`oldHost` are locals of the call in progress; `before` is the mask with which a call with a mask
argument was made. -/
structure Waiter (size : Nat) where
  queue : Thread size
  suspendRestoreMask : SignalSet
  suspendRestoreValid : Bool
  actions : Nat → SigAction
  hostMask : HostSet
  pipe : Option Nat
  readFd : Bool
  writeFd : Bool
  semaphore : Nat
  futexSemaphore : Bool
  futexInterrupted : Bool
  words : SignalSet
  oldWords : SignalSet
  oldHost : HostSet
  before : Option SignalSet
  stage : Stage

/-- What the guest asks for; `refused` is a call with a mask argument that is turned down
before it changes anything, `other` leaves this mask behind. -/
inductive Call where
  | wait (words : SignalSet)
  | suspend (words : SignalSet)
  | refused
  | futex
  | other (mask : SignalSet)

/-- One step, with what the host decides: a signal arrives; the innermost handler goes on
(`written` is whether a write to the pipe succeeds); some thread changes the actions or
posts the semaphore of the futex wait; guest code runs, with deliveries and returns;
a call begins; the thread goes on (`ok` is whether the host call made there succeeds);
the host wait ends. -/
inductive Action (size : Nat) where
  | signal (host : Nat) (information : Option (Pending.Siginfo size))
  | handler (written : Bool)
  | setActions (actions : Nat → SigAction)
  | wake
  | guest (mask : SignalSet) (delivered : Bool)
  | call (c : Call)
  | proceed (ok : Bool)
  | pollReturn (interrupted : Bool)
  | suspendReturn (errno : Option Errno)
  | deliver (code : Trampolines) (context : Context) (altstack : UInt32 × UInt32) (memory : Lib.Memory)
      (info : Option Signal.Siginfo)

namespace Waiter
variable {size : Nat}

def mask (s : Waiter size) : SignalSet := ⟨s.queue.signalMask 0, s.queue.signalMask 1⟩

def setMask (s : Waiter size) (words : SignalSet) : Waiter size :=
  { s with queue := { s.queue with signalMask := words.word } }

def goto (s : Waiter size) (stage : Stage) : Waiter size := { s with stage := stage }

def suspendRestore (s : Waiter size) (words : SignalSet) : Waiter size :=
  { s with suspendRestoreMask := words, suspendRestoreValid := true }

/-- One byte into the wake pipe; a nonblocking write fails only on a pipe with something in it. -/
def write (s : Waiter size) (written : Bool) : Option (Waiter size) :=
  match s.pipe with
  | none => none
  | some unread =>
    if written then some { s with pipe := some (unread + 1) }
    else if 0 < unread then some s
    else none

/-- The end of `guest_thread_signal_pending`. -/
def wakeUp (s : Waiter size) (written : Bool) : Option (Waiter size) :=
  let s :=
    if s.futexSemaphore then { s with futexInterrupted := true, semaphore := s.semaphore + 1 } else s
  if s.writeFd then s.write written else some s

def handlerStep (s : Waiter size) (written : Bool) : Option (Waiter size) :=
  match s.queue.handlers with
  | [] => none
  | p :: _ =>
    match p.stage with
    | .wake => (s.wakeUp written).map fun s => { s with queue := stepHandler s.queue }
    | _ => some { s with queue := stepHandler s.queue }

/-- The signal's handler begins. -/
def post (s : Waiter size) (signal : Nat) (information : Option (Pending.Siginfo size)) : Waiter size :=
  { s with queue := { s.queue with handlers := ⟨signal, information, .start⟩ :: s.queue.handlers } }

def begin (s : Waiter size) : Call → Waiter size
  | .wait words => { s with words, oldWords := s.mask, before := some s.mask, stage := .openPipe }
  | .suspend words => { s with words, oldWords := s.mask, before := some s.mask, stage := .suspendSet }
  | .refused => { s with before := some s.mask, stage := .leave }
  | .futex => s.goto .futexWait
  | .other mask => (s.setMask mask).goto .leave

/-- The thread's own code, where no handler is in the way. -/
def proceed (s : Waiter size) (ok : Bool) : Option (Waiter size) :=
  match s.stage with
  | .guest => some { s with before := none, stage := .entered }
  | .openPipe =>
    if ok then some { s with pipe := some 0, stage := .publishRead } else some (s.goto .leave)
  | .publishRead => some { s with readFd := true, stage := .publishWrite }
  | .publishWrite => some { s with writeFd := true, stage := .blockHost }
  -- `pselect6` fails here too, when the pipe's number is too high for a descriptor set
  | .blockHost =>
    if ok then
      some { s with oldHost := s.hostMask, hostMask := linuxSetToHost s.words, stage := .setGuest }
    else some (s.goto (.endWrite false))
  | .setGuest => some ((s.setMask s.words.stripped).goto .arm)
  | .arm =>
    if s.queue.pendingSignals 0 &&& ~~~ s.queue.signalMask 0 = 0 then
      some (s.goto (.armScan firstRealtimeSignal))
    else (s.write ok).map (·.goto (.poll false))
  | .armScan n =>
    if lastRealtimeSignal < n then some (s.goto (.poll false))
    else if s.queue.masked n = false ∧
        s.queue.realtimeHead (index n) ≠ s.queue.realtimeTail (index n) then
      (s.write ok).map (·.goto (.poll false))
    else some (s.goto (.armScan (n + 1)))
  | .polled true => some ((s.suspendRestore s.oldWords).goto .unblockHost)
  | .polled false =>
    some ({ s with suspendRestoreValid := false }.setMask s.oldWords |>.goto .unblockHost)
  | .unblockHost => some { s with hostMask := s.oldHost, stage := .endWrite true }
  | .endWrite _ => some { s with writeFd := false, stage := .endRead }
  | .endRead => some { s with readFd := false, stage := .close }
  | .close => some { s with pipe := none, stage := .leave }
  | .suspendSet => some ((s.setMask s.words.stripped).goto .suspend)
  | .suspend =>
    some { s with
      oldHost := s.hostMask
      hostMask := linuxSetToHost s.words.stripped
      stage := .suspended false }
  | .suspendDone errno =>
    if errno = some .eintr then some ((s.suspendRestore s.oldWords).goto .leave)
    else some ((s.setMask s.oldWords).goto .leave)
  -- up to the lock, the word's value and the waiter's place in the list
  | .futexWait =>
    if ok then some { s with semaphore := 0, stage := .futexReset } else some (s.goto .leave)
  | .futexReset => some { s with futexInterrupted := false, stage := .futexPublish }
  | .futexPublish => some { s with futexSemaphore := true, stage := .futexUnlock }
  | .futexUnlock => some (s.goto .futexSleep)
  -- `EINTR` and a timeout end the wait without the semaphore
  | .futexSleep =>
    if ok then
      if 0 < s.semaphore then some { s with semaphore := s.semaphore - 1, stage := .futexUnpublish }
      else none
    else some (s.goto .futexUnpublish)
  | .futexUnpublish => some { s with futexSemaphore := false, stage := .futexEnd }
  | .futexEnd => some { s with futexInterrupted := false, stage := .leave }
  | .leave => some (s.goto .take)
  | .take => some { s with queue := { s.queue with take := .load ⟨true, true⟩ }, stage := .taking }
  | .taking =>
    let after := { s with queue := stepTake s.queue }
    match s.queue.take with
    | .give _ n _ _ => some (after.goto (.chosen (some n)))
    | .scan _ n => if lastRealtimeSignal < n then some (after.goto (.chosen none)) else some after
    | _ => some after
  | .chosen none => some (s.goto (.returned none))
  | .returned _ => some (s.goto .guest)
  | .entered | .poll _ | .suspended _ | .chosen (some _) => none

/-- What a delivery works on, with the context the system call leaves. -/
def state (s : Waiter size) (context : Context) (altstack : UInt32 × UInt32) (memory : Lib.Memory) :
    State where
  context := context
  thread := ⟨s.mask, s.suspendRestoreMask, s.suspendRestoreValid, altstack.1, altstack.2⟩
  actions := s.actions
  memory := memory

/-- `guest_signal_deliver` for the signal taken. The mask a frame saved is read back from
memory; a signal that turns out to be masked is recorded once more. -/
def deliver (s : Waiter size) (n : Nat) (code : Trampolines) (context : Context)
    (altstack : UInt32 × UInt32) (memory : Lib.Memory) (info : Option Signal.Siginfo) : Waiter size :=
  match guestSignalDeliver code (s.state context altstack memory) n info with
  | .refused => s.goto (.returned none)
  | .pending => (s.post n none).goto (.returned none)
  | .pushed after =>
    let realtime := (s.actions n).has saSiginfo
    let guest := (after.context.gpr 13).toNat + contextOffset realtime
    { s.setMask after.thread.signalMask with
      suspendRestoreMask := after.thread.suspendRestoreMask
      suspendRestoreValid := after.thread.suspendRestoreValid
      actions := after.actions
      stage := .returned (some (frameMask after.memory guest)) }

/-- A step outside handlers. -/
def mainStep (s : Waiter size) : Action size → Option (Waiter size)
  | .guest mask delivered =>
    if s.stage = .guest then
      some { s.setMask mask with suspendRestoreValid := s.suspendRestoreValid && !delivered }
    else none
  | .call c => if s.stage = .entered then some (s.begin c) else none
  | .proceed ok => s.proceed ok
  | .pollReturn interrupted =>
    match s.stage with
    | .poll _ => some (s.goto (.polled interrupted))
    | _ => none
  | .suspendReturn errno =>
    match s.stage with
    | .suspended _ => some { s with hostMask := s.oldHost, stage := .suspendDone errno }
    | _ => none
  | .deliver code context altstack memory info =>
    match s.stage with
    | .chosen (some n) => some (s.deliver n code context altstack memory info)
    | _ => none
  | .signal _ _ | .handler _ | .setActions _ | .wake => none

/-- One step; `none` where it cannot be taken. No signal has number 0, and
`host_signal_handler` is installed for no trap signal. -/
def next (s : Waiter size) : Action size → Option (Waiter size)
  | .signal host information =>
    if guestSignalFromHost host = 0 ∨ host = 0 ∨ host = sigill ∨ host = sigsegv then none
    else some ((s.post (guestSignalFromHost host) information).goto s.stage.caught)
  | .handler written => s.handlerStep written
  | .setActions actions => some { s with actions := actions }
  | .wake => some { s with semaphore := s.semaphore + 1 }
  | a => if s.queue.handlers.isEmpty then s.mainStep a else none

/-- A thread in its guest code that has no signal pending and no wait behind it. -/
structure Start (s : Waiter size) : Prop where
  queue : ∃ mask, s.queue = fresh mask
  valid : s.suspendRestoreValid = false
  pipe : s.pipe = none ∧ s.readFd = false ∧ s.writeFd = false
  futex : s.futexSemaphore = false
  stage : s.stage = .guest

end Waiter

/-- The steps as a labelled relation. -/
def Step {size : Nat} (s : Waiter size) (a : Action size) (t : Waiter size) : Prop := s.next a = some t

end Linuxemu.Wait
