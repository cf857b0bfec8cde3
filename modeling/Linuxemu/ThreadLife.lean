import Linuxemu.Lib.Runs
import Linuxemu.Signal
import Linuxemu.ThreadIds
import Mathlib.Tactic.Simps.Basic

/-! Guest threads from their clone to their end (`guest_thread.c`), over any number of host threads:
the heap that thread states come from and the registry that lists them. The registry and the links
in it are used under `thread_registry_lock` only, or by the one thread that a fork leaves, and a
function changes them by one store, so what it does there is one step; every other use of a state
that two threads know is a step of its own, and so is each run of a signal handler. A step that uses
or frees what is not allocated, or that signals a host thread that has ended, is a `fault`. -/
namespace Linuxemu.ThreadLife
open Lib
open ThreadIds (tidMask initialGuestTid)

def linuxCloneVm : UInt32 := 0x00000100
def linuxCloneFs : UInt32 := 0x00000200
def linuxCloneFiles : UInt32 := 0x00000400
def linuxCloneSighand : UInt32 := 0x00000800
def linuxCloneThread : UInt32 := 0x00010000
def linuxCloneSysvsem : UInt32 := 0x00040000
def linuxCloneSettls : UInt32 := 0x00080000
def linuxCloneParentSettid : UInt32 := 0x00100000
def linuxCloneChildCleartid : UInt32 := 0x00200000
def linuxCloneDetached : UInt32 := 0x00400000
def linuxCloneChildSettid : UInt32 := 0x01000000

def linuxThreadRequired : UInt32 :=
  linuxCloneVm ||| linuxCloneFs ||| linuxCloneFiles ||| linuxCloneSighand ||| linuxCloneThread

def linuxThreadAllowed : UInt32 :=
  linuxThreadRequired ||| linuxCloneSysvsem ||| linuxCloneSettls ||| linuxCloneParentSettid |||
    linuxCloneChildCleartid ||| linuxCloneDetached ||| linuxCloneChildSettid

/-- Where a thread state is. -/
abbrev Pointer := Nat

/-- `&main_thread`. -/
def mainThread : Pointer := 0

abbrev HostThread := Nat

/-- The fields of a thread state that its own thread writes while it runs. -/
structure Own where
  guestTls : UInt32
  clearChildTid : UInt32
  signalMask : Signal.SignalSet
  altstackPointer : UInt32
  altstackSize : UInt32

/-- What has been done for a thread: its id stored for the parent and for itself, its guest code
entered, its stack unmapped, its state taken off the registry, its id cleared. -/
inductive Note where
  | parentTold | childTold | resumed | unmapped | unlinked | cleared
  deriving DecidableEq, Repr

def lifecycle : List Note := [.parentTold, .childTold, .resumed, .unmapped, .unlinked, .cleared]

/-- `struct guest_thread_state` without its signal queues, descriptors and futexes. The rest is
history: the thread that clones it, until it lets it go, the thread that was started with it, and
the notes, oldest first. -/
structure GuestThreadState where
  registers : Fin 16 → UInt32
  childTid : UInt32
  tid : UInt32
  start : Bool
  hostThread : Option HostThread
  own : Own
  maker : Option HostThread
  owner : Option HostThread
  notes : List Note

/-- The arguments of a `guest_thread_clone` and the state it makes. -/
structure Cloning where
  gpr : Fin 16 → UInt32
  child : Pointer

/-- Where a host thread is: about to take the step named. `host` is the local `thread` of
`guest_thread_clone`, `clear` the local `clear_child_tid` of `finish_guest_thread`. -/
inductive Stage where
  | starting | awaiting | telling | resuming
  | guest
  | drawing (c : Cloning) | creating (c : Cloning) (tid : UInt32)
  | recording (c : Cloning) (tid : UInt32) (host : HostThread)
  | registering (c : Cloning) (tid : UInt32) (host : HostThread)
  | notifying (c : Cloning) (tid : UInt32) (host : HostThread)
  | releasing (c : Cloning) (tid : UInt32) (host : HostThread)
  | retiring | unlinking (clear : UInt32) | clearing (clear : UInt32)
  | closing | forgetting | freeing

/-- `state` is the argument of `guest_thread_start`, `key` what `pthread_getspecific` gives,
`result` what the last call gave the guest. -/
structure Thread where
  state : Pointer
  key : Option Pointer
  stage : Stage
  result : Int

structure World where
  heap : Pointer → Option GuestThreadState
  threadRegistry : List Pointer
  threads : HostThread → Option Thread
  nextTid : UInt32
  memory : UInt32 → UInt32

/-- `go` is the next step of the function a thread is in; `create` is that of `pthread_create`, with
what it gives. `signal` is a run of `host_signal_handler` in a thread. `kill` comes with what
`pthread_kill` would give, and `own` is any change that a thread makes to the fields of its own.
`fork` goes on in the child, where there is nothing but the thread that called and its signal
handlers; `interrupted` if one runs after `guest_thread_after_fork` has freed the state of the
thread and before it sets the key. -/
inductive Event where
  | go
  | signal
  | create (host : Except Errno HostThread)
  | clone (gpr : Fin 16 → UInt32) (place : Option Pointer)
  | kill (tid : Int) (hostSignal : Nat) (outcome : Option Errno)
  | own (fields : Own)
  | store (address value : UInt32)
  | exit
  | fork (pid : UInt32) (interrupted : Bool)

def Event.forks : Event → Bool
  | .fork .. => true
  | _ => false

inductive Outcome where
  | next (w : World)
  | blocked
  | ended
  | fault

def answer : Option Errno → Int
  | none => 0
  | some errno => -linuxErrnoNumber errno

/-- `guest_thread_clone` refuses these. -/
def refusesClone (gpr : Fin 16 → UInt32) : Bool :=
  gpr 0 &&& linuxThreadRequired != linuxThreadRequired || gpr 0 &&& ~~~linuxThreadAllowed != 0 ||
    gpr 0 &&& 0xff != 0 || gpr 1 == 0

/-- The state of a thread to be, but for its id. -/
def clonedState (gpr : Fin 16 → UInt32) (parent : Own) (maker : HostThread) : GuestThreadState where
  registers :=
    Function.update (Function.update (Function.update gpr 0 0) 13 (gpr 1)) 15 (gpr 15 + 4)
  childTid := if gpr 0 &&& linuxCloneChildSettid ≠ 0 then gpr 4 else 0
  tid := 0
  start := false
  hostThread := none
  own :=
    { guestTls := if gpr 0 &&& linuxCloneSettls ≠ 0 then gpr 3 else parent.guestTls
      clearChildTid := if gpr 0 &&& linuxCloneChildCleartid ≠ 0 then gpr 4 else 0
      signalMask := parent.signalMask
      altstackPointer := 0
      altstackSize := 0 }
  maker := some maker
  owner := none
  notes := []

/-- `main_thread` as `guest_thread_initialize` and `guest_thread_after_fork` fill it. Nothing of a
clone is done for it. -/
def mainState (pid : UInt32) (host : HostThread) (own : Own) : GuestThreadState where
  registers _ := 0
  childTid := 0
  tid := initialGuestTid pid
  start := false
  hostThread := some host
  own := { own with clearChildTid := 0 }
  maker := none
  owner := some host
  notes := []

namespace World
variable (w : World)

@[simps] def put (h : HostThread) (t : Thread) : World :=
  { w with threads x := if x = h then some t else w.threads x }

@[simps] def write (a : Pointer) (n : GuestThreadState) : World :=
  { w with heap x := if x = a then some n else w.heap x }

@[simps] def drop (a : Pointer) : World := { w with heap x := if x = a then none else w.heap x }

@[simps] def leave (h : HostThread) : World :=
  { w with threads x := if x = h then none else w.threads x }

/-- A store to guest memory, if it is asked for. -/
def store (asked : Prop) [Decidable asked] (address value : UInt32) : World :=
  { w with memory := if asked then Function.update w.memory address value else w.memory }

/-- The state there is used. -/
def deref (a : Pointer) (next : GuestThreadState → Outcome) : Outcome :=
  match w.heap a with
  | none => .fault
  | some n => next n

/-- `free`, of what `calloc` gave. -/
def free (a : Pointer) (next : World → Outcome) : Outcome :=
  if w.heap a = none ∨ a = mainThread then .fault else next (w.drop a)

/-- A walk along the registry uses every state on it. -/
def walk (next : Outcome) : Outcome :=
  if ∃ a ∈ w.threadRegistry, w.heap a = none then .fault else next

/-- `host_signal_handler` uses the state of the thread it runs in, from
`guest_thread_syscall_active` on. -/
def signalled (t : Thread) (next : Outcome) : Outcome :=
  match t.key with
  | none => next
  | some key => w.deref key fun _ => next

/-- The process with `main_thread` as the state of its only thread. -/
@[simps] def renewed (h : HostThread) (pid : UInt32) (own : Own) (result : Int) : World where
  heap a :=
    if a = mainThread then some (mainState pid h own)
    else (w.heap a).map ({ · with maker := none, owner := none })
  threadRegistry := [mainThread]
  threads x := if x = h then some ⟨mainThread, some mainThread, .guest, result⟩ else none
  nextTid := initialGuestTid pid + 1
  memory := w.memory

/-- `guest_thread_after_fork`. Where a signal handler runs does not matter but for the freed state:
before it the thread's own state is there, and after the key is set `main_thread` is. -/
def afterFork (h : HostThread) (t : Thread) (pid : UInt32) (interrupted : Bool) : Outcome :=
  w.walk <| match t.key with
    | none => .next (w.renewed h pid ⟨0, 0, ⟨0, 0⟩, 0, 0⟩ t.result)
    | some key => w.deref key fun n =>
      let renew (w : World) : Outcome :=
        let renewed := .next (w.renewed h pid n.own t.result)
        if interrupted then w.signalled t renewed else renewed
      if key = mainThread then renew w else w.free key renew

/-- `guest_thread_kill`. The thread that is signalled must not have ended. -/
def kill (h : HostThread) (t : Thread) (tid : Int) (hostSignal : Nat) (outcome : Option Errno) :
    List Pointer → Outcome
  | [] => .next (w.put h { t with result := answer (some .esrch) })
  | a :: rest => w.deref a fun n =>
    if (n.tid.toNat : Int) ≠ tid then kill h t tid hostSignal outcome rest
    else if hostSignal = 0 then .next (w.put h { t with result := 0 })
    else if n.hostThread.bind w.threads = none then .fault
    else .next (w.put h { t with result := answer outcome })

/-- One step of guest code, or a call, or the beginning of one. -/
def guestStep (h : HostThread) (t : Thread) : Event → Outcome
  | .clone gpr place =>
    if refusesClone gpr then .next (w.put h { t with result := answer (some .einval) })
    else match place with
      | none => .next (w.put h { t with result := answer (some .enomem) })
      | some a =>
        if w.heap a ≠ none then .blocked
        else match t.key with
          | none => .fault
          | some key => w.deref key fun parent =>
            .next ((w.write a (clonedState gpr parent.own h)).put h
              { t with stage := .drawing ⟨gpr, a⟩ })
  | .kill tid hostSignal outcome => w.kill h t tid hostSignal outcome w.threadRegistry
  | .own fields =>
    match t.key with
    | none => .next w
    | some key => w.deref key fun n => .next (w.write key { n with own := fields })
  | .store address value => .next (w.store True address value)
  | .exit =>
    if t.key = none ∨ t.key = some mainThread then .ended
    else .next (w.put h { t with stage := .retiring })
  | .fork pid interrupted => w.afterFork h t pid interrupted
  | _ => .blocked

/-- `guest_thread_start`. -/
def startStep (h : HostThread) (t : Thread) : Stage → Event → Outcome
  | .starting, .go => .next (w.put h { t with key := some t.state, stage := .awaiting })
  | .awaiting, .go => w.deref t.state fun n =>
    if n.start then .next (w.put h { t with stage := .telling }) else .next w
  | .telling, .go => w.deref t.state fun n =>
    .next (((w.store (n.childTid ≠ 0) n.childTid n.tid).write t.state
      { n with notes := n.notes ++ [.childTold] }).put h { t with stage := .resuming })
  | .resuming, .go => w.deref t.state fun n =>
    .next ((w.write t.state { n with notes := n.notes ++ [.resumed] }).put h
      { t with stage := .guest })
  | _, _ => .blocked

/-- `guest_thread_clone` from the loop of `allocate_guest_tid` on. -/
def cloneStep (h : HostThread) (t : Thread) : Stage → Event → Outcome
  | .drawing c, .go =>
    let tid := w.nextTid &&& tidMask
    let w := { w with nextTid := w.nextTid + 1 }
    if tid = 0 then .next w
    else w.deref c.child fun n =>
      .next ((w.write c.child { n with tid }).put h { t with stage := .creating c tid })
  | .creating c tid, .create (.ok k) =>
    if w.threads k ≠ none then .blocked
    else w.deref c.child fun n =>
      .next (((w.write c.child { n with owner := some k }).put k
        ⟨c.child, none, .starting, 0⟩).put h { t with stage := .recording c tid k })
  | .creating c _, .create (.error errno) => w.free c.child fun w =>
    .next (w.put h { t with stage := .guest, result := answer (some errno) })
  | .recording c tid k, .go => w.deref c.child fun n =>
    .next ((w.write c.child { n with hostThread := some k }).put h
      { t with stage := .registering c tid k })
  | .registering c tid k, .go => w.deref c.child fun _ =>
    .next ({ w with threadRegistry := c.child :: w.threadRegistry }.put h
      { t with stage := .notifying c tid k })
  | .notifying c tid k, .go => w.deref c.child fun n =>
    .next (((w.store (c.gpr 0 &&& linuxCloneParentSettid ≠ 0) (c.gpr 2) n.tid).write c.child
      { n with notes := n.notes ++ [.parentTold] }).put h { t with stage := .releasing c tid k })
  | .releasing c tid _, .go => w.deref c.child fun n =>
    .next ((w.write c.child { n with start := true, maker := none }).put h
      { t with stage := .guest, result := tid.toNat })
  | _, _ => .blocked

/-- `finish_guest_thread`. What the unmapping does to memory is not followed here. -/
def finishStep (h : HostThread) (t : Thread) : Stage → Event → Outcome
  | .retiring, .go => w.deref t.state fun n =>
    .next ((w.write t.state { n with notes := n.notes ++ [.unmapped] }).put h
      { t with stage := .unlinking n.own.clearChildTid })
  | .unlinking clear, .go => w.walk <| w.deref t.state fun n =>
    .next (({ w with threadRegistry := w.threadRegistry.erase t.state }.write t.state
      { n with notes := n.notes ++ [Note.unlinked] }).put h { t with stage := .clearing clear })
  | .clearing clear, .go => w.deref t.state fun n =>
    .next (((w.store (clear ≠ 0) clear 0).write t.state
      { n with notes := n.notes ++ [.cleared] }).put h { t with stage := .closing })
  | .closing, .go => w.deref t.state fun _ => .next (w.put h { t with stage := .forgetting })
  | .forgetting, .go => .next (w.put h { t with key := none, stage := .freeing })
  | .freeing, .go => w.free t.state fun w => .next (w.leave h)
  | _, _ => .blocked

def step (h : HostThread) (e : Event) : Outcome :=
  match w.threads h with
  | none => .blocked
  | some t =>
    match e, t.stage with
    | .signal, _ => w.signalled t (.next w)
    | e, .guest => w.guestStep h t e
    | e, .starting | e, .awaiting | e, .telling | e, .resuming => w.startStep h t t.stage e
    | e, .retiring | e, .unlinking _ | e, .clearing _ | e, .closing | e, .forgetting
    | e, .freeing => w.finishStep h t t.stage e
    | e, _ => w.cloneStep h t t.stage e

end World

/-- `guest_thread_initialize`. -/
def initialized (pid : UInt32) (host : HostThread) (memory : UInt32 → UInt32) : World :=
  (⟨fun _ => none, [], fun _ => none, 0, memory⟩ : World).renewed host pid ⟨0, 0, ⟨0, 0⟩, 0, 0⟩ 0

def Step (w : World) (e : HostThread × Event) (w' : World) : Prop := w.step e.1 e.2 = .next w'

def Start (w : World) : Prop := ∃ pid host memory, w = initialized pid host memory

/-- Every state that an interleaving leads to, one without forks if `whole`. -/
def Reachable (whole : Bool) : World → Prop :=
  Run Step (fun _ e => whole = true → e.2.forks = false) Start

end Linuxemu.ThreadLife
