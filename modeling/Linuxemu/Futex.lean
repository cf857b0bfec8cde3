import Linuxemu.Errno
import Mathlib.Algebra.Ring.Int.Defs
import Mathlib.Algebra.Ring.Nat
import Mathlib.Logic.Function.Basic

/-! Futexes (`linux_futex.c`) in atomic steps, over any number of threads. A host
signal handler may begin on a thread between any two of its steps; what it
interrupts waits until it is done. -/
namespace Linuxemu.Futex

def intMax : Int := 2 ^ 31 - 1

def bitsetMatchAny : BitVec 32 := 0xffffffff#32

/-- A call of `futex_wait`: its arguments, its `struct futex_waiter` (at `pointer`
on the stack) and, for the statements only, what became of it. -/
structure Wait where
  thread : Nat
  asked : Nat
  expected : BitVec 32
  deadline : Bool
  pointer : Nat
  address : Nat
  bitset : BitVec 32
  woken : Bool
  semaphore : Nat
  seen : Option (BitVec 32)
  readAt : Nat
  enqueued : Bool
  markedBy : List Nat
  moves : List (Nat × Nat)
  left : Option Errno
  result : Option Int

/-- A call of `linux_futex_wake` or `futex_requeue`. -/
inductive Request where
  | wake (address : Nat) (count : Int) (bitset : BitVec 32)
  | requeue (address : Nat) (wakeCount requeueCount : Int) (second : Nat) (compare : Bool)
      (expected : BitVec 32)

/-- The checks before the lock is taken. -/
def Request.Valid : Request → Prop
  | .wake _ count bitset => ¬ (count < 0 ∨ bitset = 0)
  | .requeue _ wakeCount requeueCount second _ _ =>
    ¬ (wakeCount < 0 ∨ requeueCount < 0 ∨ second = 0)

structure Wake where
  thread : Nat
  request : Request
  marked : Nat
  result : Option Int

/-- Where a `futex_wait` is: about to take the step named. -/
inductive WaitStage where
  | lock | check | mismatch | again | link | reset | arm | unlock | sleep
  | disarm (error : Option Errno)
  | read (error : Option Errno)
  | clear (error : Option Errno) (interrupted : Bool)
  | relock (error : Option Errno)
  | remove (error : Option Errno)
  | release (error : Option Errno)
  | finish (error : Option Errno)

/-- Where a `linux_futex_wake` or `futex_requeue` is; `rest` is the part of the
list the loop has still to visit. -/
inductive WakeStage where
  | lock | check | mismatch
  | scan (rest : List Nat) (woken requeued : Nat)
  | post (c : Nat) (rest : List Nat) (woken requeued : Nat)
  | next (rest : List Nat) (woken requeued : Nat)
  | unlock (affected : Nat)
  | finish (result : Int)

inductive Pc where
  | idle
  | waiting (c : Nat) (stage : WaitStage)
  | waking (k : Nat) (stage : WakeStage)

/-- The end of `guest_thread_signal_pending`: test `futex_semaphore`, set
`futex_interrupted`, post. -/
inductive HandlerStage where
  | test | interrupt | post

structure Thread where
  pc : Pc
  futexSemaphore : Option Nat
  futexInterrupted : Bool
  handlers : List HandlerStage

/-- `words` is guest memory, `holder` the owner of `futex_lock`, `waiters` the list
from `futex_waiters` on. Calls are numbered as they begin. -/
structure World where
  words : Nat → BitVec 32
  holder : Option Nat
  waiters : List Nat
  threads : Nat → Thread
  nextWait : Nat
  waits : Nat → Wait
  nextWake : Nat
  wakes : Nat → Wake

/-- What one step does to the shared state and to the thread's futex fields. -/
inductive Effect where
  | silent
  | acquire
  | release
  | beginWait (call : Wait)
  | beginWake (request : Request)
  | refuseWake (request : Request)
  | see (c : Nat) (value : BitVec 32)
  | link (c : Nat)
  | unlink (c : Nat) (error : Option Errno)
  | clearInterrupted
  | arm (c : Nat)
  | disarm
  | take (c : Nat)
  | mark (k c : Nat)
  | post (c : Nat)
  | requeue (c second : Nat)
  | finishWait (c : Nat) (result : Int)
  | finishWake (k : Nat) (result : Int)

namespace World

def setWait (w : World) (c : Nat) (f : Wait → Wait) : World :=
  { w with waits := Function.update w.waits c (f (w.waits c)) }

def setWake (w : World) (k : Nat) (f : Wake → Wake) : World :=
  { w with wakes := Function.update w.wakes k (f (w.wakes k)) }

def setThread (w : World) (t : Nat) (f : Thread → Thread) : World :=
  { w with threads := Function.update w.threads t (f (w.threads t)) }

def apply (w : World) (t : Nat) : Effect → World
  | .silent => w
  | .acquire => { w with holder := some t }
  | .release => { w with holder := none }
  | .beginWait call =>
    { w with waits := Function.update w.waits w.nextWait call, nextWait := w.nextWait + 1 }
  | .beginWake request =>
    { w with
      wakes := Function.update w.wakes w.nextWake ⟨t, request, 0, none⟩
      nextWake := w.nextWake + 1 }
  | .refuseWake request =>
    { w with
      wakes := Function.update w.wakes w.nextWake ⟨t, request, 0, some (-22)⟩
      nextWake := w.nextWake + 1 }
  | .see c value => w.setWait c fun x => { x with seen := some value, readAt := w.nextWake }
  | .link c =>
    { w with waiters := c :: w.waiters }.setWait c fun x => { x with enqueued := true }
  | .unlink c error =>
    { w with waiters := w.waiters.erase c }.setWait c fun x => { x with left := error }
  | .clearInterrupted => w.setThread t fun x => { x with futexInterrupted := false }
  | .arm c => w.setThread t fun x => { x with futexSemaphore := some c }
  | .disarm => w.setThread t fun x => { x with futexSemaphore := none }
  | .take c => w.setWait c fun x => { x with semaphore := x.semaphore - 1 }
  | .mark k c =>
    (w.setWait c fun x => { x with woken := true, markedBy := x.markedBy ++ [k] }).setWake k
      fun x => { x with marked := x.marked + 1 }
  | .post c => w.setWait c fun x => { x with semaphore := x.semaphore + 1 }
  | .requeue c second =>
    w.setWait c fun x => { x with address := second, moves := x.moves ++ [(x.address, second)] }
  | .finishWait c result => w.setWait c fun x => { x with result := some result }
  | .finishWake k result => w.setWake k fun x => { x with result := some result }

def goto (w : World) (t : Nat) (p : Pc) : World := w.setThread t fun x => { x with pc := p }

def store (w : World) (a : Nat) (value : BitVec 32) : World :=
  { w with words := Function.update w.words a value }

end World

/-- The last lines of `futex_wait`. -/
def waitResult (woken : Bool) (error : Option Errno) : Int :=
  if woken then 0
  else match error with
    | some .etimedout => -110
    | none => 0
    | some e => -(linuxErrnoNumber e : Int)

/-- A fresh `struct futex_waiter` for a call. -/
def newWait (thread address : Nat) (expected : BitVec 32) (deadline : Bool) (bitset : BitVec 32)
    (pointer : Nat) (result : Option Int) : Wait :=
  { thread, asked := address, expected, deadline, pointer, address, bitset, woken := false,
    semaphore := 0, seen := none, readAt := 0, enqueued := false, markedBy := [], moves := [],
    left := none, result }

/-- The steps of `futex_wait`; `none` is the return to the guest. The second lock
is taken unchecked; a wait on a valid semaphore fails only with `EINTR` and, with a
deadline, `ETIMEDOUT`. -/
inductive WaitMove (w : World) (t c : Nat) : WaitStage → Effect → Option WaitStage → Prop
  | lockFailed (e : Errno) : WaitMove w t c .lock (.finishWait c (-(linuxErrnoNumber e : Int))) none
  | lock (free : w.holder = none) : WaitMove w t c .lock .acquire (some .check)
  | agrees (same : w.words (w.waits c).address = (w.waits c).expected) :
      WaitMove w t c .check (.see c (w.words (w.waits c).address)) (some .link)
  | differs (other : w.words (w.waits c).address ≠ (w.waits c).expected) :
      WaitMove w t c .check (.see c (w.words (w.waits c).address)) (some .mismatch)
  | mismatch : WaitMove w t c .mismatch .release (some .again)
  | again : WaitMove w t c .again (.finishWait c (-11)) none
  | link : WaitMove w t c .link (.link c) (some .reset)
  | reset : WaitMove w t c .reset .clearInterrupted (some .arm)
  | arm : WaitMove w t c .arm (.arm c) (some .unlock)
  | unlock : WaitMove w t c .unlock .release (some .sleep)
  | posted (some' : 0 < (w.waits c).semaphore) :
      WaitMove w t c .sleep (.take c) (some (.disarm none))
  | failed (e : Errno) (why : e = .eintr ∨ e = .etimedout ∧ (w.waits c).deadline = true) :
      WaitMove w t c .sleep .silent (some (.disarm (some e)))
  | disarm (error : Option Errno) : WaitMove w t c (.disarm error) .disarm (some (.read error))
  | read (error : Option Errno) :
      WaitMove w t c (.read error) .silent (some (.clear error (w.threads t).futexInterrupted))
  | clear (error : Option Errno) (interrupted : Bool) :
      WaitMove w t c (.clear error interrupted) .clearInterrupted
        (some (.relock (if interrupted ∧ error = none then some .eintr else error)))
  | relock (error : Option Errno) (free : w.holder = none) :
      WaitMove w t c (.relock error) .acquire (some (.remove error))
  | remove (error : Option Errno) :
      WaitMove w t c (.remove error) (.unlink c error) (some (.release error))
  | release (error : Option Errno) : WaitMove w t c (.release error) .release (some (.finish error))
  | finish (error : Option Errno) :
      WaitMove w t c (.finish error) (.finishWait c (waitResult (w.waits c).woken error)) none

/-- The steps of `linux_futex_wake` and `futex_requeue`. -/
inductive WakeMove (w : World) (k : Nat) : WakeStage → Effect → Option WakeStage → Prop
  | lockFailed (e : Errno) : WakeMove w k .lock (.finishWake k (-(linuxErrnoNumber e : Int))) none
  | lock (free : w.holder = none) : WakeMove w k .lock .acquire (some .check)
  | compareFailed {a : Nat} {n m : Int} {b : Nat} {expected : BitVec 32}
      (request : (w.wakes k).request = .requeue a n m b true expected)
      (other : w.words a ≠ expected) : WakeMove w k .check .silent (some .mismatch)
  | mismatch : WakeMove w k .mismatch .release (some (.finish (-11)))
  | compared {a : Nat} {n m : Int} {b : Nat} {compare : Bool} {expected : BitVec 32}
      (request : (w.wakes k).request = .requeue a n m b compare expected)
      (same : ¬ (compare = true ∧ w.words a ≠ expected)) :
      WakeMove w k .check .silent (some (.scan w.waiters 0 0))
  | begin {a : Nat} {n : Int} {bitset : BitVec 32}
      (request : (w.wakes k).request = .wake a n bitset) :
      WakeMove w k .check .silent (some (.scan w.waiters 0 0))
  -- `linux_futex_wake`
  | enough {a : Nat} {n : Int} {bitset : BitVec 32} {rest : List Nat} {woken requeued : Nat}
      (request : (w.wakes k).request = .wake a n bitset) (stop : rest = [] ∨ ¬ (woken : Int) < n) :
      WakeMove w k (.scan rest woken requeued) .silent (some (.unlock (woken + requeued)))
  | pass {a : Nat} {n : Int} {bitset : BitVec 32} {c : Nat} {rest : List Nat}
      {woken requeued : Nat} (request : (w.wakes k).request = .wake a n bitset)
      (more : (woken : Int) < n)
      (skip : (w.waits c).address ≠ a ∨ (w.waits c).bitset &&& bitset = 0 ∨
        (w.waits c).woken = true) :
      WakeMove w k (.scan (c :: rest) woken requeued) .silent (some (.scan rest woken requeued))
  | mark {a : Nat} {n : Int} {bitset : BitVec 32} {c : Nat} {rest : List Nat}
      {woken requeued : Nat} (request : (w.wakes k).request = .wake a n bitset)
      (more : (woken : Int) < n) (on : (w.waits c).address = a)
      (bits : (w.waits c).bitset &&& bitset ≠ 0) (unmarked : (w.waits c).woken = false) :
      WakeMove w k (.scan (c :: rest) woken requeued) (.mark k c)
        (some (.post c rest woken requeued))
  | posted {a : Nat} {n : Int} {bitset : BitVec 32} {c : Nat} {rest : List Nat}
      {woken requeued : Nat} (request : (w.wakes k).request = .wake a n bitset) :
      WakeMove w k (.post c rest woken requeued) (.post c) (some (.scan rest (woken + 1) requeued))
  -- `futex_requeue`
  | visited {a : Nat} {n m : Int} {b : Nat} {compare : Bool} {expected : BitVec 32}
      {woken requeued : Nat}
      (request : (w.wakes k).request = .requeue a n m b compare expected) :
      WakeMove w k (.scan [] woken requeued) .silent (some (.unlock (woken + requeued)))
  | other {a : Nat} {n m : Int} {b : Nat} {compare : Bool} {expected : BitVec 32} {c : Nat}
      {rest : List Nat} {woken requeued : Nat}
      (request : (w.wakes k).request = .requeue a n m b compare expected)
      (skip : (w.waits c).address ≠ a ∨ (w.waits c).woken = true) :
      WakeMove w k (.scan (c :: rest) woken requeued) .silent (some (.scan rest woken requeued))
  | markFirst {a : Nat} {n m : Int} {b : Nat} {compare : Bool} {expected : BitVec 32} {c : Nat}
      {rest : List Nat} {woken requeued : Nat}
      (request : (w.wakes k).request = .requeue a n m b compare expected)
      (on : (w.waits c).address = a) (unmarked : (w.waits c).woken = false)
      (more : (woken : Int) < n) :
      WakeMove w k (.scan (c :: rest) woken requeued) (.mark k c)
        (some (.post c rest woken requeued))
  | postedFirst {a : Nat} {n m : Int} {b : Nat} {compare : Bool} {expected : BitVec 32} {c : Nat}
      {rest : List Nat} {woken requeued : Nat}
      (request : (w.wakes k).request = .requeue a n m b compare expected) :
      WakeMove w k (.post c rest woken requeued) (.post c) (some (.next rest (woken + 1) requeued))
  | requeue {a : Nat} {n m : Int} {b : Nat} {compare : Bool} {expected : BitVec 32} {c : Nat}
      {rest : List Nat} {woken requeued : Nat}
      (request : (w.wakes k).request = .requeue a n m b compare expected)
      (on : (w.waits c).address = a) (unmarked : (w.waits c).woken = false)
      (enough : ¬ (woken : Int) < n) (more : (requeued : Int) < m) :
      WakeMove w k (.scan (c :: rest) woken requeued) (.requeue c b)
        (some (.next rest woken (requeued + 1)))
  | leave {a : Nat} {n m : Int} {b : Nat} {compare : Bool} {expected : BitVec 32} {c : Nat}
      {rest : List Nat} {woken requeued : Nat}
      (request : (w.wakes k).request = .requeue a n m b compare expected)
      (on : (w.waits c).address = a) (unmarked : (w.waits c).woken = false)
      (enough : ¬ (woken : Int) < n) (full : ¬ (requeued : Int) < m) :
      WakeMove w k (.scan (c :: rest) woken requeued) .silent (some (.next rest woken requeued))
  | stop {a : Nat} {n m : Int} {b : Nat} {compare : Bool} {expected : BitVec 32}
      {rest : List Nat} {woken requeued : Nat}
      (request : (w.wakes k).request = .requeue a n m b compare expected)
      (done : (woken : Int) = n ∧ (requeued : Int) = m) :
      WakeMove w k (.next rest woken requeued) .silent (some (.unlock (woken + requeued)))
  | goOn {a : Nat} {n m : Int} {b : Nat} {compare : Bool} {expected : BitVec 32}
      {rest : List Nat} {woken requeued : Nat}
      (request : (w.wakes k).request = .requeue a n m b compare expected)
      (more : ¬ ((woken : Int) = n ∧ (requeued : Int) = m)) :
      WakeMove w k (.next rest woken requeued) .silent (some (.scan rest woken requeued))
  -- both
  | unlock (affected : Nat) : WakeMove w k (.unlock affected) .release (some (.finish affected))
  | finish (result : Int) : WakeMove w k (.finish result) (.finishWake k result) none

/-- A stack variable's place: aligned, and not that of a call still running. -/
def World.FreePlace (w : World) (pointer : Nat) : Prop :=
  pointer < 2 ^ 32 ∧ pointer % 4 = 0 ∧
    ∀ c < w.nextWait, (w.waits c).result = none → (w.waits c).pointer ≠ pointer

/-- A step of thread `t` outside its handlers. The early exits of `futex_wait` are
a zero bitset, a bad timeout and a failed `sem_init`. -/
inductive Move (w : World) (t : Nat) : Pc → Effect → Pc → Prop
  | refuseWait (address : Nat) (expected : BitVec 32) (timeout : Bool) (bitset : BitVec 32)
      (pointer : Nat) (result : Int)
      (why : bitset = 0 ∧ result = -22 ∨ bitset ≠ 0 ∧ timeout = true ∧ result = -22 ∨
        bitset ≠ 0 ∧ ∃ e, result = -(linuxErrnoNumber e : Int)) :
      Move w t .idle
        (.beginWait (newWait t address expected timeout bitset pointer (some result))) .idle
  | beginWait (address : Nat) (expected : BitVec 32) (timeout : Bool) (bitset : BitVec 32)
      (pointer : Nat) (valid : bitset ≠ 0) (place : w.FreePlace pointer) :
      Move w t .idle (.beginWait (newWait t address expected timeout bitset pointer none))
        (.waiting w.nextWait .lock)
  | refuseWake (request : Request) (invalid : ¬ request.Valid) :
      Move w t .idle (.refuseWake request) .idle
  | beginWake (request : Request) (valid : request.Valid) :
      Move w t .idle (.beginWake request) (.waking w.nextWake .lock)
  | wait {c : Nat} {stage next : WaitStage} {e : Effect} (move : WaitMove w t c stage e (some next)) :
      Move w t (.waiting c stage) e (.waiting c next)
  | waitEnd {c : Nat} {stage : WaitStage} {e : Effect} (move : WaitMove w t c stage e none) :
      Move w t (.waiting c stage) e .idle
  | wake {k : Nat} {stage next : WakeStage} {e : Effect} (move : WakeMove w k stage e (some next)) :
      Move w t (.waking k stage) e (.waking k next)
  | wakeEnd {k : Nat} {stage : WakeStage} {e : Effect} (move : WakeMove w k stage e none) :
      Move w t (.waking k stage) e .idle

/-- One step of the innermost handler of thread `t`. -/
def stepHandler (w : World) (t : Nat) : World :=
  match (w.threads t).handlers with
  | [] => w
  | .test :: rest =>
    if (w.threads t).futexSemaphore = none then w.setThread t ({ · with handlers := rest })
    else w.setThread t ({ · with handlers := .interrupt :: rest })
  | .interrupt :: rest =>
    w.setThread t ({ · with futexInterrupted := true, handlers := .post :: rest })
  | .post :: rest =>
    let w := match (w.threads t).futexSemaphore with
      | some c => w.apply t (.post c)
      | none => w
    w.setThread t ({ · with handlers := rest })

inductive Step : World → World → Prop
  | move {w : World} (t : Nat) {e : Effect} {p : Pc} (free : (w.threads t).handlers = [])
      (move : Move w t (w.threads t).pc e p) : Step w ((w.apply t e).goto t p)
  | signal (w : World) (t : Nat) :
      Step w (w.setThread t fun x => { x with handlers := .test :: x.handlers })
  | handler (w : World) (t : Nat) : Step w (stepHandler w t)
  | store (w : World) (a : Nat) (value : BitVec 32) : Step w (w.store a value)

/-- Any memory, no call begun. -/
def start (words : Nat → BitVec 32) : World where
  words := words
  holder := none
  waiters := []
  threads _ := ⟨.idle, none, false, []⟩
  nextWait := 0
  waits _ := newWait 0 0 0 false 0 0 none
  nextWake := 0
  wakes _ := ⟨0, .wake 0 0 0, 0, none⟩

inductive Runs (w : World) : World → Prop
  | refl : Runs w w
  | next {u v : World} : Runs w u → Step u v → Runs w v

def Reachable (w : World) : Prop := ∃ words, Runs (start words) w

end Linuxemu.Futex
