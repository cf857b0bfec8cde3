import Linuxemu.Lib.Ring

/-! The pending-signal queues of one guest thread (`guest_thread.c`), in atomic
steps. `guest_thread_signal_pending` runs as a host handler on the thread itself:
it may begin between any two steps of `guest_thread_take_pending` or of another
handler, and what it interrupts waits until it is done. -/
namespace Linuxemu.Pending

def firstRealtimeSignal : Nat := 32
def lastRealtimeSignal : Nat := 47
def realtimeQueueLength : Nat := 64

/-- A `siginfo_t` as the machine copies it, word by word. -/
abbrev Siginfo (size : Nat) := Fin size → UInt32

/-- `sig_atomic_t` is a 32-bit `int`. -/
def wrap (x : Int) : Int := (x + 2 ^ 31) % 2 ^ 32 - 2 ^ 31

/-- `count % REALTIME_QUEUE_LENGTH`, with the remainder of C. -/
def slotOf (count : Int) : Nat := (Int.tmod count realtimeQueueLength).toNat

def signalWord (signal : Nat) : Nat := (signal - 1) / 32

def signalBit (signal : Nat) : BitVec 32 := 1#32 <<< ((signal - 1) % 32)

/-- Where a run of `guest_thread_signal_pending` is. `fill` and `write` are about
to store word `k` of the information. -/
inductive Stage where
  | start
  | tailRead (tail : Int)
  | fill (tail : Int) (k : Nat)
  | publish (tail : Int)
  | wordRead (old : BitVec 32)
  | write (k : Nat)
  | merge
  | wake

structure Post (size : Nat) where
  signal : Nat
  information : Option (Siginfo size)
  stage : Stage

/-- Which of the two result pointers of `guest_thread_take_pending` are not null. -/
structure Request where
  information : Bool
  hasInformation : Bool

/-- Where a run of `guest_thread_take_pending` is. `copy` and `read` are about to
fetch word `k`; `give` carries what was taken off the queue beside the copy. -/
inductive Take (size : Nat) where
  | idle
  | load (r : Request)
  | choose (r : Request) (old : BitVec 32)
  | copy (r : Request) (old : BitVec 32) (signal k : Nat) (selected : Siginfo size)
  | swap (r : Request) (old : BitVec 32) (signal : Nat) (selected : Siginfo size)
  | scan (r : Request) (signal : Nat)
  | head (r : Request) (signal : Nat)
  | tail (r : Request) (signal : Nat) (head : Int)
  | read (r : Request) (signal : Nat) (head : Int) (k : Nat) (selected : Siginfo size)
  | advance (r : Request) (signal : Nat) (head : Int) (selected : Siginfo size)
  | give (r : Request) (signal : Nat) (selected taken : Siginfo size)

/-- What a call of `guest_thread_take_pending` leaves behind its two pointers. -/
structure Results (size : Nat) where
  information : Option (Siginfo size)
  hasInformation : Option Bool

/-- What happened, for the statements only. A post of a standard signal records
whether the signal was pending when its bit was set; a refused one, how many
accepted ones were still in the queue; a return, what was taken off the queue and
whether the signal was in the mask. -/
inductive Event (size : Nat) where
  | posted (signal : Nat) (info : Siginfo size) (wasPending : Bool)
  | accepted (signal : Nat) (info : Siginfo size)
  | refused (signal : Nat) (outstanding : Nat)
  | returned (r : Request) (signal : Nat) (results : Results size) (taken : Siginfo size)
      (masked : Bool)
  | nothing (r : Request) (results : Results size)

namespace Event
variable {size : Nat}

/-- The information of a post that made the standard signal `n` pending. -/
def makes (n : Nat) : Event size → Option (Siginfo size)
  | .posted m info wasPending => if m = n ∧ wasPending = false then some info else none
  | _ => none

def accepts (n : Nat) : Event size → Option (Siginfo size)
  | .accepted m info => if m = n then some info else none
  | _ => none

/-- What a return of `n` took off the queue. -/
def returns (n : Nat) : Event size → Option (Siginfo size)
  | .returned _ m _ taken _ => if m = n then some taken else none
  | _ => none

end Event

/-- The fields of `struct guest_thread_state` that the two functions use, the
runs in progress (the innermost handler first) and the history, oldest first. -/
structure Thread (size : Nat) where
  pendingSignals : Nat → BitVec 32
  pendingInformation : Nat → Siginfo size
  realtimeHead : Nat → Int
  realtimeTail : Nat → Int
  realtimeInformation : Nat → Nat → Siginfo size
  signalMask : Nat → BitVec 32
  take : Take size
  handlers : List (Post size)
  history : List (Event size)

variable {size : Nat}

/-- A thread as `calloc` and the copied mask of its parent leave it. -/
def fresh (mask : Nat → BitVec 32) : Thread size where
  pendingSignals _ := 0
  pendingInformation _ _ := 0
  realtimeHead _ := 0
  realtimeTail _ := 0
  realtimeInformation _ _ _ := 0
  signalMask := mask
  take := .idle
  handlers := []
  history := []

/-- The information a post stores: that of the caller, or zeros. -/
def Post.info (p : Post size) : Siginfo size := p.information.getD fun _ => 0

/-- The row of a real-time signal in the three real-time tables. -/
def index (signal : Nat) : Nat := signal - firstRealtimeSignal

namespace Thread

def pending (s : Thread size) (signal : Nat) : Bool :=
  (s.pendingSignals (signalWord signal)).getLsbD ((signal - 1) % 32)

def masked (s : Thread size) (signal : Nat) : Bool :=
  (s.signalMask (signalWord signal)).getLsbD ((signal - 1) % 32)

def log (s : Thread size) (e : Event size) : Thread size := { s with history := s.history ++ [e] }

/-! ## Reading the history -/

def made (s : Thread size) (n : Nat) : List (Siginfo size) := s.history.filterMap (Event.makes n)

def accepted (s : Thread size) (n : Nat) : List (Siginfo size) :=
  s.history.filterMap (Event.accepts n)

def returned (s : Thread size) (n : Nat) : List (Siginfo size) :=
  s.history.filterMap (Event.returns n)

/-- Taken off its queue, on the way to the caller. -/
def inFlight (s : Thread size) (n : Nat) : List (Siginfo size) :=
  match s.take with
  | .give _ m _ taken => if m = n then [taken] else []
  | _ => []

/-- Accepted and not yet taken off the queue. -/
def outstanding (s : Thread size) (n : Nat) : Nat :=
  (s.accepted n).length - (s.returned n).length - (s.inFlight n).length

/-! ## Steps -/

def storeRealtime (s : Thread size) (i slot : Nat) (k : Fin size) (word : UInt32) : Thread size :=
  { s with
    realtimeInformation := Function.update s.realtimeInformation i
      (Function.update (s.realtimeInformation i) slot
        (Function.update (s.realtimeInformation i slot) k word)) }

def storePending (s : Thread size) (i : Nat) (k : Fin size) (word : UInt32) : Thread size :=
  { s with
    pendingInformation := Function.update s.pendingInformation i
      (Function.update (s.pendingInformation i) k word) }

/-- `__sync_or_and_fetch` of the signal's bit. -/
def raise (s : Thread size) (signal : Nat) : Thread size :=
  { s with
    pendingSignals := Function.update s.pendingSignals (signalWord signal)
      (s.pendingSignals (signalWord signal) ||| signalBit signal) }

def storeTail (s : Thread size) (i : Nat) (tail : Int) : Thread size :=
  { s with realtimeTail := Function.update s.realtimeTail i tail }

/-- The store of a successful `__sync_bool_compare_and_swap`. -/
def clear (s : Thread size) (old : BitVec 32) (signal : Nat) : Thread size :=
  { s with pendingSignals := Function.update s.pendingSignals 0 (old &&& ~~~ signalBit signal) }

def storeHead (s : Thread size) (i : Nat) (head : Int) : Thread size :=
  { s with realtimeHead := Function.update s.realtimeHead i head }

/-- The innermost handler `p` goes on at `stage`. -/
def goto (s : Thread size) (p : Post size) (rest : List (Post size)) (stage : Stage) :
    Thread size :=
  { s with handlers := { p with stage := stage } :: rest }

end Thread

/-- One step of the innermost handler. -/
def stepHandler (s : Thread size) : Thread size :=
  match s.handlers with
  | [] => s
  | p :: rest =>
    match p.stage with
    | .start =>
      if 0 < p.signal ∧ p.signal ≤ 64 then
        if firstRealtimeSignal ≤ p.signal ∧ p.signal ≤ lastRealtimeSignal then
          s.goto p rest (.tailRead (s.realtimeTail (index p.signal)))
        else s.goto p rest (.wordRead (s.pendingSignals (signalWord p.signal)))
      else { s with handlers := rest }
    | .tailRead tail =>
      if wrap (tail - s.realtimeHead (index p.signal)) < realtimeQueueLength then
        s.goto p rest (.fill tail 0)
      else (s.log (.refused p.signal (s.outstanding p.signal))).goto p rest .wake
    | .fill tail k =>
      if lt : k < size then
        (s.storeRealtime (index p.signal) (slotOf tail) ⟨k, lt⟩ (p.info ⟨k, lt⟩)).goto p rest
          (.fill tail (k + 1))
      else s.goto p rest (.publish tail)
    | .publish tail =>
      ((s.storeTail (index p.signal) (wrap (tail + 1))).log (.accepted p.signal p.info)).goto
        p rest .wake
    | .wordRead old =>
      if old &&& signalBit p.signal = 0 ∧ p.signal ≤ 31 then s.goto p rest (.write 0)
      else s.goto p rest .merge
    | .write k =>
      if lt : k < size then
        (s.storePending (p.signal - 1) ⟨k, lt⟩ (p.info ⟨k, lt⟩)).goto p rest (.write (k + 1))
      else s.goto p rest .merge
    | .merge =>
      ((s.raise p.signal).log (.posted p.signal p.info (s.pending p.signal))).goto p rest .wake
    -- the futex semaphore and the wake pipe do not touch the queues
    | .wake => { s with handlers := rest }

/-- One step of the take in progress. -/
def stepTake (s : Thread size) : Thread size :=
  match s.take with
  | .idle => s
  | .load r => { s with take := .choose r (s.pendingSignals 0) }
  | .choose r old =>
    if old &&& ~~~ s.signalMask 0 = 0 then { s with take := .scan r firstRealtimeSignal }
    else { s with take := .copy r old ((old &&& ~~~ s.signalMask 0).ctz.toNat + 1) 0 fun _ => 0 }
  | .copy r old n k selected =>
    if lt : k < size then
      let selected := Function.update selected ⟨k, lt⟩ (s.pendingInformation (n - 1) ⟨k, lt⟩)
      { s with take := .copy r old n (k + 1) selected }
    else { s with take := .swap r old n selected }
  | .swap r old n selected =>
    if s.pendingSignals 0 = old then
      { s.clear old n with take := .give r n selected (s.pendingInformation (n - 1)) }
    else { s with take := .load r }
  | .scan r n =>
    if lastRealtimeSignal < n then
      { s with take := .idle }.log (.nothing r
        ⟨if r.information then some fun _ => 0 else none,
          if r.hasInformation then some false else none⟩)
    else if s.masked n then { s with take := .scan r (n + 1) }
    else { s with take := .head r n }
  | .head r n => { s with take := .tail r n (s.realtimeHead (index n)) }
  | .tail r n head =>
    if head = s.realtimeTail (index n) then { s with take := .scan r (n + 1) }
    else { s with take := .read r n head 0 fun _ => 0 }
  | .read r n head k selected =>
    if lt : r.information ∧ k < size then
      let word := s.realtimeInformation (index n) (slotOf head) ⟨k, lt.2⟩
      { s with take := .read r n head (k + 1) (Function.update selected ⟨k, lt.2⟩ word) }
    else { s with take := .advance r n head selected }
  | .advance r n head selected =>
    { s.storeHead (index n) (wrap (head + 1)) with
      take := .give r n selected (s.realtimeInformation (index n) (slotOf head)) }
  | .give r n selected taken =>
    { s with take := .idle }.log (.returned r n
      ⟨if r.information then some selected else none,
        if r.hasInformation then some true else none⟩ taken (s.masked n))

/-- A signal may arrive at any time but inside a handler of the same number; the
mask is changed only between calls. -/
inductive Step : Thread size → Thread size → Prop
  | signal (s : Thread size) (n : Nat) (information : Option (Siginfo size))
      (other : ∀ p ∈ s.handlers, p.signal ≠ n) :
      Step s { s with handlers := ⟨n, information, .start⟩ :: s.handlers }
  | handler (s : Thread size) : Step s (stepHandler s)
  | call (s : Thread size) (r : Request) (idle : s.take = .idle) (free : s.handlers = []) :
      Step s { s with take := .load r }
  | take (s : Thread size) (free : s.handlers = []) : Step s (stepTake s)
  | setMask (s : Thread size) (mask : Nat → BitVec 32) (idle : s.take = .idle)
      (free : s.handlers = []) : Step s { s with signalMask := mask }

inductive Reachable : Thread size → Prop
  | start (mask : Nat → BitVec 32) : Reachable (fresh mask)
  | next {s t : Thread size} : Reachable s → Step s t → Reachable t

end Linuxemu.Pending
