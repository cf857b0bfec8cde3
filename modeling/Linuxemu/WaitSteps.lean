import Linuxemu.Lib.Runs
import Linuxemu.SignalWait

/-! What the steps of a waiting thread have in common: what a handler does to it, and
that the queues stay in order. -/
namespace Linuxemu.Wait
open Signal Pending
variable {size : Nat}
variable {s t : Waiter size} {a : Action size} {written ok : Bool}
variable {rest : List (Post size)} {q : Thread size} {p : Post size} {n : Nat}

theorem guestSignalFromHost_cases {host : Nat} (some : guestSignalFromHost host ≠ 0) :
    (1 ≤ guestSignalFromHost host ∧ guestSignalFromHost host ≤ 47) ∧
      linuxSignalToHost (guestSignalFromHost host) = host := by
  unfold guestSignalFromHost at some ⊢
  by_cases realtime : sigrtmin ≤ host ∧ host ≤ sigrtmax
  · rw [if_pos realtime]
    simp only [sigrtmin, sigrtmax] at realtime ⊢
    refine ⟨by omega, ?_⟩
    rw [linuxSignalToHost_realtime (by omega)]
    omega
  · rw [if_neg realtime] at some ⊢
    cases found : (List.range' 1 31).find? (linuxSignalToHost · == host) with
    | none => simp [found] at some
    | some n =>
      have same := List.find?_some found
      have range := List.mem_of_find?_eq_some found
      rw [List.mem_range'_1] at range
      exact ⟨by simp only [Option.getD_some]; omega, by simpa using same⟩

/-! ## Handlers -/

/-- A handler that has not come to its end stays on top. -/
theorem stepHandler_stays {s : Thread size} (top : s.handlers = p :: rest)
    (valid : 1 ≤ p.signal ∧ p.signal ≤ 64) (on : p.stage ≠ .wake) :
    ∃ stage, (stepHandler s).handlers = { p with stage := stage } :: rest := by
  unfold stepHandler
  simp only [top]
  cases stage : p.stage with
  | start =>
    simp only
    rw [if_pos (by omega)]
    split <;> exact ⟨_, rfl⟩
  | tailRead => simp only; split <;> exact ⟨_, rfl⟩
  | fill => simp only; split <;> exact ⟨_, rfl⟩
  | publish => exact ⟨_, rfl⟩
  | wordRead => simp only; split <;> exact ⟨_, rfl⟩
  | write => simp only; split <;> exact ⟨_, rfl⟩
  | merge => exact ⟨_, rfl⟩
  | wake => exact absurd stage on

theorem stepHandler_wake {s : Thread size} (top : s.handlers = p :: rest) (last : p.stage = .wake) :
    stepHandler s = { s with handlers := rest } := by
  unfold stepHandler
  simp only [top, last]

/-- What one step of a handler does to the thread it runs on. -/
inductive Handled (s t : Waiter size) : Prop
  | on (p : Post size) (rest : List (Post size)) (stage : Pending.Stage)
      (top : s.queue.handlers = p :: rest)
      (after : (stepHandler s.queue).handlers = { p with stage := stage } :: rest)
      (same : t = { s with queue := stepHandler s.queue })
  | woke (p : Post size) (rest : List (Post size)) (pipe : Option Nat) (semaphore : Nat)
      (interrupted : Bool) (top : s.queue.handlers = p :: rest) (last : p.stage = .wake)
      (same : t = { s with
        queue := { s.queue with handlers := rest }
        pipe := pipe
        semaphore := semaphore
        futexInterrupted := interrupted })
      (unwritten : s.writeFd = false → pipe = s.pipe)
      (written : s.writeFd = true → ∃ unread, pipe = some (unread + 1))
      (posted : s.futexSemaphore = true → 0 < semaphore)

theorem write_cases (h : s.write written = some t) :
    ∃ unread, t = { s with pipe := some (unread + 1) } := by
  unfold Waiter.write at h
  split at h
  · cases h
  · rename_i unread held
    split at h
    · cases h
      exact ⟨unread, rfl⟩
    · split at h
      · rename_i some
        cases h
        refine ⟨unread - 1, ?_⟩
        rw [show unread - 1 + 1 = unread by omega, ← held]
      · cases h

theorem wakeUp_cases (h : s.wakeUp written = some t) :
    ∃ pipe semaphore interrupted,
      t = { s with pipe := pipe, semaphore := semaphore, futexInterrupted := interrupted } ∧
      (s.writeFd = false → pipe = s.pipe) ∧
      (s.writeFd = true → ∃ unread, pipe = some (unread + 1)) ∧
      (s.futexSemaphore = true → 0 < semaphore) := by
  have futex : ∃ semaphore interrupted, (if s.futexSemaphore then
      { s with futexInterrupted := true, semaphore := s.semaphore + 1 } else s) =
        { s with semaphore := semaphore, futexInterrupted := interrupted } ∧
      (s.futexSemaphore = true → 0 < semaphore) := by
    by_cases published : s.futexSemaphore = true
    · exact ⟨s.semaphore + 1, true, if_pos published, fun _ => Nat.succ_pos _⟩
    · exact ⟨s.semaphore, s.futexInterrupted, if_neg published, fun h => absurd h published⟩
  obtain ⟨semaphore, interrupted, same, posted⟩ := futex
  simp only [Waiter.wakeUp, same] at h
  by_cases published : s.writeFd = true
  · rw [if_pos published] at h
    obtain ⟨unread, rfl⟩ := write_cases h
    exact ⟨some (unread + 1), semaphore, interrupted, rfl, by simp [published], fun _ => ⟨unread, rfl⟩,
      posted⟩
  · rw [if_neg published] at h
    cases h
    exact ⟨s.pipe, semaphore, interrupted, rfl, fun _ => rfl, fun h => absurd h published, posted⟩

theorem handlerStep_cases (valid : ∀ p ∈ s.queue.handlers, 1 ≤ p.signal ∧ p.signal ≤ 47)
    (h : s.handlerStep written = some t) : Handled s t := by
  unfold Waiter.handlerStep at h
  split at h
  · cases h
  · rename_i p rest top
    have number := valid p (by rw [top]; exact List.mem_cons_self)
    split at h
    · rename_i last
      obtain ⟨u, woken, rfl⟩ := Option.map_eq_some_iff.mp h
      obtain ⟨pipe, semaphore, interrupted, rfl, unwritten, written, posted⟩ := wakeUp_cases woken
      exact .woke p rest pipe semaphore interrupted top last (by rw [stepHandler_wake top last])
        unwritten written posted
    · rename_i on
      cases h
      obtain ⟨stage, after⟩ := stepHandler_stays top (by omega) on
      exact .on p rest stage top after rfl

/-- A step by what takes it. -/
inductive Stepped (s t : Waiter size) : Action size → Prop
  | signal (host : Nat) (information : Option (Pending.Siginfo size))
      (mapped : guestSignalFromHost host ≠ 0) (number : host ≠ 0) (ill : host ≠ sigill)
      (segv : host ≠ sigsegv)
      (same : t = (s.post (guestSignalFromHost host) information).goto s.stage.caught) :
      Stepped s t (.signal host information)
  | handler (written : Bool) (handled : Handled s t) : Stepped s t (.handler written)
  | setActions (actions : Nat → SigAction) (same : t = { s with actions := actions }) :
      Stepped s t (.setActions actions)
  | wake (same : t = { s with semaphore := s.semaphore + 1 }) : Stepped s t .wake
  | main (a : Action size) (free : s.queue.handlers = []) (main : s.mainStep a = some t) :
      Stepped s t a

theorem next_cases (valid : ∀ p ∈ s.queue.handlers, 1 ≤ p.signal ∧ p.signal ≤ 47)
    (h : s.next a = some t) :
    Stepped s t a := by
  unfold Waiter.next at h
  split at h
  · rename_i host information
    split at h
    · cases h
    · rename_i usual
      simp only [not_or] at usual
      cases h
      obtain ⟨mapped, number, ill, segv⟩ := usual
      exact .signal host information mapped number ill segv rfl
  · exact .handler _ (handlerStep_cases valid h)
  · cases h
    exact .setActions _ rfl
  · cases h
    exact .wake rfl
  · split at h
    · rename_i free
      exact .main _ (List.isEmpty_iff.mp free) h
    · cases h

/-! ## The thread's own steps -/

/-- A step of the thread's own code, by the stage it is in. -/
inductive Proceeds (s : Waiter size) : Waiter size → Prop
  | guest (stage : s.stage = .guest) : Proceeds s { s with before := none, stage := .entered }
  | openPipe (stage : s.stage = .openPipe) :
      Proceeds s { s with pipe := some 0, stage := .publishRead }
  | noPipe (stage : s.stage = .openPipe) : Proceeds s (s.goto .leave)
  | publishRead (stage : s.stage = .publishRead) :
      Proceeds s { s with readFd := true, stage := .publishWrite }
  | publishWrite (stage : s.stage = .publishWrite) :
      Proceeds s { s with writeFd := true, stage := .blockHost }
  | blockHost (stage : s.stage = .blockHost) : Proceeds s { s with
      oldHost := s.hostMask, hostMask := linuxSetToHost s.words, stage := .setGuest }
  | notBlocked (stage : s.stage = .blockHost) : Proceeds s (s.goto (.endWrite false))
  | setGuest (stage : s.stage = .setGuest) : Proceeds s ((s.setMask s.words.stripped).goto .arm)
  | noneSeen (stage : s.stage = .arm)
      (none : s.queue.pendingSignals 0 &&& ~~~ s.queue.signalMask 0 = 0) :
      Proceeds s (s.goto (.armScan firstRealtimeSignal))
  | seen (stage : s.stage = .arm)
      (some : ¬ s.queue.pendingSignals 0 &&& ~~~ s.queue.signalMask 0 = 0) (unread : Nat) :
      Proceeds s ({ s with pipe := .some (unread + 1) }.goto (.poll false))
  | scanned (n : Nat) (stage : s.stage = .armScan n) (past : lastRealtimeSignal < n) :
      Proceeds s (s.goto (.poll false))
  | queued (n : Nat) (stage : s.stage = .armScan n) (small : ¬ lastRealtimeSignal < n)
      (some : s.queue.masked n = false ∧
        s.queue.realtimeHead (index n) ≠ s.queue.realtimeTail (index n)) (unread : Nat) :
      Proceeds s ({ s with pipe := .some (unread + 1) }.goto (.poll false))
  | skipped (n : Nat) (stage : s.stage = .armScan n) (small : ¬ lastRealtimeSignal < n)
      (skip : ¬ (s.queue.masked n = false ∧
        s.queue.realtimeHead (index n) ≠ s.queue.realtimeTail (index n))) :
      Proceeds s (s.goto (.armScan (n + 1)))
  | interrupted (stage : s.stage = .polled true) :
      Proceeds s ((s.suspendRestore s.oldWords).goto .unblockHost)
  | ready (stage : s.stage = .polled false) :
      Proceeds s ({ s with suspendRestoreValid := false }.setMask s.oldWords |>.goto .unblockHost)
  | unblockHost (stage : s.stage = .unblockHost) :
      Proceeds s { s with hostMask := s.oldHost, stage := .endWrite true }
  | endWrite (waited : Bool) (stage : s.stage = .endWrite waited) :
      Proceeds s { s with writeFd := false, stage := .endRead }
  | endRead (stage : s.stage = .endRead) : Proceeds s { s with readFd := false, stage := .close }
  | close (stage : s.stage = .close) : Proceeds s { s with pipe := none, stage := .leave }
  | suspendSet (stage : s.stage = .suspendSet) :
      Proceeds s ((s.setMask s.words.stripped).goto .suspend)
  | suspend (stage : s.stage = .suspend) : Proceeds s { s with
      oldHost := s.hostMask, hostMask := linuxSetToHost s.words.stripped, stage := .suspended false }
  | suspendEnded (stage : s.stage = .suspendDone (some .eintr)) :
      Proceeds s ((s.suspendRestore s.oldWords).goto .leave)
  | suspendFailed (errno : Option Errno) (stage : s.stage = .suspendDone errno)
      (other : errno ≠ some .eintr) :
      Proceeds s ((s.setMask s.oldWords).goto .leave)
  | futexWait (stage : s.stage = .futexWait) :
      Proceeds s { s with semaphore := 0, stage := .futexReset }
  | futexRefused (stage : s.stage = .futexWait) : Proceeds s (s.goto .leave)
  | futexReset (stage : s.stage = .futexReset) :
      Proceeds s { s with futexInterrupted := false, stage := .futexPublish }
  | futexPublish (stage : s.stage = .futexPublish) :
      Proceeds s { s with futexSemaphore := true, stage := .futexUnlock }
  | futexUnlock (stage : s.stage = .futexUnlock) : Proceeds s (s.goto .futexSleep)
  | futexWoken (stage : s.stage = .futexSleep) (some : 0 < s.semaphore) :
      Proceeds s { s with semaphore := s.semaphore - 1, stage := .futexUnpublish }
  | futexGivenUp (stage : s.stage = .futexSleep) : Proceeds s (s.goto .futexUnpublish)
  | futexUnpublish (stage : s.stage = .futexUnpublish) :
      Proceeds s { s with futexSemaphore := false, stage := .futexEnd }
  | futexEnd (stage : s.stage = .futexEnd) :
      Proceeds s { s with futexInterrupted := false, stage := .leave }
  | leave (stage : s.stage = .leave) : Proceeds s (s.goto .take)
  | take (stage : s.stage = .take) : Proceeds s
      { s with queue := { s.queue with take := .load ⟨true, true⟩ }, stage := .taking }
  | given (r : Request) (n : Nat) (selected taken : Pending.Siginfo size)
      (stage : s.stage = .taking) (taking : s.queue.take = .give r n selected taken) :
      Proceeds s (Waiter.goto { s with queue := stepTake s.queue } (.chosen (some n)))
  | nothing (r : Request) (n : Nat) (stage : s.stage = .taking)
      (taking : s.queue.take = .scan r n) (past : lastRealtimeSignal < n) :
      Proceeds s (Waiter.goto { s with queue := stepTake s.queue } (.chosen none))
  | taking (stage : s.stage = .taking)
      (on : ∀ r n selected taken, s.queue.take ≠ .give r n selected taken) :
      Proceeds s (Waiter.goto { s with queue := stepTake s.queue } .taking)
  | chosen (stage : s.stage = .chosen none) : Proceeds s (s.goto (.returned none))
  | returned (frame : Option SignalSet) (stage : s.stage = .returned frame) :
      Proceeds s (s.goto .guest)

theorem armed_cases (h : s.proceed ok = some t)
    (stage : s.stage = .arm ∨ ∃ n, s.stage = .armScan n) : Proceeds s t := by
  obtain stage | ⟨n, stage⟩ := stage
  · simp only [Waiter.proceed, stage] at h
    split at h
    · rename_i none
      cases h
      exact .noneSeen stage none
    · rename_i some
      obtain ⟨u, written, rfl⟩ := Option.map_eq_some_iff.mp h
      obtain ⟨unread, rfl⟩ := write_cases written
      exact .seen stage some unread
  · simp only [Waiter.proceed, stage] at h
    split at h
    · rename_i past
      cases h
      exact .scanned n stage past
    · rename_i small
      split at h
      · rename_i some
        obtain ⟨u, written, rfl⟩ := Option.map_eq_some_iff.mp h
        obtain ⟨unread, rfl⟩ := write_cases written
        exact .queued n stage small some unread
      · rename_i skip
        cases h
        exact .skipped n stage small skip

theorem taking_cases (h : s.proceed ok = some t) (stage : s.stage = .taking) : Proceeds s t := by
  simp only [Waiter.proceed, stage] at h
  cases taking : s.queue.take with
  | give r n selected taken =>
    simp only [taking] at h
    cases h
    exact .given r n selected taken stage taking
  | scan r n =>
    simp only [taking] at h
    split at h
    · rename_i past
      cases h
      exact .nothing r n stage taking past
    · cases h
      exact .taking stage (by simp [taking])
  | idle | load | choose | copy | swap | head | tail | read | advance =>
    simp only [taking] at h
    cases h
    exact .taking stage (by simp [taking])

theorem proceed_cases (h : s.proceed ok = some t) :
    Proceeds s t := by
  cases stage : s.stage with
  | arm => exact armed_cases h (.inl stage)
  | armScan n => exact armed_cases h (.inr ⟨n, stage⟩)
  | taking => exact taking_cases h stage
  | openPipe =>
    simp only [Waiter.proceed, stage] at h
    split at h <;> cases h
    · exact .openPipe stage
    · exact .noPipe stage
  | blockHost =>
    simp only [Waiter.proceed, stage] at h
    split at h <;> cases h
    · exact .blockHost stage
    · exact .notBlocked stage
  | futexWait =>
    simp only [Waiter.proceed, stage] at h
    split at h <;> cases h
    · exact .futexWait stage
    · exact .futexRefused stage
  | suspendDone errno =>
    simp only [Waiter.proceed, stage] at h
    split at h <;> cases h
    · rename_i interrupted
      exact .suspendEnded (interrupted ▸ stage)
    · rename_i other
      exact .suspendFailed errno stage other
  | polled interrupted =>
    cases interrupted <;> simp only [Waiter.proceed, stage] at h <;> cases h
    · exact .ready stage
    · exact .interrupted stage
  | futexSleep =>
    simp only [Waiter.proceed, stage] at h
    split at h
    · split at h
      · rename_i some
        cases h
        exact .futexWoken stage some
      · cases h
    · cases h
      exact .futexGivenUp stage
  | chosen signal =>
    cases signal <;> simp only [Waiter.proceed, stage] at h <;> cases h
    exact .chosen stage
  | entered | poll | suspended =>
    simp only [Waiter.proceed, stage] at h
    cases h
  | guest =>
    simp only [Waiter.proceed, stage] at h
    cases h
    exact .guest stage
  | publishRead =>
    simp only [Waiter.proceed, stage] at h
    cases h
    exact .publishRead stage
  | publishWrite =>
    simp only [Waiter.proceed, stage] at h
    cases h
    exact .publishWrite stage
  | setGuest =>
    simp only [Waiter.proceed, stage] at h
    cases h
    exact .setGuest stage
  | unblockHost =>
    simp only [Waiter.proceed, stage] at h
    cases h
    exact .unblockHost stage
  | endWrite waited =>
    simp only [Waiter.proceed, stage] at h
    cases h
    exact .endWrite waited stage
  | endRead =>
    simp only [Waiter.proceed, stage] at h
    cases h
    exact .endRead stage
  | close =>
    simp only [Waiter.proceed, stage] at h
    cases h
    exact .close stage
  | suspendSet =>
    simp only [Waiter.proceed, stage] at h
    cases h
    exact .suspendSet stage
  | suspend =>
    simp only [Waiter.proceed, stage] at h
    cases h
    exact .suspend stage
  | futexReset =>
    simp only [Waiter.proceed, stage] at h
    cases h
    exact .futexReset stage
  | futexPublish =>
    simp only [Waiter.proceed, stage] at h
    cases h
    exact .futexPublish stage
  | futexUnlock =>
    simp only [Waiter.proceed, stage] at h
    cases h
    exact .futexUnlock stage
  | futexUnpublish =>
    simp only [Waiter.proceed, stage] at h
    cases h
    exact .futexUnpublish stage
  | futexEnd =>
    simp only [Waiter.proceed, stage] at h
    cases h
    exact .futexEnd stage
  | leave =>
    simp only [Waiter.proceed, stage] at h
    cases h
    exact .leave stage
  | take =>
    simp only [Waiter.proceed, stage] at h
    cases h
    exact .take stage
  | returned frame =>
    simp only [Waiter.proceed, stage] at h
    cases h
    exact .returned frame stage

/-- A step outside handlers, by what takes it. -/
inductive Moved (s : Waiter size) : Action size → Waiter size → Prop
  | guest (mask : SignalSet) (delivered : Bool) (stage : s.stage = .guest) :
      Moved s (.guest mask delivered)
        { s.setMask mask with suspendRestoreValid := s.suspendRestoreValid && !delivered }
  | call (c : Call) (stage : s.stage = .entered) : Moved s (.call c) (s.begin c)
  | proceed (ok : Bool) {t : Waiter size} (on : Proceeds s t) : Moved s (.proceed ok) t
  | pollReturn (caught interrupted : Bool) (stage : s.stage = .poll caught) :
      Moved s (.pollReturn interrupted) (s.goto (.polled interrupted))
  | suspendReturn (caught : Bool) (errno : Option Errno) (stage : s.stage = .suspended caught) :
      Moved s (.suspendReturn errno) { s with hostMask := s.oldHost, stage := .suspendDone errno }
  | deliver (n : Nat) (code : Trampolines) (context : Context) (altstack : UInt32 × UInt32)
      (memory : Lib.Memory) (info : Option Signal.Siginfo) (stage : s.stage = .chosen (some n)) :
      Moved s (.deliver code context altstack memory info)
        (s.deliver n code context altstack memory info)

theorem main_cases (h : s.mainStep a = some t) :
    Moved s a t := by
  cases a with
  | proceed ok => exact .proceed ok (proceed_cases h)
  | signal | handler | setActions | wake => cases h
  | guest mask delivered =>
    simp only [Waiter.mainStep] at h
    split at h
    · rename_i stage
      cases h
      exact .guest mask delivered stage
    · cases h
  | call c =>
    simp only [Waiter.mainStep] at h
    split at h
    · rename_i stage
      cases h
      exact .call c stage
    · cases h
  | pollReturn interrupted =>
    simp only [Waiter.mainStep] at h
    split at h
    · rename_i caught stage
      cases h
      exact .pollReturn caught interrupted stage
    · cases h
  | suspendReturn errno =>
    simp only [Waiter.mainStep] at h
    split at h
    · rename_i caught stage
      cases h
      exact .suspendReturn caught errno stage
    · cases h
  | deliver code context altstack memory info =>
    simp only [Waiter.mainStep] at h
    split at h
    · rename_i n stage
      cases h
      exact .deliver n code context altstack memory info stage
    · cases h

/-! ## The queues -/

theorem stepTake_handlers (q : Thread size) : (stepTake q).handlers = q.handlers := by
  unfold stepTake
  repeat' split
  all_goals rfl

/-- The queues are in order, and only `guest_signal_deliver_pending` takes from them. -/
structure Base (s : Waiter size) : Prop where
  queue : QueueOk s.queue
  signals : ∀ p ∈ s.queue.handlers, 1 ≤ p.signal ∧ p.signal ≤ 47
  idle : s.stage ≠ .taking → s.queue.take = .idle
  chosen : ∀ n, s.stage = .chosen (some n) → (1 ≤ n ∧ n ≤ 47) ∧ s.queue.masked n = false

/-- Stages in which no take is in progress and no signal taken. -/
def Stage.plain : Stage → Bool
  | .taking | .chosen (some _) => false
  | _ => true

theorem QueueOk.setMask (ok : QueueOk q) (idle : q.take = .idle) (words : Nat → BitVec 32) :
    QueueOk { q with signalMask := words } := by
  refine ⟨ok.bits, ok.head, ok.tail, ok.few, fun p member => ok.posts p member, ?_⟩
  simp only [TakeHolds, idle]

theorem QueueOk.post (ok : QueueOk q) (signal : Nat) (information : Option (Pending.Siginfo size)) :
    QueueOk { q with handlers := ⟨signal, information, .start⟩ :: q.handlers } := by
  refine ⟨ok.bits, ok.head, ok.tail, ok.few, fun p member => ?_, ok.take⟩
  rcases List.mem_cons.mp member with rfl | member
  · trivial
  · exact ok.posts p member

theorem mask_has (s : Waiter size) (le : n ≤ 64) : s.mask.has n = s.queue.masked n := by
  unfold SignalSet.has Thread.masked
  rcases SignalSet.signalWord_le le with word | word <;> rw [word] <;> rfl

namespace Base
variable {s t : Waiter size}

section
variable (base : Base s)
include base

theorem plain (before : s.stage ≠ .taking) (queue : t.queue = s.queue)
    (after : t.stage.plain = true) : Base t := by
  refine ⟨queue ▸ base.queue, queue ▸ base.signals, fun _ => queue ▸ base.idle before, ?_⟩
  intro n chosen
  rw [chosen] at after
  cases after

theorem setMask (before : s.stage ≠ .taking) (words : SignalSet)
    (queue : t.queue = { s.queue with signalMask := words.word }) (after : t.stage.plain = true) :
    Base t := by
  have idle := base.idle before
  refine ⟨queue ▸ QueueOk.setMask base.queue idle words.word, queue ▸ base.signals,
    fun _ => queue ▸ idle, ?_⟩
  intro n chosen
  rw [chosen] at after
  cases after

theorem handled (h : Handled s t) : Base t := by
  obtain ⟨ok, grows⟩ := stepHandler_queue base.queue base.signals
  have masked (n : Nat) : (stepHandler s.queue).masked n = s.queue.masked n := by
    unfold Thread.masked
    rw [grows.mask]
  cases h with
  | on p rest stage top after same =>
    subst same
    refine ⟨ok, ?_, fun plain => grows.take.trans (base.idle plain), fun n chosen => ?_⟩
    · intro q member
      rw [after] at member
      rcases List.mem_cons.mp member with rfl | member
      · exact base.signals p (by rw [top]; exact List.mem_cons_self)
      · exact base.signals q (by rw [top]; exact List.mem_cons_of_mem p member)
    · rw [masked]
      exact base.chosen n chosen
  | woke p rest pipe semaphore interrupted top last same =>
    rw [stepHandler_wake top last] at ok
    subst same
    refine ⟨ok, fun q member => ?_, base.idle, base.chosen⟩
    exact base.signals q (by rw [top]; exact List.mem_cons_of_mem p member)

theorem posted {signal : Nat} (valid : 1 ≤ signal ∧ signal ≤ 47)
    (information : Option (Pending.Siginfo size)) : Base (s.post signal information) := by
  refine ⟨QueueOk.post base.queue signal information, fun p member => ?_, base.idle, base.chosen⟩
  rcases List.mem_cons.mp member with rfl | member
  · exact valid
  · exact base.signals p member

theorem goto_caught : Base (s.goto s.stage.caught) := by
  refine ⟨base.queue, base.signals, fun other => base.idle ?_, fun n chosen => base.chosen n ?_⟩
  · intro same
    exact other (by rw [Waiter.goto, same]; rfl)
  · have here : s.stage.caught = .chosen (some n) := chosen
    cases stage : s.stage <;> rw [stage] at here <;> simp_all [Stage.caught]

theorem loaded (stage : s.stage = .take) :
    Base { s with queue := { s.queue with take := .load ⟨true, true⟩ }, stage := .taking } := by
  have idle := base.idle (by simp [stage])
  refine ⟨base.queue.walked trivial, base.signals, fun other => absurd rfl other, ?_⟩
  intro n chosen
  cases chosen

theorem proceeded (free : s.queue.handlers = []) (h : Proceeds s t) : Base t := by
  have queue := stepTake_queue base.queue free
  have signals : ∀ p ∈ (stepTake s.queue).handlers, 1 ≤ p.signal ∧ p.signal ≤ 47 := by
    intro p member
    rw [stepTake_handlers, free] at member
    cases member
  cases h with
  | given r n selected taken stage taking =>
    have take := base.queue.take
    simp only [TakeHolds, taking] at take
    refine ⟨queue, signals, fun _ => ?_, fun m chosen => ?_⟩
    · simp only [Waiter.goto, stepTake, taking, Thread.log]
    · cases chosen
      refine ⟨take.1, ?_⟩
      simp only [Waiter.goto, stepTake, taking]
      exact take.2
  | nothing r n stage taking past =>
    refine ⟨queue, signals, fun _ => ?_, by simp [Waiter.goto]⟩
    simp only [Waiter.goto, stepTake, taking, if_pos past, Thread.log]
  | taking =>
    refine ⟨queue, signals, fun other => absurd rfl other, ?_⟩
    intro n chosen
    cases chosen
  | take stage => exact base.loaded stage
  | setGuest stage | suspendSet stage | ready stage | suspendFailed _ stage =>
    exact base.setMask (by simp [stage]) _ rfl rfl
  | guest stage | openPipe stage | noPipe stage | publishRead stage | publishWrite stage
  | blockHost stage | notBlocked stage | noneSeen stage | seen stage | scanned _ stage
  | queued _ stage | skipped _ stage | interrupted stage | unblockHost stage | endWrite _ stage
  | endRead stage | close stage | suspend stage | suspendEnded stage | futexWait stage
  | futexRefused stage | futexReset stage | futexPublish stage | futexUnlock stage
  | futexWoken stage | futexGivenUp stage | futexUnpublish stage | futexEnd stage | leave stage
  | chosen stage | returned _ stage =>
    exact base.plain (by simp [stage]) rfl rfl

/-- What `guest_signal_deliver` does for the signal taken: nothing, or a frame that saves
the mask of `guest_thread_signal_delivery_mask`. -/
theorem delivered (stage : s.stage = .chosen (some n)) (code : Trampolines) (context : Context)
    (altstack : UInt32 × UInt32) (memory : Lib.Memory) (info : Option Signal.Siginfo) :
    ((s.actions n).handler ≤ 1 ∧
      s.deliver n code context altstack memory info = s.goto (.returned none)) ∨
    ∃ mask actions,
      s.deliver n code context altstack memory info = { s.setMask mask with
        suspendRestoreMask := s.suspendRestoreMask
        suspendRestoreValid := false
        actions := actions
        stage := .returned (some (if s.suspendRestoreValid then s.suspendRestoreMask else s.mask)) } := by
  obtain ⟨valid, free⟩ := base.chosen n stage
  have range : ¬ (n = 0 ∨ linuxSignalCount < n) := by
    simp only [linuxSignalCount]
    omega
  have unmasked : ¬ (n ≠ 4 ∧ n ≠ 11 ∧ s.mask.has n = true) := by
    rintro ⟨-, -, masked⟩
    rw [mask_has s (by omega), free] at masked
    cases masked
  by_cases handled : (s.actions n).handler ≤ 1
  · left
    have refused : guestSignalDeliver code (s.state context altstack memory) n info = .refused :=
      deliver_refuses range unmasked handled
    refine ⟨handled, ?_⟩
    rw [Waiter.deliver]
    simp only [refused]
  · right
    have pushed : guestSignalDeliver code (s.state context altstack memory) n info = .pushed _ :=
      deliver_pushes range unmasked handled
    have saved := pushFrame_mask code (s.state context altstack memory) n info
    have delivery : (s.state context altstack memory).thread.deliveryMask.1 =
          (if s.suspendRestoreValid then s.suspendRestoreMask else s.mask) ∧
        (s.state context altstack memory).thread.deliveryMask.2.suspendRestoreMask =
          s.suspendRestoreMask ∧
        (s.state context altstack memory).thread.deliveryMask.2.suspendRestoreValid = false := by
      unfold ThreadSignals.deliveryMask
      cases valid : s.suspendRestoreValid <;> simp [Waiter.state, valid]
    obtain ⟨first, parked, valid⟩ := delivery
    refine ⟨(pushFrame code (s.state context altstack memory) n info).thread.signalMask,
      (pushFrame code (s.state context altstack memory) n info).actions, ?_⟩
    rw [Waiter.deliver]
    simp only [pushed]
    congr 1
    congr 2
    exact saved.trans first

theorem main (free : s.queue.handlers = []) (h : Moved s a t) : Base t := by
  cases h with
  | guest mask delivered stage =>
    refine base.setMask (by simp [stage]) mask rfl ?_
    show s.stage.plain = true
    rw [stage]
    rfl
  | call c stage =>
    cases c with
    | wait | suspend | refused | futex => exact base.plain (by simp [stage]) rfl rfl
    | other mask => exact base.setMask (by simp [stage]) mask rfl rfl
  | proceed ok on => exact base.proceeded free on
  | pollReturn _ _ stage | suspendReturn _ _ stage => exact base.plain (by simp [stage]) rfl rfl
  | deliver n code context altstack memory info stage =>
    rcases base.delivered stage code context altstack memory info with ⟨-, same⟩ | ⟨mask, _, same⟩
    · rw [same]
      exact base.plain (by simp [stage]) rfl rfl
    · rw [same]
      exact base.setMask (by simp [stage]) mask rfl rfl

theorem stepped (h : Stepped s t a) : Base t := by
  cases h with
  | signal host information mapped number ill segv same =>
    subst same
    exact (base.posted (guestSignalFromHost_cases mapped).1 information).goto_caught
  | handler written handled => exact base.handled handled
  | setActions actions same =>
    subst same
    exact ⟨base.queue, base.signals, base.idle, base.chosen⟩
  | wake same =>
    subst same
    exact ⟨base.queue, base.signals, base.idle, base.chosen⟩
  | main _ free main => exact base.main free (main_cases main)

end

theorem start {s : Waiter size} (h : s.Start) : Base s := by
  obtain ⟨mask, queue⟩ := h.queue
  refine ⟨?_, ?_, ?_, ?_⟩
  · rw [queue]
    refine ⟨⟨rfl, by simp [fresh]⟩, fun _ => ?_, fun _ => ?_, fun _ => ?_, by simp [fresh], trivial⟩
    · simp [fresh, InRange]
    · simp [fresh, InRange]
    · simp [fresh, waiting]
  · simp [queue, fresh]
  · simp [queue, fresh]
  · simp [h.stage]

end Base

/-! ## Runs on given steps -/

/-- The state after the steps, if each can be taken and may be. -/
def Waiter.follow (may : Waiter size → Action size → Prop) [∀ s a, Decidable (may s a)]
    (s : Waiter size) : List (Action size) → Option (Waiter size)
  | [] => some s
  | a :: rest => if may s a then (s.next a).bind fun t => t.follow may rest else none

theorem follow_run {may : Waiter size → Action size → Prop} [∀ s a, Decidable (may s a)]
    {start : Waiter size → Prop} {steps : List (Action size)} (run : Lib.Run Step may start s)
    (h : s.follow may steps = some t) :
    Lib.Run Step may start t := by
  induction steps generalizing s with
  | nil =>
    cases h
    exact run
  | cons a rest ih =>
    rw [Waiter.follow] at h
    split at h
    · rename_i met
      obtain ⟨u, step, rest⟩ := Option.bind_eq_some_iff.mp h
      exact ih (run.next met step) rest
    · cases h

/-- A thread that has blocked no signal, with a handler for each. -/
def quietThread : Waiter 0 where
  queue := fresh fun _ => 0
  suspendRestoreMask := ⟨0, 0⟩
  suspendRestoreValid := false
  actions _ := ⟨0x8000, 0, 0, ⟨0, 0⟩⟩
  hostMask _ := false
  pipe := none
  readFd := false
  writeFd := false
  semaphore := 0
  futexSemaphore := false
  futexInterrupted := false
  words := ⟨0, 0⟩
  oldWords := ⟨0, 0⟩
  oldHost _ := false
  before := none
  stage := .guest

theorem quietThread_start : quietThread.Start :=
  ⟨⟨_, rfl⟩, rfl, ⟨rfl, rfl, rfl⟩, rfl, rfl⟩

/-- The handler of Linux signal 10 from its start to its end. -/
def handleUser : List (Action 0) := .signal 16 none :: List.replicate 5 (.handler true)

end Linuxemu.Wait
