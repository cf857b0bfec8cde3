import Linuxemu.Lib.Runs
import Linuxemu.SignalFrames
import Linuxemu.SignalSets

/-! The signal masks of a whole process: every thread, every call that sets an action
or a mask, deliveries and returns, `clone` and `fork`. -/
namespace Linuxemu.Signal
open Lib
variable {info : Option Siginfo} {after s : State}

/-! ## The calls -/

/-- `guest_signal_action` on the table of actions; `action` is `none` for a null pointer. -/
def guestSignalAction (actions : Nat → SigAction) (linuxSignal : Nat) (action : Option SigAction)
    (signalSetSize : Nat) : Nat → SigAction :=
  if signalSetSize ≠ 8 ∨ linuxSignal = 0 ∨ linuxSignalCount < linuxSignal ∨
    linuxSignalToHost linuxSignal = 0 then actions
  else match action with
    | none => actions
    | some action =>
      if linuxSignal = 9 ∨ linuxSignal = 19 then actions
      else Function.update actions linuxSignal action

/-- `guest_signal_mask`; `changed` is that `pthread_sigmask` succeeds. -/
def guestSignalMask (t : ThreadSignals) (how : Int) (set : Option SignalSet) (signalSetSize : Nat)
    (changed : Bool) : ThreadSignals :=
  if signalSetSize ≠ 8 ∨ how < 0 ∨ 2 < how then t
  else match set with
    | none => t
    | some set =>
      let words := set.stripped
      if changed = false then t
      else if how = 0 then t.setMask (t.signalMask.union words)
      else if how = 1 then t.setMask (t.signalMask.minus words)
      else t.setMask words

/-- The end of `guest_signal_suspend`, by what `sigsuspend` left in `errno`. -/
def suspendEnd (t : ThreadSignals) (oldWords : SignalSet) (errno : Option Errno) : ThreadSignals :=
  if errno = some .eintr then t.suspendRestore oldWords else t.setMask oldWords

/-- `guest_thread_signal_wait_interrupted` and `guest_thread_signal_wait_complete`. -/
def waitEnd (t : ThreadSignals) (oldWords : SignalSet) (interrupted : Bool) : ThreadSignals :=
  if interrupted then t.suspendRestore oldWords
  else { t with suspendRestoreValid := false }.setMask oldWords

/-! ## Processes -/

/-- `waiting` holds the `old_words` of a `rt_sigsuspend`, `ppoll` or `pselect6` that has
set its temporary mask. -/
structure GuestThread where
  context : Context
  signals : ThreadSignals
  waiting : Option SignalSet

structure Process where
  threads : Nat → Option GuestThread
  actions : Nat → SigAction
  memory : Memory

def Process.setThread (p : Process) (t : Nat) (g : GuestThread) : Process :=
  { p with threads := Function.update p.threads t (some g) }

/-- What a delivery or a return on a thread works on. -/
def Process.state (p : Process) (g : GuestThread) : State :=
  ⟨g.context, g.signals, p.actions, p.memory⟩

def Process.put (p : Process) (t : Nat) (s : State) : Process :=
  { threads := Function.update p.threads t (some ⟨s.context, s.thread, none⟩)
    actions := s.actions
    memory := s.memory }

/-- The context of the frame under the stack pointer. -/
def GuestThread.frameContext (g : GuestThread) (realtime : Bool) : Nat :=
  (g.context.gpr 13).toNat + contextOffset realtime

/-- The step taken, where a condition speaks of it. -/
inductive Event where
  | deliver (thread linuxSignal : Nat)
  | signalReturn (thread : Nat) (realtime : Bool)
  | other

/-- One step of a thread that is there. `deliver` is a push from `trap_handler`, from
`host_signal_handler` or from `guest_signal_deliver_pending`. -/
inductive ThreadStep (code : Trampolines) (p : Process) (t : Nat) (g : GuestThread) :
    Event → Process → Prop
  -- the guest's own code and `sigaltstack`; none of it changes a mask
  | guest (gpr : Fin 16 → UInt32) (spsr : UInt32) (vfp : Vfp) (pointer size : UInt32)
      (memory : Memory) : ThreadStep code p t g .other
        { p.setThread t ⟨⟨gpr, spsr, vfp, g.context.sigmask⟩,
            g.signals.setAltstack pointer size, g.waiting⟩ with memory := memory }
  | action (linuxSignal : Nat) (action : Option SigAction) (size : Nat) :
      ThreadStep code p t g .other
        { p with actions := guestSignalAction p.actions linuxSignal action size }
  | mask (how : Int) (set : Option SignalSet) (size : Nat) (changed : Bool)
      (running : g.waiting = none) : ThreadStep code p t g .other
        (p.setThread t { g with signals := guestSignalMask g.signals how set size changed })
  | beginWait (words : SignalSet) (running : g.waiting = none) : ThreadStep code p t g .other
      (p.setThread t { g with
        signals := g.signals.setMask words.stripped
        waiting := some g.signals.signalMask })
  | suspendEnd (old : SignalSet) (errno : Option Errno) (waiting : g.waiting = some old) :
      ThreadStep code p t g .other
        (p.setThread t { g with signals := suspendEnd g.signals old errno, waiting := none })
  | waitEnd (old : SignalSet) (interrupted : Bool) (waiting : g.waiting = some old) :
      ThreadStep code p t g .other
        (p.setThread t { g with signals := waitEnd g.signals old interrupted, waiting := none })
  | deliver (linuxSignal : Nat) (info : Option Siginfo) {after : State}
      (running : g.waiting = none)
      (call : guestSignalDeliver code (p.state g) linuxSignal info = .pushed after) :
      ThreadStep code p t g (.deliver t linuxSignal) (p.put t after)
  | signalReturn (realtime : Bool) {after : State} (running : g.waiting = none)
      (call : guestSignalReturn (p.state g) realtime = some after) :
      ThreadStep code p t g (.signalReturn t realtime) (p.put t after)
  -- a new thread runs with the traps unblocked in whatever mask it was created with
  | clone (u : Nat) (gpr : Fin 16 → UInt32) (spsr : UInt32) (vfp : Vfp) (sigmask : HostSet)
      (running : g.waiting = none) (fresh : p.threads u = none) : ThreadStep code p t g .other
        (p.setThread u ⟨⟨gpr, spsr, vfp, sigdelset (sigdelset sigmask sigill) sigsegv⟩,
          ⟨g.signals.signalMask, ⟨0, 0⟩, false, 0, 0⟩, none⟩)
  -- the child has one thread, the copy of the one that called
  | fork (running : g.waiting = none) : ThreadStep code p t g .other
      { p with threads := Function.update (fun _ => none) t (some ⟨g.context,
          ⟨g.signals.signalMask, ⟨0, 0⟩, false, g.signals.altstackPointer,
            g.signals.altstackSize⟩, none⟩) }
  | exit : ThreadStep code p t g .other { p with threads := Function.update p.threads t none }

inductive Step (code : Trampolines) (p : Process) (e : Event) (q : Process) : Prop
  | thread (t : Nat) (g : GuestThread) (there : p.threads t = some g)
      (step : ThreadStep code p t g e q) : Step code p e q

/-- Every thread has the property. -/
def Process.All (P : GuestThread → Prop) (p : Process) : Prop :=
  ∀ t g, p.threads t = some g → P g

variable {code : Trampolines} {linuxSignal : Nat} {p q : Process} {g : GuestThread}
  {action : SigAction} {e : Event}

section
variable {P : GuestThread → Prop} {p : Process} {t : Nat}

theorem All.update (all : p.All P) {new : Option GuestThread} (h : ∀ g, new = some g → P g) :
    ∀ u g, Function.update p.threads t new u = some g → P g := by
  intro u g there
  by_cases same : u = t
  · subst same
    rw [Function.update_self] at there
    exact h g there
  · rw [Function.update_of_ne same] at there
    exact all u g there

theorem All.setThread (all : p.All P) (h : P g) : (p.setThread t g).All P :=
  All.update all (by rintro _ ⟨⟩; exact h)

theorem All.of_put (after : (p.put t s).All P) : P ⟨s.context, s.thread, none⟩ :=
  after t ⟨s.context, s.thread, none⟩ (Function.update_self t _ p.threads)

theorem all_put (all : p.All P) :
    (p.put t s).All P ↔ P ⟨s.context, s.thread, none⟩ := by
  constructor
  · exact All.of_put
  · intro h
    exact All.update all (by rintro _ ⟨⟩; exact h)

end

/-! ## The trap signals -/

/-- The thread's code runs with both trap signals deliverable. -/
def TrapsOpen (g : GuestThread) : Prop :=
  g.context.sigmask sigill = false ∧ g.context.sigmask sigsegv = false

/-- A trap signal is delivered only to an action with `SA_NODEFER`. -/
def DefersNoTrap (p : Process) : Event → Prop
  | .deliver _ linuxSignal =>
    linuxSignal = 4 ∨ linuxSignal = 11 → (p.actions linuxSignal).has saNodefer = true
  | .signalReturn _ _ | .other => True

theorem handlerHostMask_trap {sigmask : HostSet} {k : Nat} (trap : k = sigill ∨ k = sigsegv)
    (open' : sigmask k = false) :
    handlerHostMask sigmask linuxSignal action k = false ↔
      (linuxSignalToHost linuxSignal = k → action.has saNodefer = true) := by
  have nonzero : k ≠ 0 := by
    rcases trap with rfl | rfl <;> decide
  have stripped : linuxSetToHost action.mask k = false := by
    rcases trap with rfl | rfl
    · exact linuxSetToHost_sigill _
    · exact linuxSetToHost_sigsegv _
  have merged : mergeHostSets sigmask (linuxSetToHost action.mask) k = false := by
    rw [mergeHostSets_apply, open', stripped, Bool.and_false, Bool.or_false]
  rw [handlerHostMask]
  by_cases added : action.has saNodefer = false ∧ linuxSignalToHost linuxSignal ≠ 0
  · rw [if_pos added, added.1]
    simp only [sigaddset, merged, Bool.or_false, beq_eq_false_iff_ne]
    constructor
    · intro other same
      exact absurd same.symm other
    · intro never same
      exact absurd (never same.symm) (by decide)
  · simp only [if_neg added, merged, true_iff]
    intro same
    by_contra defers
    exact added ⟨by simpa using defers, same ▸ nonzero⟩

/-- From open traps, a step leaves them open exactly when it defers none. -/
theorem step_traps (all : p.All TrapsOpen) (step : Step code p e q) :
    q.All TrapsOpen ↔ DefersNoTrap p e := by
  obtain ⟨t, g, there, step⟩ := step
  have here : TrapsOpen g := all t g there
  cases step with
  | guest | mask | beginWait | suspendEnd | waitEnd => exact iff_of_true (All.setThread all here) trivial
  | action => exact iff_of_true all trivial
  | deliver linuxSignal info running call =>
    obtain ⟨rfl, -, -⟩ := pushed_cases call
    rw [all_put all]
    show (handlerHostMask g.context.sigmask linuxSignal _ sigill = false ∧
      handlerHostMask g.context.sigmask linuxSignal _ sigsegv = false) ↔ _
    rw [handlerHostMask_trap (.inl rfl) here.1, handlerHostMask_trap (.inr rfl) here.2,
      (linuxSignalToHost_trap linuxSignal).1, (linuxSignalToHost_trap linuxSignal).2]
    exact or_imp.symm
  | signalReturn realtime running call =>
    refine iff_of_true ((all_put all).mpr ?_) trivial
    have mask := (return_cases call).2.2.1
    constructor
    · show _ = _
      rw [mask]
      exact linuxSetToHost_sigill _
    · show _ = _
      rw [mask]
      exact linuxSetToHost_sigsegv _
  | clone u gpr spsr vfp sigmask running fresh =>
    refine iff_of_true (All.setThread all ?_) trivial
    constructor <;> simp [sigdelset]
  | fork running =>
    refine iff_of_true ?_ trivial
    intro u h there
    by_cases same : u = t
    · subst same
      simp only [Function.update_self, Option.some.injEq] at there
      exact there ▸ here
    · simp [Function.update_of_ne same] at there
  | exit => exact iff_of_true (All.update all (by simp)) trivial

/-- While every trap signal goes to an action with `SA_NODEFER`, guest code is never
resumed with a trap signal blocked; the first delivery that is none blocks it. -/
theorem traps_stay_open (code : Trampolines) {p : Process}
    (run : Run (Step code) DefersNoTrap (Process.All TrapsOpen) p) :
    p.All TrapsOpen ∧ ∀ e q, Step code p e q → (q.All TrapsOpen ↔ DefersNoTrap p e) := by
  have all : p.All TrapsOpen :=
    run.invariant _ (fun _ start => start) fun _ _ _ all defers step => (step_traps all step).mpr defers
  exact ⟨all, fun _ _ step => step_traps all step⟩

/-- The main thread as `guest_thread_initialize` leaves it. -/
def mainThread : GuestThread := ⟨handlersState.context, ⟨⟨0, 0⟩, ⟨0, 0⟩, false, 0, 0⟩, none⟩

def oneThread : Process where
  threads t := if t = 0 then some mainThread else none
  actions _ := ⟨0, 0, 0, ⟨0, 0⟩⟩
  memory _ := 0

/-- After `rt_sigaction` for one signal. -/
def handling (linuxSignal : Nat) (action : SigAction) : Process :=
  { oneThread with actions := guestSignalAction oneThread.actions linuxSignal (some action) 8 }

/-- And after the delivery of that signal. -/
def delivered (linuxSignal : Nat) (action : SigAction) : Process :=
  let p := handling linuxSignal action
  p.put 0 (pushFrame handlersCode (p.state mainThread) linuxSignal none)

/-- Both are runs of the process. -/
theorem delivered_run {may : Process → Event → Prop} {start : Process → Prop}
    (first : start oneThread) (other : may oneThread .other)
    (met : may (handling linuxSignal action) (.deliver 0 linuxSignal))
    (pushed : guestSignalDeliver handlersCode ((handling linuxSignal action).state mainThread)
      linuxSignal none = .pushed (pushFrame handlersCode
        ((handling linuxSignal action).state mainThread) linuxSignal none)) :
    Run (Step handlersCode) may start (delivered linuxSignal action) := by
  have set : Run (Step handlersCode) may start (handling linuxSignal action) :=
    .next (.start first) other (.thread 0 _ rfl (.action linuxSignal (some action) 8))
  exact .next set met (.thread 0 _ rfl (.deliver linuxSignal none rfl pushed))

theorem oneThread_open : oneThread.All TrapsOpen := by
  intro t g there
  simp only [oneThread] at there
  split at there
  · cases there
    exact ⟨rfl, rfl⟩
  · cases there

/-- A handler for `SIGILL` with `SA_NODEFER` can make system calls. -/
theorem traps_stay_open_nodefer :
    (delivered 4 ⟨0x8000, saNodefer, 0, ⟨0, 0⟩⟩).All TrapsOpen :=
  (traps_stay_open handlersCode (delivered_run oneThread_open trivial (fun _ => by decide +kernel)
    (deliver_pushes (by decide +kernel) (by decide +kernel) (by decide +kernel)))).1

/-- Without the flag its first system call finds `SIGILL` blocked. -/
theorem deferred_trap_blocked :
    Run (Step handlersCode) (fun _ _ => True) (Process.All TrapsOpen)
      (delivered 4 ⟨0x8000, 0, 0, ⟨0, 0⟩⟩) ∧
    ∃ g, (delivered 4 ⟨0x8000, 0, 0, ⟨0, 0⟩⟩).threads 0 = some g ∧
      g.context.sigmask sigill = true := by
  refine ⟨delivered_run oneThread_open trivial trivial
    (deliver_pushes (by decide +kernel) (by decide +kernel) (by decide +kernel)), _, rfl, ?_⟩
  decide +kernel

/-! ## Signals that cannot be blocked -/

/-- The guest mask is without `SIGKILL` and `SIGSTOP`. -/
def MaskClear (g : GuestThread) : Prop := g.signals.signalMask.Clear

/-- No mask from an action or a frame brings `SIGKILL` or `SIGSTOP`. -/
def BringsClear (p : Process) : Event → Prop
  | .deliver _ linuxSignal => (p.actions linuxSignal).mask.Clear
  | .signalReturn t realtime =>
    ∀ g, p.threads t = some g → (frameMask p.memory (g.frameContext realtime)).Clear
  | .other => True

/-- With the masks that a thread may come to set later. -/
structure MasksClear (g : GuestThread) : Prop where
  mask : MaskClear g
  parked : g.signals.suspendRestoreValid = true → g.signals.suspendRestoreMask.Clear
  waiting : ∀ old, g.waiting = some old → old.Clear

/-- `SIGKILL` and `SIGSTOP` have no handler, so neither is ever delivered. -/
structure ProcessClear (p : Process) : Prop where
  threads : p.All MasksClear
  kill : (p.actions 9).handler = 0
  stop : (p.actions 19).handler = 0

theorem deliveryMask_clear (h : MasksClear g) :
    g.signals.deliveryMask.1.Clear ∧ g.signals.deliveryMask.2.suspendRestoreValid = false := by
  rw [ThreadSignals.deliveryMask]
  cases valid : g.signals.suspendRestoreValid with
  | true => exact ⟨h.parked valid, rfl⟩
  | false => exact ⟨h.mask, valid⟩

theorem handlerMask_clear {old : SignalSet} (valid : 1 ≤ linuxSignal ∧ linuxSignal ≤ 64)
    (kill : linuxSignal ≠ 9) (stop : linuxSignal ≠ 19) (clear : old.Clear) :
    (handlerMask old linuxSignal action).Clear ↔ action.mask.Clear := by
  have both : (old.union action.mask).Clear ↔ action.mask.Clear := by
    rw [SignalSet.clear_union]
    exact and_iff_right clear
  rw [handlerMask]
  cases action.has saNodefer with
  | true => exact both
  | false => exact (SignalSet.clear_insert valid kill stop).trans both

theorem guestSignalAction_clear {actions : Nat → SigAction} (linuxSignal : Nat)
    (action : Option SigAction) (size : Nat) {n : Nat} (special : n = 9 ∨ n = 19) :
    guestSignalAction actions linuxSignal action size n = actions n := by
  unfold guestSignalAction
  split
  · rfl
  · split
    · rfl
    · split
      · rfl
      · rename_i other
        apply Function.update_of_ne
        rintro rfl
        exact other special

theorem guestSignalMask_clear {t : ThreadSignals} (how : Int) (set : Option SignalSet) (size : Nat)
    (changed : Bool) (clear : t.signalMask.Clear) :
    (guestSignalMask t how set size changed).signalMask.Clear ∧
      (guestSignalMask t how set size changed).suspendRestoreValid = t.suspendRestoreValid ∧
      (guestSignalMask t how set size changed).suspendRestoreMask = t.suspendRestoreMask := by
  unfold guestSignalMask
  split
  · exact ⟨clear, rfl, rfl⟩
  · split
    · exact ⟨clear, rfl, rfl⟩
    · rename_i set
      have words := set.stripped_clear
      simp only
      split
      · exact ⟨clear, rfl, rfl⟩
      · split
        · exact ⟨SignalSet.clear_union.mpr ⟨clear, words⟩, rfl, rfl⟩
        · split
          · exact ⟨clear.minus _, rfl, rfl⟩
          · exact ⟨words, rfl, rfl⟩

theorem ProcessClear.pushed_other (ok : ProcessClear p)
    (call : guestSignalDeliver code (p.state g) linuxSignal info = .pushed after) :
    linuxSignal ≠ 9 ∧ linuxSignal ≠ 19 := by
  have handled : ¬ (p.actions linuxSignal).handler ≤ 1 := (pushed_cases call).2.2
  constructor
  · rintro rfl
    exact handled (ok.kill ▸ by decide)
  · rintro rfl
    exact handled (ok.stop ▸ by decide)

/-- The mask a delivery sets is clear exactly when that of the action is. -/
theorem pushed_clear (ok : ProcessClear p) (here : MasksClear g)
    (call : guestSignalDeliver code (p.state g) linuxSignal info = .pushed after) :
    after.thread.signalMask.Clear ↔ (p.actions linuxSignal).mask.Clear := by
  obtain ⟨kill, stop⟩ := ok.pushed_other call
  obtain ⟨rfl, valid, -⟩ := pushed_cases call
  exact handlerMask_clear valid kill stop (deliveryMask_clear here).1

/-- A step without masks from elsewhere keeps every mask clear. -/
theorem step_clear (ok : ProcessClear p) (step : Step code p e q) (brings : BringsClear p e) :
    ProcessClear q := by
  obtain ⟨t, g, there, step⟩ := step
  have here : MasksClear g := ok.threads t g there
  cases step with
  | guest => exact ⟨All.setThread ok.threads ⟨here.mask, here.parked, here.waiting⟩, ok.kill, ok.stop⟩
  | action linuxSignal action size =>
    refine ⟨ok.threads, ?_, ?_⟩
    · exact (congrArg _ (guestSignalAction_clear _ _ _ (.inl rfl))).trans ok.kill
    · exact (congrArg _ (guestSignalAction_clear _ _ _ (.inr rfl))).trans ok.stop
  | mask how set size changed running =>
    obtain ⟨clear, valid, parked⟩ := guestSignalMask_clear how set size changed here.mask
    refine ⟨All.setThread ok.threads ⟨clear, ?_, here.waiting⟩, ok.kill, ok.stop⟩
    intro set'
    rw [parked]
    exact here.parked (valid ▸ set')
  | beginWait words running =>
    refine ⟨All.setThread ok.threads ⟨words.stripped_clear, here.parked, ?_⟩, ok.kill, ok.stop⟩
    rintro _ ⟨⟩
    exact here.mask
  | suspendEnd old errno waiting =>
    have old_clear := here.waiting old waiting
    refine ⟨All.setThread ok.threads ?_, ok.kill, ok.stop⟩
    simp only [suspendEnd]
    split
    · exact ⟨here.mask, fun _ => old_clear, by simp⟩
    · exact ⟨old_clear, here.parked, by simp⟩
  | waitEnd old interrupted waiting =>
    have old_clear := here.waiting old waiting
    refine ⟨All.setThread ok.threads ?_, ok.kill, ok.stop⟩
    simp only [waitEnd]
    split
    · exact ⟨here.mask, fun _ => old_clear, by simp⟩
    · exact ⟨old_clear, by simp [ThreadSignals.setMask], by simp⟩
  | deliver linuxSignal info running call =>
    have mask := (pushed_clear ok here call).mpr brings
    obtain ⟨kill, stop⟩ := ok.pushed_other call
    obtain ⟨rfl, -, -⟩ := pushed_cases call
    have actions {n : Nat} (other : n ≠ linuxSignal) :
        (pushFrame code (p.state g) linuxSignal info).actions n = p.actions n := by
      simp only [pushFrame]
      split
      · exact Function.update_of_ne other _ _
      · rfl
    refine ⟨(all_put ok.threads).mpr ⟨?_, ?_, by simp⟩, ?_, ?_⟩
    · exact mask
    · intro set
      exact absurd ((deliveryMask_clear here).2.symm.trans set) (by decide)
    · exact (congrArg _ (actions kill.symm)).trans ok.kill
    · exact (congrArg _ (actions stop.symm)).trans ok.stop
  | signalReturn realtime running call =>
    obtain ⟨-, actions, -, mask, parked, valid⟩ := return_cases call
    refine ⟨(all_put ok.threads).mpr ⟨?_, ?_, by simp⟩, ?_, ?_⟩
    · show SignalSet.Clear _
      rw [mask]
      exact brings g there
    · intro set
      show SignalSet.Clear _
      rw [parked]
      exact here.parked (valid ▸ set)
    · exact (congrArg _ (congrFun actions 9)).trans ok.kill
    · exact (congrArg _ (congrFun actions 19)).trans ok.stop
  | clone =>
    exact ⟨All.setThread ok.threads ⟨here.mask, by simp, by simp⟩, ok.kill, ok.stop⟩
  | fork running =>
    refine ⟨?_, ok.kill, ok.stop⟩
    intro u h there
    by_cases same : u = t
    · subst same
      simp only [Function.update_self, Option.some.injEq] at there
      subst there
      exact ⟨here.mask, by simp, by simp⟩
    · simp [Function.update_of_ne same] at there
  | exit => exact ⟨All.update ok.threads (by simp), ok.kill, ok.stop⟩

/-- A mask that brings one of the two is in force at once. -/
theorem brings_clear (ok : ProcessClear p) (step : Step code p e q) (clear : q.All MaskClear) :
    BringsClear p e := by
  obtain ⟨t, g, there, step⟩ := step
  cases step with
  | guest | action | mask | beginWait | suspendEnd | waitEnd | clone | fork | exit => trivial
  | deliver linuxSignal info running call =>
    exact (pushed_clear ok (ok.threads t g there) call).mp (All.of_put clear)
  | signalReturn realtime running call =>
    obtain ⟨-, -, -, mask, -⟩ := return_cases call
    intro h same
    obtain rfl : g = h := by
      rw [there] at same
      exact Option.some.inj same
    exact mask ▸ (All.of_put clear : MaskClear _)

/-- Threads that have blocked nothing, and no handlers. -/
def Fresh (p : Process) : Prop :=
  p.All (fun g => g.signals.signalMask = ⟨0, 0⟩ ∧ g.signals.suspendRestoreValid = false ∧
    g.waiting = none) ∧ ∀ n, p.actions n = ⟨0, 0, 0, ⟨0, 0⟩⟩

theorem Fresh.clear (h : Fresh p) : ProcessClear p := by
  refine ⟨fun t g there => ?_, by rw [h.2], by rw [h.2]⟩
  obtain ⟨mask, valid, waiting⟩ := h.1 t g there
  refine ⟨?_, ?_, ?_⟩
  · rw [MaskClear, mask]
    decide
  · simp [valid]
  · simp [waiting]

/-- While no action's `sa_mask` and no returned frame's mask has `SIGKILL` or `SIGSTOP`,
no thread's mask has; the first one that has puts it there. -/
theorem masks_stay_clear (code : Trampolines) {p : Process}
    (run : Run (Step code) BringsClear Fresh p) :
    p.All MaskClear ∧ ∀ e q, Step code p e q → (q.All MaskClear ↔ BringsClear p e) := by
  have ok : ProcessClear p :=
    run.invariant _ (fun _ start => start.clear) fun _ _ _ ok brings step => step_clear ok step brings
  refine ⟨fun t g there => (ok.threads t g there).mask, fun e q step => ?_⟩
  constructor
  · exact brings_clear ok step
  · intro brings t g there
    exact ((step_clear ok step brings).threads t g there).mask

theorem oneThread_fresh : Fresh oneThread := by
  refine ⟨fun t g there => ?_, fun _ => rfl⟩
  simp only [oneThread] at there
  split at there
  · cases there
    exact ⟨rfl, rfl, rfl⟩
  · cases there

/-- A handler for signal 10 that blocks signal 12. -/
theorem masks_stay_clear_handler :
    (delivered 10 ⟨0x8000, 0, 0, ⟨0x800, 0⟩⟩).All MaskClear :=
  (masks_stay_clear handlersCode (delivered_run oneThread_fresh trivial
    (by simp only [BringsClear]; decide +kernel)
    (deliver_pushes (by decide +kernel) (by decide +kernel) (by decide +kernel)))).1

/-- A handler for signal 10 whose `sa_mask` has signal 9. -/
theorem action_mask_blocks_kill :
    Run (Step handlersCode) (fun _ _ => True) Fresh (delivered 10 ⟨0x8000, 0, 0, ⟨0x100, 0⟩⟩) ∧
    ∃ g, (delivered 10 ⟨0x8000, 0, 0, ⟨0x100, 0⟩⟩).threads 0 = some g ∧
      g.signals.signalMask.has 9 = true := by
  refine ⟨delivered_run oneThread_fresh trivial trivial
    (deliver_pushes (by decide +kernel) (by decide +kernel) (by decide +kernel)), _, rfl, ?_⟩
  decide +kernel

end Linuxemu.Signal
