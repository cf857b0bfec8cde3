import Linuxemu.TemporaryMask

/-! A system call that a signal interrupts (`trap.c`, `linux_syscall.c`,
`guest_signal_deliver_pending`): what the handler's frame saves, and where the return from
it leads. -/
namespace Linuxemu.Signal
open Lib Lib.Memory

/-! ## The trap -/

def saRestart : UInt32 := 0x10000000

/-- `(uint32_t)-EINTR`. -/
def minusEintr : UInt32 := -4

/-- What a system call comes back with: the value of its function, and what it or other
threads did meanwhile. -/
structure SyscallAnswer where
  result : UInt32
  thread : ThreadSignals
  actions : Nat → SigAction
  memory : Memory

/-- `fork`, `clone` and `vfork` in the child, `rt_sigprocmask`, `rt_sigsuspend`,
`sigaltstack`, and `pselect6` and `ppoll` in both forms. -/
def setsThreadSignals (number : UInt32) : Bool :=
  [2, 120, 190, 175, 179, 186, 335, 336, 413, 414].contains number

/-- `CLONE_VM | CLONE_VFORK | SIGCHLD`. -/
def vforkFlags : UInt32 := 0x100 ||| 0x4000 ||| 17

/-- `linux_fork_process` puts the child on its own stack. -/
def startsChild (gpr : Fin 16 → UInt32) (a : SyscallAnswer) : Bool :=
  gpr 7 == 120 && gpr 0 == vforkFlags && a.result == 0 && gpr 1 != 0

/-- `none` for `exit` and `exit_group`, which do not come back. No other function that gets
the registers writes to them. -/
def linuxSyscallDispatch (s : State) (a : SyscallAnswer) : Option State :=
  let gpr := s.context.gpr
  if gpr 7 = 1 ∨ gpr 7 = 248 then none
  else
    let called := if startsChild gpr a then Function.update gpr 13 (gpr 1) else gpr
    some {
      context := { s.context with gpr := Function.update called 0 a.result }
      thread := if setsThreadSignals (gpr 7) then a.thread else s.thread
      actions := a.actions
      memory := a.memory }

def restartableSyscall (number : UInt32) : Bool :=
  [3, 4, 54, 114, 145, 146, 240, 283, 285, 291, 292, 297, 366].contains number

def State.setRegister (s : State) (i : Fin 16) (value : UInt32) : State :=
  { s with context := { s.context with gpr := Function.update s.context.gpr i value } }

/-- The call that this signal interrupted is to run again. -/
def State.restarts (s : State) (number : UInt32) (linuxSignal : Nat) : Bool :=
  s.context.gpr 0 == minusEintr && (s.actions linuxSignal).has saRestart &&
    restartableSyscall number

/-- Back to the `svc`, with the first argument in its place. -/
def State.rewind (s : State) (number originalR0 : UInt32) (linuxSignal : Nat) : State :=
  if s.restarts number linuxSignal then
    (s.setRegister 0 originalR0).setRegister 15 (s.context.gpr 15 - 4)
  else s

/-- `taken` is what `guest_thread_take_pending` gives. -/
def guestSignalDeliverPending (code : Trampolines) (s : State) (number originalR0 : UInt32)
    (taken : Option (Nat × Option Siginfo)) : State :=
  match taken with
  | none => s
  | some (linuxSignal, info) =>
    match guestSignalDeliver code (s.rewind number originalR0 linuxSignal) linuxSignal info with
    | .pushed after => after
    | _ => s.rewind number originalR0 linuxSignal

/-- `trap_handler` at a patched `svc #0`; `none` if guest code is not resumed. -/
def trapSystemCall (code : Trampolines) (s : State) (a : SyscallAnswer)
    (taken : Option (Nat × Option Siginfo)) : Option State :=
  let number := s.context.gpr 7
  let originalR0 := s.context.gpr 0
  if number = 119 then guestSignalReturn s false
  else if number = 173 then guestSignalReturn s true
  else (linuxSyscallDispatch s a).map fun d =>
    guestSignalDeliverPending code (d.setRegister 15 (s.context.gpr 15 + 4)) number originalR0
      taken

/-! ## What the frame holds -/

/-- The registers a frame's context has saved. -/
def frameRegisters (m : Memory) (guest : Nat) : Fin 16 → UInt32 :=
  fun i => m.word (guest + 32 + 4 * i)

/-- The registers with which a call that is not restarted comes back. -/
def interruptedRegisters (gpr : Fin 16 → UInt32) : Fin 16 → UInt32 :=
  Function.update (Function.update gpr 0 minusEintr) 15 (gpr 15 + 4)

/-- From the handler that `t` enters, a return on the untouched frame leads back to the state
in which `s` made its call. -/
def ReturnsTo (s t : State) (realtime : Bool) : Prop :=
  ∀ u : State, u.context.gpr 13 = t.context.gpr 13 →
    SameOn t.memory u.memory (t.context.gpr 13).toNat (frameSize realtime) →
    ∃ back, guestSignalReturn u realtime = some back ∧ back.context.gpr = s.context.gpr ∧
      back.context.spsr = s.context.spsr ∧ back.context.vfp = s.context.vfp ∧
      back.thread.signalMask = s.thread.signalMask

/-- The frame under the stack pointer of `t` restarts the call of `s`, or shows it
interrupted. -/
def FrameTransparent (s t : State) (action : SigAction) : Prop :=
  let realtime := action.has saSiginfo
  let saved := frameRegisters t.memory ((t.context.gpr 13).toNat + contextOffset realtime)
  if restartableSyscall (s.context.gpr 7) && action.has saRestart then
    saved = s.context.gpr ∧ ReturnsTo s t realtime
  else saved = interruptedRegisters s.context.gpr

/-- A mask other than the thread's own was left to be restored by an earlier wait. -/
def ThreadSignals.StaleMask (t : ThreadSignals) : Prop :=
  t.suspendRestoreValid = true ∧ t.suspendRestoreMask ≠ t.signalMask

section
variable {s d : State} {a : SyscallAnswer} {n : Nat}

/-- A call that comes back interrupted has changed no register but the first. -/
theorem dispatch_interrupted (dispatched : linuxSyscallDispatch s a = some d)
    (interrupted : d.context.gpr 0 = minusEintr) :
    d.context = { s.context with gpr := Function.update s.context.gpr 0 minusEintr } ∧
      (setsThreadSignals (s.context.gpr 7) = false → d.thread = s.thread) := by
  simp only [linuxSyscallDispatch] at dispatched
  split at dispatched
  · cases dispatched
  · cases dispatched
    have result : a.result = minusEintr := by simpa using interrupted
    have parent : startsChild s.context.gpr a = false := by
      simp [startsChild, result, minusEintr]
    refine ⟨by simp only [parent, result, Bool.false_eq_true, if_false], fun keeps => ?_⟩
    simp only [keeps, Bool.false_eq_true, if_false]

theorem restored_registers (gpr : Fin 16 → UInt32) (result next : UInt32) :
    Function.update (Function.update (Function.update (Function.update gpr 0 result) 15 next) 0
      (gpr 0)) 15 (gpr 15) = gpr := by
  funext i
  by_cases last : i = 15
  · rw [last, Function.update_self]
  · by_cases first : i = 0
    · rw [first, Function.update_of_ne (by decide), Function.update_self]
    · simp only [Function.update_of_ne last, Function.update_of_ne first]

/-- The state from which the signal is delivered. -/
def delivering (s d : State) (n : Nat) : State :=
  (d.setRegister 15 (s.context.gpr 15 + 4)).rewind (s.context.gpr 7) (s.context.gpr 0) n

theorem delivering_context (dispatched : linuxSyscallDispatch s a = some d)
    (interrupted : d.context.gpr 0 = minusEintr) (n : Nat) :
    (delivering s d n).context = { s.context with
      gpr := if restartableSyscall (s.context.gpr 7) && (d.actions n).has saRestart then
        s.context.gpr else interruptedRegisters s.context.gpr } := by
  obtain ⟨context, -⟩ := dispatch_interrupted dispatched interrupted
  have again : (d.setRegister 15 (s.context.gpr 15 + 4)).restarts (s.context.gpr 7) n =
      (restartableSyscall (s.context.gpr 7) && (d.actions n).has saRestart) := by
    have first : (d.setRegister 15 (s.context.gpr 15 + 4)).context.gpr 0 = minusEintr := by
      simpa [State.setRegister] using interrupted
    rw [State.restarts, first, beq_self_eq_true, Bool.true_and, Bool.and_comm]
    rfl
  rw [delivering, State.rewind, again]
  split
  · simp only [State.setRegister, context, Function.update_self, UInt32.add_sub_cancel]
    rw [restored_registers]
  · simp only [State.setRegister, context, interruptedRegisters]

theorem rewind_rest (s : State) (number originalR0 : UInt32) (n : Nat) :
    (s.rewind number originalR0 n).thread = s.thread ∧
      (s.rewind number originalR0 n).actions = s.actions := by
  unfold State.rewind
  split <;> exact ⟨rfl, rfl⟩

theorem framePointer_aligned (s : State) (action : SigAction) :
    (framePointer s action).toNat % 8 = 0 := by
  rw [framePointer, align_toNat]
  exact Nat.mul_mod_left _ _

/-- The trap of an interrupted call pushes the frame of `delivering`. -/
theorem trap_pushes (code : Trampolines)
    (call : s.context.gpr 7 ≠ 119 ∧ s.context.gpr 7 ≠ 173)
    (dispatched : linuxSyscallDispatch s a = some d) (signal : 1 ≤ n ∧ n ≤ 64)
    (unmasked : d.thread.signalMask.has n = false) (handled : 1 < (d.actions n).handler)
    (info : Option Siginfo) :
    ∃ t, trapSystemCall code s a (some (n, info)) = some t ∧
      t.context.gpr 13 = (openFrame (delivering s d n) n).address ∧
      Kept t.memory (openFrame (delivering s d n) n) := by
  obtain ⟨thread, actions⟩ := rewind_rest (d.setRegister 15 (s.context.gpr 15 + 4))
    (s.context.gpr 7) (s.context.gpr 0) n
  have pushed : guestSignalDeliver code (delivering s d n) n info =
      .pushed (pushFrame code (delivering s d n) n info) := by
    refine deliver_pushes ?_ ?_ ?_
    · unfold linuxSignalCount
      omega
    · rintro ⟨-, -, masked⟩
      rw [delivering, thread] at masked
      exact Bool.false_ne_true (unmasked.symm.trans masked)
    · rw [delivering, actions]
      exact UInt32.not_le.mpr handled
  refine ⟨pushFrame code (delivering s d n) n info, ?_, ?_, framePointer_aligned _ _, ?_⟩
  · rw [trapSystemCall, if_neg call.1, if_neg call.2, dispatched, Option.map_some,
      guestSignalDeliverPending]
    rw [delivering] at pushed
    rw [pushed]
    rfl
  · simp [pushFrame, handlerRegisters, openFrame]
  · exact writeFrame_saved _ _ _ _ _

theorem restartable_keeps {number : UInt32} (restartable : restartableSyscall number = true) :
    setsThreadSignals number = false := by
  simp only [restartableSyscall, List.contains_eq_mem, List.mem_cons, List.not_mem_nil, or_false,
    decide_eq_true_eq] at restartable
  rcases restartable with rfl | rfl | rfl | rfl | rfl | rfl | rfl | rfl | rfl | rfl | rfl | rfl |
    rfl <;> rfl

theorem delivering_realtime (s d : State) (n : Nat) :
    (openFrame (delivering s d n) n).realtime = (d.actions n).has saSiginfo := by
  have actions := (rewind_rest (d.setRegister 15 (s.context.gpr 15 + 4)) (s.context.gpr 7)
    (s.context.gpr 0) n).2
  rw [openFrame, delivering, actions]
  rfl

/-- The frame of a call to be restarted holds the call as it was made. -/
theorem restarted_frame (dispatched : linuxSyscallDispatch s a = some d)
    (interrupted : d.context.gpr 0 = minusEintr)
    (restartable : restartableSyscall (s.context.gpr 7) = true)
    (flagged : (d.actions n).has saRestart = true) :
    (openFrame (delivering s d n) n).saved =
      ⟨s.context.gpr, s.context.spsr, s.context.vfp, s.thread.deliveryMask.1⟩ := by
  have context := delivering_context dispatched interrupted n
  have thread := (rewind_rest (d.setRegister 15 (s.context.gpr 15 + 4)) (s.context.gpr 7)
    (s.context.gpr 0) n).1
  have own : d.thread = s.thread :=
    (dispatch_interrupted dispatched interrupted).2 (restartable_keeps restartable)
  have same : (delivering s d n).thread = s.thread := thread.trans own
  rw [restartable, flagged, Bool.and_self, if_pos rfl] at context
  rw [openFrame, context, same]

theorem deliveryMask_eq_iff (t : ThreadSignals) :
    t.deliveryMask.1 = t.signalMask ↔ ¬ t.StaleMask := by
  unfold ThreadSignals.deliveryMask ThreadSignals.StaleMask
  cases t.suspendRestoreValid <;> simp

/-- The return from a frame brings back the registers of a call, unless the mask it saved is
another one. -/
theorem returnsTo_iff {t : State} {f : OpenFrame} (kept : Kept t.memory f)
    (place : t.context.gpr 13 = f.address) (gpr : f.saved.gpr = s.context.gpr)
    (spsr : f.saved.spsr = s.context.spsr) (vfp : f.saved.vfp = s.context.vfp) :
    ReturnsTo s t f.realtime ↔ f.saved.mask = s.thread.signalMask := by
  constructor
  · intro returns
    obtain ⟨back, returned, -, -, -, mask⟩ := returns t rfl fun _ _ _ => rfl
    obtain ⟨after, call, -, -, -, restored⟩ := kept.returns place
    cases returned.symm.trans call
    exact restored.symm.trans mask
  · intro same u stack frame
    have untouched : Kept u.memory f := kept.congr (place ▸ frame)
    obtain ⟨back, returned, registers, status, floats, mask⟩ :=
      untouched.returns (stack.trans place)
    exact ⟨back, returned, registers.trans gpr, status.trans spsr, floats.trans vfp,
      mask.trans same⟩

/-- An interrupted call is restarted by the return from its handler exactly as it was made, or
seen interrupted, unless it is to be restarted while a stale mask waits to be restored. -/
theorem restart_transparent_iff (code : Trampolines)
    (call : s.context.gpr 7 ≠ 119 ∧ s.context.gpr 7 ≠ 173)
    (dispatched : linuxSyscallDispatch s a = some d)
    (interrupted : d.context.gpr 0 = minusEintr) (signal : 1 ≤ n ∧ n ≤ 64)
    (unmasked : d.thread.signalMask.has n = false) (handled : 1 < (d.actions n).handler)
    (info : Option Siginfo) :
    ∃ t, trapSystemCall code s a (some (n, info)) = some t ∧
      (FrameTransparent s t (d.actions n) ↔
        ¬ (restartableSyscall (s.context.gpr 7) = true ∧ (d.actions n).has saRestart = true ∧
          s.thread.StaleMask)) := by
  obtain ⟨t, trapped, place, kept⟩ :=
    trap_pushes code call dispatched signal unmasked handled info
  refine ⟨t, trapped, ?_⟩
  have context := delivering_context dispatched interrupted n
  have realtime := delivering_realtime s d n
  have saved : frameRegisters t.memory
      ((t.context.gpr 13).toNat + contextOffset ((d.actions n).has saSiginfo)) =
      (delivering s d n).context.gpr := by
    rw [place, ← realtime]
    exact funext kept.saved.gpr
  unfold FrameTransparent
  dsimp only
  split
  · rename_i again
    rw [if_pos again] at context
    obtain ⟨restartable, flagged⟩ := Bool.and_eq_true_iff.mp again
    have frame := restarted_frame dispatched interrupted restartable flagged
    rw [saved, context, ← realtime, returnsTo_iff kept place (congrArg Snapshot.gpr frame)
      (congrArg Snapshot.spsr frame) (congrArg Snapshot.vfp frame), frame, deliveryMask_eq_iff]
    simp [restartable, flagged]
  · rename_i onward
    rw [if_neg onward] at context
    rw [saved, context]
    refine ⟨fun _ => ?_, fun _ => rfl⟩
    rintro ⟨restartable, flagged, -⟩
    exact onward (Bool.and_eq_true_iff.mpr ⟨restartable, flagged⟩)

/-- At an `svc` for `read`. -/
def readContext : Context where
  gpr i := if i = 7 then 3 else if i = 15 then 0x10054 else 0x20000
  spsr := 0x10
  vfp := ⟨fun _ => 3, 1, 2, 3, 4⟩
  sigmask _ := false

def restartingAction : SigAction := ⟨0x8000, saRestart, 0, ⟨0, 0⟩⟩

/-- Nothing but the result has changed. -/
def interruptedAnswer (s : State) : SyscallAnswer := ⟨minusEintr, s.thread, s.actions, s.memory⟩

theorem dispatch_read (context : s.context = readContext) :
    ∃ d, linuxSyscallDispatch s (interruptedAnswer s) = some d ∧ d.context.gpr 0 = minusEintr ∧
      d.thread = s.thread ∧ d.actions = s.actions := by
  rw [linuxSyscallDispatch, context]
  exact ⟨_, rfl, rfl, rfl, rfl⟩

/-- A thread that has blocked signal 10, in a `read`. -/
def readingState : State :=
  ⟨readContext, ⟨⟨0x200, 0⟩, ⟨0, 0⟩, false, 0, 0⟩, fun _ => restartingAction, fun _ => 0⟩

theorem restart_transparent_read :
    ∃ t, trapSystemCall handlersCode readingState (interruptedAnswer readingState)
        (some (12, none)) = some t ∧ FrameTransparent readingState t restartingAction := by
  obtain ⟨t, trapped, same⟩ := restart_transparent_iff handlersCode (s := readingState)
    (a := interruptedAnswer readingState) (n := 12) (by decide) rfl rfl (by decide) (by decide)
    (by decide) none
  exact ⟨t, trapped, same.mpr fun stale => absurd stale.2.2.1 (by decide)⟩

/-- The thread of `pollBlocked` back in its guest code, with a handler that restarts calls. -/
def staleThread : Option (Wait.Waiter 0) :=
  Wait.pollBlocked.bind fun s =>
    s.follow (fun _ _ => True) [.proceed true, .setActions fun _ => restartingAction]

/-- The `read` runs again, but with signal 10 no longer blocked. -/
theorem restarts_with_other_mask :
    ∃ w : Wait.Waiter 0, Lib.Run Wait.Step (fun _ _ => True) Wait.Waiter.Start w ∧
      w.stage = .guest ∧
      let s := w.state readContext (0, 0) fun _ => 0
      restartableSyscall (s.context.gpr 7) = true ∧ (s.actions 12).has saRestart = true ∧
      ∃ t back, trapSystemCall handlersCode s (interruptedAnswer s) (some (12, none)) = some t ∧
        guestSignalReturn t false = some back ∧ back.context.gpr = s.context.gpr ∧
        s.thread.signalMask = ⟨0x200, 0⟩ ∧ back.thread.signalMask = ⟨0, 0⟩ := by
  have some : staleThread.isSome = true := by decide +kernel
  obtain ⟨w, same⟩ := Option.isSome_iff_exists.mp some
  have facts : staleThread.map (fun w => (w.stage, w.mask, w.suspendRestoreMask,
      w.suspendRestoreValid, w.actions 12)) =
      .some (.guest, ⟨0x200, 0⟩, ⟨0, 0⟩, true, restartingAction) := by decide +kernel
  simp only [same, Option.map_some, Option.some.injEq, Prod.mk.injEq] at facts
  obtain ⟨stage, mask, parked, valid, action⟩ := facts
  obtain ⟨blocked, polled, followed⟩ := Option.bind_eq_some_iff.mp same
  have run : Lib.Run Wait.Step (fun _ _ => True) Wait.Waiter.Start w :=
    Wait.follow_run (Wait.follow_run (.start Wait.quietThread_start) polled) followed
  refine ⟨w, run, stage, rfl, ?_, ?_⟩
  · show (w.actions 12).has saRestart = true
    rw [action]
    rfl
  have thread : (w.state readContext (0, 0) fun _ => 0).thread =
      ⟨⟨0x200, 0⟩, ⟨0, 0⟩, true, 0, 0⟩ := by
    rw [← mask, ← parked, ← valid]
    rfl
  have known : (w.state readContext (0, 0) fun _ => 0).actions 12 = restartingAction := action
  obtain ⟨d, dispatched, interrupted, own, actions⟩ :=
    dispatch_read (s := w.state readContext (0, 0) fun _ => 0) rfl
  rw [← actions] at known
  rw [thread] at own
  obtain ⟨t, trapped, place, kept⟩ := trap_pushes handlersCode
    (show readContext.gpr 7 ≠ 119 ∧ readContext.gpr 7 ≠ 173 by decide) dispatched
    (n := 12) (by decide) (by rw [own]; decide) (by rw [known]; decide) none
  have frame := restarted_frame (n := 12) dispatched interrupted rfl (by rw [known]; rfl)
  obtain ⟨back, returned, gpr, -, -, restored⟩ := kept.returns place
  rw [delivering_realtime, known] at returned
  rw [frame] at gpr restored
  refine ⟨t, back, trapped, returned, gpr, mask, ?_⟩
  rw [restored, thread]
  rfl

end

end Linuxemu.Signal
