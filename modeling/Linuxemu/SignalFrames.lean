import Linuxemu.Signal

/-! Signal frames as they nest on a guest stack: what a delivery writes is what the
matching return reads, whatever was pushed and returned from in between. -/
namespace Linuxemu.Signal
open Lib Lib.Memory
variable {code : Trampolines} {s : State} {info : Option Siginfo} {linuxSignal frame guest q : Nat}
  {m m' : Memory}
variable {action : SigAction} {after : State}

/-! ## One frame -/

theorem getD_ofFn {n : Nat} (f : Fin n → UInt32) (i : Fin n) : (List.ofFn f).getD i 0 = f i := by
  simp

theorem saveVfp_outside (m : Memory) (vfp : Vfp) (h : q < frame ∨ frame + 512 ≤ q) :
    saveVfp m frame vfp q = m q := by
  have bank : (List.ofFn vfp.registers).length = 64 := List.length_ofFn
  rw [saveVfp, storeWord_outside _ (by omega), storeWord_outside _ (by omega),
    storeWord_outside _ (by omega), storeWord_outside _ (by omega), storeWords_outside _ (by omega),
    storeWord_outside _ (by omega), storeWord_outside _ (by omega), clear_outside _ (by omega)]

theorem saveVfp_apart (m : Memory) {b : Nat} (vfp : Vfp) (h : b + 4 ≤ frame) :
    (saveVfp m frame vfp).word b = m.word b := by
  have same : SameOn m (saveVfp m frame vfp) b 4 := fun q _ _ => saveVfp_outside m vfp (by omega)
  exact same.word (Nat.le_refl b) (Nat.le_refl _)

theorem restoreVfp_saveVfp (m : Memory) (frame : Nat) (vfp old : Vfp) :
    restoreVfp (saveVfp m frame vfp) frame old = some vfp := by
  have bank : (List.ofFn vfp.registers).length = 64 := List.length_ofFn
  have magic : (saveVfp m frame vfp).word frame = 0x56465001 := by
    rw [saveVfp, storeWord_apart _ (by omega), storeWord_apart _ (by omega),
      storeWord_apart _ (by omega), storeWord_apart _ (by omega), storeWords_apart _ (by omega),
      storeWord_apart _ (by omega), storeWord_word]
  have size : (saveVfp m frame vfp).word (frame + 4) = 288 := by
    rw [saveVfp, storeWord_apart _ (by omega), storeWord_apart _ (by omega),
      storeWord_apart _ (by omega), storeWord_apart _ (by omega), storeWords_apart _ (by omega),
      storeWord_word]
  have registers (i : Fin 64) : (saveVfp m frame vfp).word (frame + 8 + 4 * i) = vfp.registers i := by
    have := i.isLt
    rw [saveVfp, storeWord_apart _ (by omega), storeWord_apart _ (by omega),
      storeWord_apart _ (by omega), storeWord_apart _ (by omega),
      storeWords_word _ _ _ (by omega), getD_ofFn]
  have fpscr : (saveVfp m frame vfp).word (frame + 264) = vfp.fpscr := by
    rw [saveVfp, storeWord_apart _ (by omega), storeWord_apart _ (by omega),
      storeWord_apart _ (by omega), storeWord_word]
  have fpexc : (saveVfp m frame vfp).word (frame + 272) = vfp.fpexc := by
    rw [saveVfp, storeWord_apart _ (by omega), storeWord_apart _ (by omega), storeWord_word]
  have fpinst : (saveVfp m frame vfp).word (frame + 276) = vfp.fpinst := by
    rw [saveVfp, storeWord_apart _ (by omega), storeWord_word]
  have fpinst2 : (saveVfp m frame vfp).word (frame + 280) = vfp.fpinst2 := by
    rw [saveVfp, storeWord_word]
  rw [restoreVfp, magic, size, fpscr, fpexc, fpinst, fpinst2, funext registers]
  simp

theorem restoreVfp_congr (old : Vfp) (same : SameOn m m' frame 512) :
    restoreVfp m' frame old = restoreVfp m frame old := by
  have bank (i : Fin 64) : m'.word (frame + 8 + 4 * i) = m.word (frame + 8 + 4 * i) := by
    have := i.isLt
    exact same.word (by omega) (by omega)
  rw [restoreVfp, same.word (by omega) (by omega), same.word (by omega) (by omega), funext bank,
    same.word (by omega) (by omega), same.word (by omega) (by omega),
    same.word (by omega) (by omega), same.word (by omega) (by omega), restoreVfp]

/-- What a delivery is to bring back: the interrupted context and the mask that
`guest_thread_signal_delivery_mask` yielded. -/
structure Snapshot where
  gpr : Fin 16 → UInt32
  spsr : UInt32
  vfp : Vfp
  mask : SignalSet

variable {saved : Snapshot}

/-- A `struct linux_ucontext` at `guest` holds this. -/
structure Saved (m : Memory) (guest : Nat) (saved : Snapshot) : Prop where
  gpr : ∀ i : Fin 16, m.word (guest + 32 + 4 * i) = saved.gpr i
  spsr : m.word (guest + 96) = saved.spsr
  vfp : ∀ old, restoreVfp m (guest + 232) old = some saved.vfp
  mask : frameMask m guest = saved.mask

theorem Saved.congr (h : Saved m guest saved) (same : SameOn m m' (guest + 32) 712) :
    Saved m' guest saved := by
  constructor
  · intro i
    have := i.isLt
    rw [same.word (by omega) (by omega), h.gpr]
  · rw [same.word (by omega) (by omega), h.spsr]
  · intro old
    rw [← h.vfp old]
    apply restoreVfp_congr
    intro q lo hi
    exact same q (by omega) (by omega)
  · rw [← h.mask, frameMask, same.word (by omega) (by omega), same.word (by omega) (by omega),
      frameMask]

/-- The signal stack stands below what is read back. -/
theorem Saved.store (h : Saved m guest saved) {a : Nat} (w : UInt32) (below : a + 4 ≤ guest + 32) :
    Saved (m.storeWord a w) guest saved :=
  h.congr fun _ _ _ => m.storeWord_outside (by omega)

theorem prepareContext_saved (m : Memory) (guest : Nat) (host : Context) (oldMask : SignalSet)
    (faultAddress : UInt32) :
    Saved (prepareContext m guest host oldMask faultAddress) guest
      ⟨host.gpr, host.spsr, host.vfp, oldMask⟩ := by
  have count : (List.ofFn host.gpr).length = 16 := List.length_ofFn
  have words : [UInt32.ofBitVec oldMask.word0, UInt32.ofBitVec oldMask.word1].length = 2 := rfl
  constructor
  · intro i
    have := i.isLt
    rw [prepareContext, saveVfp_apart _ _ (by omega),
      storeWords_apart _ (by omega), storeWord_apart _ (by omega), storeWord_apart _ (by omega),
      storeWords_word _ _ _ (by omega), getD_ofFn]
  · rw [prepareContext, saveVfp_apart _ _ (by omega),
      storeWords_apart _ (by omega), storeWord_apart _ (by omega), storeWord_word]
  · intro old
    exact restoreVfp_saveVfp _ _ _ _
  · rw [frameMask, prepareContext, saveVfp_apart _ _ (by omega), saveVfp_apart _ _ (by omega),
      storeWords_first, storeWords_second]

theorem prepareContext_outside (m : Memory) (host : Context) (oldMask : SignalSet)
    (faultAddress : UInt32) (h : q < guest ∨ guest + 744 ≤ q) :
    prepareContext m guest host oldMask faultAddress q = m q := by
  have count : (List.ofFn host.gpr).length = 16 := List.length_ofFn
  have words : [UInt32.ofBitVec oldMask.word0, UInt32.ofBitVec oldMask.word1].length = 2 := rfl
  rw [prepareContext, saveVfp_outside _ _ (by omega), storeWords_outside _ (by omega),
    storeWord_outside _ (by omega), storeWord_outside _ (by omega), storeWords_outside _ (by omega),
    storeWord_outside _ (by omega), storeWord_outside _ (by omega), clear_outside _ (by omega)]

theorem fillSiginfo_outside (m : Memory) {destination : Nat} (linuxSignal : Nat)
    (source : Option Siginfo) (h : q < destination ∨ destination + 128 ≤ q) :
    fillSiginfo m destination linuxSignal source q = m q := by
  cases source with
  | none => rw [fillSiginfo, storeWord_outside _ (by omega), clear_outside _ (by omega)]
  | some info =>
    simp only [fillSiginfo]
    split
    · rw [storeWord_outside _ (by omega), storeWord_outside _ (by omega),
        storeWord_outside _ (by omega), storeWord_outside _ (by omega), clear_outside _ (by omega)]
    · rw [storeWord_outside _ (by omega), storeWord_outside _ (by omega),
        storeWord_outside _ (by omega), storeWord_outside _ (by omega),
        storeWord_outside _ (by omega), clear_outside _ (by omega)]

theorem contextOffset_frameSize (realtime : Bool) :
    contextOffset realtime + 760 = frameSize realtime := by
  cases realtime <;> rfl

/-- A delivery writes inside its frame only. -/
theorem writeFrame_outside (s : State) (linuxSignal : Nat) (info : Option Siginfo)
    (action : SigAction) (oldMask : SignalSet) (h : q < (framePointer s action).toNat ∨
      (framePointer s action).toNat + frameSize (action.has saSiginfo) ≤ q) :
    writeFrame s linuxSignal info action oldMask q = s.memory q := by
  have size := contextOffset_frameSize (action.has saSiginfo)
  rw [writeFrame, storeWord_outside _ (by omega), storeWord_outside _ (by omega),
    storeWord_outside _ (by omega), prepareContext_outside _ _ _ _ (by omega)]
  cases realtime : action.has saSiginfo with
  | false => exact clear_outside _ (by rw [realtime] at h; exact h)
  | true =>
    rw [realtime] at h
    rw [if_pos rfl, fillSiginfo_outside _ _ _ (by simp only [frameSize, if_true] at h; omega)]
    exact clear_outside _ h

theorem writeFrame_saved (s : State) (linuxSignal : Nat) (info : Option Siginfo)
    (action : SigAction) (oldMask : SignalSet) :
    Saved (writeFrame s linuxSignal info action oldMask)
      ((framePointer s action).toNat + contextOffset (action.has saSiginfo))
      ⟨s.context.gpr, s.context.spsr, s.context.vfp, oldMask⟩ := by
  rw [writeFrame]
  apply Saved.store _ _ (by omega)
  apply Saved.store _ _ (by omega)
  apply Saved.store _ _ (by omega)
  exact prepareContext_saved _ _ _ _ _

/-! ## The frame's place -/

theorem align_toNat (x : UInt32) : (x &&& ~~~ 7).toNat = x.toNat / 8 * 8 := by
  have mask : (~~~ (7 : UInt32)).toNat = 2 ^ 32 - 2 ^ 3 := by decide
  rw [UInt32.toNat_and, mask]
  exact and_high_mask x.toNat_lt (by omega)

theorem frameSize_le (realtime : Bool) : frameSize realtime ≤ 888 := by
  cases realtime <;> decide

theorem frameSize_toNat (realtime : Bool) :
    (UInt32.ofNat (frameSize realtime)).toNat = frameSize realtime := by
  cases realtime <;> rfl

/-- From the reserve under the interrupted stack pointer down, around the end of the
address space if need be. -/
theorem framePointer_reserve (interrupted : switchesStack s action = false) :
    (framePointer s action).toNat =
      (2 ^ 32 + (s.context.gpr 13).toNat - 8192 - frameSize (action.has saSiginfo)) %
        2 ^ 32 / 8 * 8 := by
  have fits := frameSize_le (action.has saSiginfo)
  have small := frameSize_toNat (action.has saSiginfo)
  have bound := (s.context.gpr 13).toNat_lt
  have reserve : hostSignalStackReserve.toNat = 8192 := rfl
  simp only [framePointer, interrupted, Bool.false_eq_true, if_false, align_toNat]
  rw [UInt32.toNat_sub, UInt32.toNat_sub, small, reserve]
  omega

/-- On the interrupted stack, with room, the frame is aligned and ends below the
reserve under the stack pointer. -/
theorem framePointer_below (interrupted : switchesStack s action = false)
    (room : 8192 + frameSize (action.has saSiginfo) ≤ (s.context.gpr 13).toNat) :
    (framePointer s action).toNat % 8 = 0 ∧
      (framePointer s action).toNat + frameSize (action.has saSiginfo) + 8192 ≤
        (s.context.gpr 13).toNat := by
  have bound := (s.context.gpr 13).toNat_lt
  rw [framePointer_reserve interrupted]
  omega

/-! ## Nesting -/

/-- A frame pushed and not yet returned from. -/
structure OpenFrame where
  address : UInt32
  realtime : Bool
  saved : Snapshot

variable {f : OpenFrame}

def OpenFrame.size (f : OpenFrame) : Nat := frameSize f.realtime

/-- A thread and the frames on its stack, the innermost first. -/
structure Session where
  state : State
  frames : List OpenFrame

/-- The frame `guest_signal_deliver` pushes in this state. -/
def openFrame (s : State) (linuxSignal : Nat) : OpenFrame where
  address := framePointer s (s.actions linuxSignal)
  realtime := (s.actions linuxSignal).has saSiginfo
  saved := ⟨s.context.gpr, s.context.spsr, s.context.vfp, s.thread.deliveryMask.1⟩

/-- Deliveries on the interrupted stack and returns, properly nested. Between them the
guest may do anything but write to an open frame; a handler has moved the stack pointer
only downwards when another signal is delivered. -/
inductive Nest (code : Trampolines) : Session → Session → Prop
  | guest {s : Session} (after : State)
      (unmodified : ∀ f ∈ s.frames, SameOn s.state.memory after.memory f.address.toNat f.size) :
      Nest code s ⟨after, s.frames⟩
  | deliver {s : Session} {after : State} (linuxSignal : Nat) (info : Option Siginfo)
      (call : guestSignalDeliver code s.state linuxSignal info = .pushed after)
      (interrupted : switchesStack s.state (s.state.actions linuxSignal) = false)
      (room : 8192 + (openFrame s.state linuxSignal).size ≤ (s.state.context.gpr 13).toNat)
      (downward : ∀ f ∈ s.frames.head?, s.state.context.gpr 13 ≤ f.address) :
      Nest code s ⟨after, openFrame s.state linuxSignal :: s.frames⟩
  | signalReturn {s : Session} {after : State} {f : OpenFrame} {rest : List OpenFrame}
      (frames : s.frames = f :: rest) (place : s.state.context.gpr 13 = f.address)
      (call : guestSignalReturn s.state f.realtime = some after) : Nest code s ⟨after, rest⟩

/-- Any sequence of them from any state of the thread, with no frame open. -/
inductive Nested (code : Trampolines) : Session → Prop
  | start (s : State) : Nested code ⟨s, []⟩
  | next {s t : Session} : Nested code s → Nest code s t → Nested code t

/-- What an open frame keeps until its return. -/
structure Kept (m : Memory) (f : OpenFrame) : Prop where
  aligned : f.address.toNat % 8 = 0
  saved : Saved m (f.address.toNat + contextOffset f.realtime) f.saved

theorem Kept.congr (h : Kept m f) (same : SameOn m m' f.address.toNat f.size) :
    Kept m' f := by
  have size := contextOffset_frameSize f.realtime
  refine ⟨h.aligned, h.saved.congr fun q lo hi => same q (by omega) ?_⟩
  rw [OpenFrame.size]
  omega

/-- Every open frame is kept, and each ends below the next outer one. -/
structure NestOk (s : Session) : Prop where
  kept : ∀ f ∈ s.frames, Kept s.state.memory f
  apart : s.frames.Pairwise fun f g => f.address.toNat + f.size ≤ g.address.toNat

/-- A push is of a signal that has a handler. -/
theorem pushed_cases (call : guestSignalDeliver code s linuxSignal info = .pushed after) :
    after = pushFrame code s linuxSignal info ∧ (1 ≤ linuxSignal ∧ linuxSignal ≤ 64) ∧
      ¬ (s.actions linuxSignal).handler ≤ 1 := by
  unfold guestSignalDeliver linuxSignalCount at call
  split at call
  · cases call
  · split at call
    · cases call
    · split at call
      · cases call
      · cases call
        exact ⟨rfl, by omega, by assumption⟩

/-- What a return takes from the frame and what it leaves alone. -/
theorem return_cases {realtime : Bool} (call : guestSignalReturn s realtime = some after) :
    after.memory = s.memory ∧ after.actions = s.actions ∧
      after.context.sigmask = linuxSetToHost after.thread.signalMask ∧
      after.thread.signalMask =
        frameMask s.memory ((s.context.gpr 13).toNat + contextOffset realtime) ∧
      after.thread.suspendRestoreMask = s.thread.suspendRestoreMask ∧
      after.thread.suspendRestoreValid = s.thread.suspendRestoreValid := by
  simp only [guestSignalReturn] at call
  split at call
  · cases call
  · obtain ⟨vfp, -, rfl⟩ := Option.map_eq_some_iff.mp call
    refine ⟨rfl, rfl, ?_⟩
    -- the alternate stack is all that the branches differ in
    simp only
    split
    · exact ⟨rfl, rfl, rfl, rfl⟩
    · split
      · exact ⟨rfl, rfl, rfl, rfl⟩
      · split <;> exact ⟨rfl, rfl, rfl, rfl⟩

theorem deliver_pushes (valid : ¬ (linuxSignal = 0 ∨ linuxSignalCount < linuxSignal))
    (open' : ¬ (linuxSignal ≠ 4 ∧ linuxSignal ≠ 11 ∧ s.thread.signalMask.has linuxSignal = true))
    (handled : ¬ (s.actions linuxSignal).handler ≤ 1) :
    guestSignalDeliver code s linuxSignal info = .pushed (pushFrame code s linuxSignal info) := by
  rw [guestSignalDeliver, if_neg valid, if_neg open', if_neg handled]

theorem deliver_refuses (valid : ¬ (linuxSignal = 0 ∨ linuxSignalCount < linuxSignal))
    (open' : ¬ (linuxSignal ≠ 4 ∧ linuxSignal ≠ 11 ∧ s.thread.signalMask.has linuxSignal = true))
    (unhandled : (s.actions linuxSignal).handler ≤ 1) :
    guestSignalDeliver code s linuxSignal info = .refused := by
  rw [guestSignalDeliver, if_neg valid, if_neg open', if_pos unhandled]

/-- The frame a delivery leaves under the stack pointer has the mask it was to save. -/
theorem pushFrame_mask (code : Trampolines) (s : State) (linuxSignal : Nat)
    (info : Option Siginfo) :
    frameMask (pushFrame code s linuxSignal info).memory
      (((pushFrame code s linuxSignal info).context.gpr 13).toNat +
        contextOffset ((s.actions linuxSignal).has saSiginfo)) = s.thread.deliveryMask.1 := by
  have sp : (pushFrame code s linuxSignal info).context.gpr 13 =
      framePointer s (s.actions linuxSignal) := by
    simp [pushFrame, handlerRegisters]
  rw [sp]
  exact (writeFrame_saved s linuxSignal info _ _).mask

/-- The innermost frame is the lowest. -/
theorem NestOk.innermost {s : Session} (ok : NestOk s) {sp : Nat}
    (downward : ∀ f ∈ s.frames.head?, sp ≤ f.address.toNat) :
    ∀ f ∈ s.frames, sp ≤ f.address.toNat := by
  obtain ⟨state, frames⟩ := s
  cases frames with
  | nil => simp
  | cons first rest =>
    have top := downward first rfl
    intro f member
    rcases List.mem_cons.mp member with rfl | member
    · exact top
    · have := (List.pairwise_cons.mp ok.apart).1 f member
      omega

theorem nest_ok {s t : Session} (step : Nest code s t) (ok : NestOk s) :
    NestOk t := by
  cases step with
  | guest after unmodified =>
    exact ⟨fun f member => (ok.kept f member).congr (unmodified f member), ok.apart⟩
  | @deliver after linuxSignal info call interrupted room downward =>
    obtain ⟨aligned, below⟩ := framePointer_below interrupted room
    have outer : ∀ f ∈ s.frames, (s.state.context.gpr 13).toNat ≤ f.address.toNat :=
      ok.innermost fun f first => UInt32.le_iff_toNat_le.mp (downward f first)
    rw [(pushed_cases call).1]
    constructor
    · intro f member
      rcases List.mem_cons.mp member with rfl | member
      · exact ⟨aligned, writeFrame_saved _ _ _ _ _⟩
      · refine (ok.kept f member).congr fun q lo _ => writeFrame_outside _ _ _ _ _ (.inr ?_)
        have := outer f member
        omega
    · refine List.pairwise_cons.mpr ⟨fun f member => ?_, ok.apart⟩
      have := outer f member
      simp only [openFrame, OpenFrame.size]
      omega
  | @signalReturn after f rest frames place call =>
    obtain ⟨kept, apart⟩ := ok
    rw [frames] at kept apart
    refine ⟨fun g member => ?_, (List.pairwise_cons.mp apart).2⟩
    rw [(return_cases call).1]
    exact kept g (List.mem_cons_of_mem f member)

theorem nested_ok {s : Session} (run : Nested code s) : NestOk s := by
  induction run with
  | start s => exact ⟨by simp, List.Pairwise.nil⟩
  | next _ step ih => exact nest_ok step ih

/-- The return from a kept frame with the stack pointer on it. -/
theorem Kept.returns (kept : Kept s.memory f) (place : s.context.gpr 13 = f.address) :
    ∃ after, guestSignalReturn s f.realtime = some after ∧ after.context.gpr = f.saved.gpr ∧
      after.context.spsr = f.saved.spsr ∧ after.context.vfp = f.saved.vfp ∧
      after.thread.signalMask = f.saved.mask := by
  have aligned : ¬ f.address &&& 7 ≠ 0 := by
    rw [not_not]
    apply UInt32.toNat.inj
    rw [UInt32.toNat_and]
    exact (Nat.and_two_pow_sub_one_eq_mod f.address.toNat 3).trans kept.aligned
  simp only [guestSignalReturn, place, if_neg aligned, kept.saved.vfp, Option.map_some,
    kept.saved.mask, kept.saved.spsr]
  refine ⟨_, rfl, funext kept.saved.gpr, rfl, rfl, ?_⟩
  simp only
  split
  · rfl
  · split
    · rfl
    · split <;> rfl

/-- A return made on the innermost open frame, at any depth and in any mix of the two
kinds, brings back what its delivery interrupted. -/
theorem frames_round_trip (code : Trampolines) {s : Session} {f : OpenFrame}
    {rest : List OpenFrame} (run : Nested code s) (frames : s.frames = f :: rest)
    (place : s.state.context.gpr 13 = f.address) :
    ∃ after, guestSignalReturn s.state f.realtime = some after ∧
      Nest code s ⟨after, rest⟩ ∧ after.context.gpr = f.saved.gpr ∧
      after.context.spsr = f.saved.spsr ∧ after.context.vfp = f.saved.vfp ∧
      after.thread.signalMask = f.saved.mask := by
  have kept := (nested_ok run).kept f (frames ▸ List.mem_cons_self)
  obtain ⟨after, call, restored⟩ := kept.returns place
  exact ⟨after, call, .signalReturn frames place call, restored⟩

/-- A thread with a classic handler for signal 10 and a real-time one for 12. -/
def handlersState : State where
  context := ⟨fun _ => 0x10000, 0x10, ⟨fun _ => 3, 1, 2, 3, 4⟩, fun _ => false⟩
  thread := ⟨⟨0x80, 0⟩, ⟨0, 0⟩, false, 0, 0⟩
  actions n := if n = 10 then ⟨0x8000, 0, 0, ⟨0, 0⟩⟩ else if n = 12 then ⟨0x8100, 4, 0, ⟨0, 0⟩⟩
    else ⟨0, 0, 0, ⟨0, 0⟩⟩
  memory _ := 0

def handlersCode : Trampolines := ⟨0x7000, 0x7004⟩

/-- The same thread in its handler for signal 10. -/
def insideHandler : State := pushFrame handlersCode handlersState 10 none

/-- Signal 12 in the handler of signal 10. -/
theorem frames_round_trip_twice :
    ∃ after, guestSignalReturn (pushFrame handlersCode insideHandler 12 none) true = some after ∧
      after.context.gpr = insideHandler.context.gpr ∧
      after.thread.signalMask = insideHandler.thread.deliveryMask.1 := by
  have first : Nested handlersCode ⟨insideHandler, [openFrame handlersState 10]⟩ :=
    .next (.start handlersState) (.deliver 10 none
      (deliver_pushes (by decide) (by decide) (by decide)) (by decide) (by decide)
      (fun f none => nomatch none))
  have second : Nested handlersCode ⟨pushFrame handlersCode insideHandler 12 none,
      [openFrame insideHandler 12, openFrame handlersState 10]⟩ :=
    .next first (.deliver 12 none
      (deliver_pushes (by decide +kernel) (by decide +kernel) (by decide +kernel))
      (by decide +kernel) (by decide +kernel)
      (fun f top => by cases top; decide +kernel))
  have realtime : (openFrame insideHandler 12).realtime = true := by decide +kernel
  have round := frames_round_trip handlersCode second rfl (by decide +kernel)
  rw [realtime] at round
  obtain ⟨after, call, -, gpr, -, -, mask⟩ := round
  exact ⟨after, call, gpr, mask⟩

end Linuxemu.Signal
