import Linuxemu.Lib.Action
import Linuxemu.RestartedCall

/-! Signal delivery and return under a view of memory: as long as no frame covers what the view
hides, frames are pushed and read alike. -/
namespace Linuxemu.Signal
open Lib Lib.Memory
variable {n a q : Nat} {after : State}

def State.under (s : State) (view : Memory → Memory) : State := { s with memory := view s.memory }

def Delivery.under (view : Memory → Memory) : Delivery → Delivery
  | .pushed s => .pushed (s.under view)
  | other => other

theorem fillSiginfo_touches (linuxSignal : Nat) (source : Option Siginfo) (enough : 128 ≤ n) :
    Touches (fun m => fillSiginfo m a linuxSignal source) a n := by
  cases source with
  | none =>
    exact (touches_storeWord (by omega) (by omega)).comp (touches_clear (by omega) (by omega))
  | some info =>
    unfold fillSiginfo
    dsimp only
    split
    · iterate 4 refine (touches_storeWord (by omega) (by omega)).comp ?_
      exact touches_clear (by omega) (by omega)
    · iterate 5 refine (touches_storeWord (by omega) (by omega)).comp ?_
      exact touches_clear (by omega) (by omega)

theorem saveVfp_touches {frame : Nat} (vfp : Vfp) (low : a ≤ frame) (high : frame + 512 ≤ a + n) :
    Touches (fun m => saveVfp m frame vfp) a n := by
  have count : (List.ofFn vfp.registers).length = 64 := List.length_ofFn
  unfold saveVfp
  iterate 4 refine (touches_storeWord (by omega) (by omega)).comp ?_
  refine (touches_storeWords (by omega) (by omega)).comp ?_
  iterate 2 refine (touches_storeWord (by omega) (by omega)).comp ?_
  exact touches_clear (by omega) (by omega)

theorem prepareContext_touches {guest : Nat} (host : Context) (oldMask : SignalSet)
    (faultAddress : UInt32) (low : a ≤ guest) (high : guest + 744 ≤ a + n) :
    Touches (fun m => prepareContext m guest host oldMask faultAddress) a n := by
  have count : (List.ofFn host.gpr).length = 16 := List.length_ofFn
  have words : [UInt32.ofBitVec oldMask.word0, UInt32.ofBitVec oldMask.word1].length = 2 := rfl
  unfold prepareContext
  refine (saveVfp_touches host.vfp (by omega) (by omega)).comp ?_
  iterate 2
    refine (touches_storeWords (by omega) (by omega)).comp ?_
    iterate 2 refine (touches_storeWord (by omega) (by omega)).comp ?_
  exact touches_clear (by omega) (by omega)

theorem writeFrame_touches (s : State) (linuxSignal : Nat) (info : Option Siginfo)
    (action : SigAction) (oldMask : SignalSet) :
    Touches (fun m => writeFrame { s with memory := m } linuxSignal info action oldMask)
      (framePointer s action).toNat (frameSize (action.has saSiginfo)) := by
  have size := contextOffset_frameSize (action.has saSiginfo)
  have pointer (m : Memory) : framePointer { s with memory := m } action = framePointer s action :=
    rfl
  simp only [writeFrame, pointer]
  generalize (framePointer s action).toNat = frame
  -- the flags are spelled out: as unfolded, the test for them still mentions the memory
  refine (touches_storeWord (w := if s.thread.onAltstack (s.context.gpr 13) then 1
    else if s.thread.altstackSize = 0 then 2 else 0) (by omega) (by omega)).comp ?_
  iterate 2 refine (touches_storeWord (by omega) (by omega)).comp ?_
  refine (prepareContext_touches s.context oldMask _ (by omega) (by omega)).comp ?_
  cases realtime : action.has saSiginfo with
  | true =>
    exact (fillSiginfo_touches linuxSignal info (by decide)).comp
      (touches_clear (by omega) (by omega))
  | false => exact touches_clear (by omega) (by omega)

section
variable {hidden : Nat → Prop} {view : Memory → Memory} {s : State} {code : Trampolines}

/-- No frame that a delivery would push covers a hidden byte. -/
def FramesClear (hidden : Nat → Prop) (s : State) : Prop :=
  ∀ n q, (framePointer s (s.actions n)).toNat ≤ q →
    q < (framePointer s (s.actions n)).toNat + frameSize ((s.actions n).has saSiginfo) → ¬hidden q

/-- Nor does the frame that a return would read. -/
def ReturnClear (hidden : Nat → Prop) (s : State) : Prop :=
  ∀ realtime q, (s.context.gpr 13).toNat ≤ q →
    q < (s.context.gpr 13).toNat + frameSize realtime → ¬hidden q

theorem pushFrame_under (masks : Masks hidden view) (clear : FramesClear hidden s) (n : Nat)
    (info : Option Siginfo) :
    pushFrame code (s.under view) n info = (pushFrame code s n info).under view := by
  have memory := masks.commutes
    (writeFrame_touches s n info (s.actions n) s.thread.deliveryMask.1) (clear n) s.memory
  unfold pushFrame State.under
  dsimp only
  exact congrArg _ memory.symm

theorem guestSignalDeliver_under (masks : Masks hidden view) (clear : FramesClear hidden s)
    (n : Nat) (info : Option Siginfo) :
    guestSignalDeliver code (s.under view) n info =
      (guestSignalDeliver code s n info).under view := by
  unfold guestSignalDeliver
  rw [pushFrame_under masks clear]
  change (if _ then _ else if n ≠ 4 ∧ n ≠ 11 ∧ s.thread.signalMask.has n = true then _
    else if (s.actions n).handler ≤ 1 then _ else _) = _
  split
  · rfl
  split
  · rfl
  split <;> rfl

theorem guestSignalReturn_under (masks : Masks hidden view) (clear : ReturnClear hidden s)
    (realtime : Bool) :
    guestSignalReturn (s.under view) realtime =
      (guestSignalReturn s realtime).map (State.under · view) := by
  have size := contextOffset_frameSize realtime
  unfold guestSignalReturn State.under
  dsimp only
  generalize place : (s.context.gpr 13).toNat + contextOffset realtime = guest
  have same : SameOn s.memory (view s.memory) guest 760 := fun q low high =>
    masks.shown s.memory q (clear realtime q (by omega) (by omega))
  have word {a : Nat} (low : guest ≤ a) (high : a + 4 ≤ guest + 760) :
      (view s.memory).word a = s.memory.word a := same.word low high
  have gpr (i : Fin 16) : (view s.memory).word (guest + 32 + 4 * i) =
      s.memory.word (guest + 32 + 4 * i) := word (by omega) (by omega)
  have vfp : restoreVfp (view s.memory) (guest + 232) s.context.vfp =
      restoreVfp s.memory (guest + 232) s.context.vfp :=
    restoreVfp_congr _ fun q low high => same q (by omega) (by omega)
  have mask : frameMask (view s.memory) guest = frameMask s.memory guest := by
    rw [frameMask, frameMask, word (by omega) (by omega), word (by omega) (by omega)]
  simp only [gpr]
  rw [vfp, mask, word (by omega) (by omega), word (by omega) (by omega), word (by omega) (by omega),
    word (by omega) (by omega)]
  split
  · rfl
  · rw [Option.map_map]
    rfl

/-! ## System calls -/

theorem rewind_under (s : State) (view : Memory → Memory) (number originalR0 : UInt32) (n : Nat) :
    (s.under view).rewind number originalR0 n = (s.rewind number originalR0 n).under view := by
  unfold State.rewind
  change (if s.restarts number n = true then _ else _) = _
  split <;> rfl

/-- Where a frame would be pushed does not depend on the registers that a restart sets. -/
theorem FramesClear.rewind (clear : FramesClear hidden s) (number originalR0 : UInt32) (n : Nat) :
    FramesClear hidden (s.rewind number originalR0 n) := by
  unfold State.rewind
  split
  · exact clear
  · exact clear

theorem guestSignalDeliverPending_under (masks : Masks hidden view) (clear : FramesClear hidden s)
    (number originalR0 : UInt32) (taken : Option (Nat × Option Siginfo)) :
    guestSignalDeliverPending code (s.under view) number originalR0 taken =
      (guestSignalDeliverPending code s number originalR0 taken).under view := by
  cases taken with
  | none => rfl
  | some taken =>
    obtain ⟨n, info⟩ := taken
    simp only [guestSignalDeliverPending, rewind_under,
      guestSignalDeliver_under masks (clear.rewind number originalR0 n)]
    cases guestSignalDeliver code (s.rewind number originalR0 n) n info <;> rfl

/-- A call whose answer shows another memory. -/
theorem linuxSyscallDispatch_under (s : State) (a : SyscallAnswer) (view view' : Memory → Memory) :
    linuxSyscallDispatch (s.under view) { a with memory := view' a.memory } =
      (linuxSyscallDispatch s a).map (State.under · view') := by
  unfold linuxSyscallDispatch State.under
  dsimp only
  split
  · rfl
  · rfl

theorem trapSystemCall_under (masks : Masks hidden view) (plain : s.context.gpr 7 ≠ 119)
    (realtime : s.context.gpr 7 ≠ 173) (a : SyscallAnswer) (taken : Option (Nat × Option Siginfo))
    (clear : ∀ d, linuxSyscallDispatch s a = some d →
      FramesClear hidden (d.setRegister 15 (s.context.gpr 15 + 4))) (before : Memory → Memory) :
    trapSystemCall code (s.under before) { a with memory := view a.memory } taken =
      (trapSystemCall code s a taken).map (State.under · view) := by
  have dispatched := linuxSyscallDispatch_under s a before view
  rw [trapSystemCall, trapSystemCall, if_neg plain, if_neg realtime, dispatched]
  refine (if_neg plain).trans ((if_neg realtime).trans ?_)
  cases call : linuxSyscallDispatch s a with
  | none => rfl
  | some d =>
    exact congrArg some (guestSignalDeliverPending_under masks (clear d call) (s.context.gpr 7)
      (s.context.gpr 0) taken)

/-! ## What is hidden stays as it is: as a view of it would show -/

theorem FramesClear.only (clear : FramesClear hidden s) (dark : hidden q) :
    FramesClear (· = q) s := by
  intro n q' low high same
  exact clear n q' low high (same ▸ dark)

theorem guestSignalDeliver_hidden (clear : FramesClear hidden s) {info : Option Siginfo}
    (pushed : guestSignalDeliver code s n info = .pushed after) (dark : hidden q) :
    after.memory q = s.memory q := by
  have under : guestSignalDeliver code (s.under (Function.update · q (s.memory q))) n info = _ :=
    guestSignalDeliver_under (.pin q (s.memory q)) (clear.only dark) n info
  rw [State.under, Function.update_eq_self, pushed] at under
  rw [Delivery.pushed.inj under]
  exact Function.update_self q _ _

theorem trapSystemCall_hidden {a : SyscallAnswer} {taken : Option (Nat × Option Siginfo)}
    (plain : s.context.gpr 7 ≠ 119) (realtime : s.context.gpr 7 ≠ 173)
    (clear : ∀ d, linuxSyscallDispatch s a = some d →
      FramesClear hidden (d.setRegister 15 (s.context.gpr 15 + 4)))
    (call : trapSystemCall code s a taken = some after) (dark : hidden q) :
    after.memory q = a.memory q := by
  have under : trapSystemCall code (s.under id)
      { a with memory := Function.update a.memory q (a.memory q) } taken = _ :=
    trapSystemCall_under (.pin q (a.memory q)) plain realtime a taken
      (fun d dispatched => (clear d dispatched).only dark) id
  rw [Function.update_eq_self, show s.under id = s from rfl, call] at under
  rw [Option.some.inj under]
  exact Function.update_self q _ _

end
end Linuxemu.Signal
