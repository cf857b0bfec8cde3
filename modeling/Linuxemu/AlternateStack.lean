import Linuxemu.SignalFrames

/-! The alternate signal stack (`guest_signal.c`): how a thread sets it, and where the
frames of the handlers that run on it lie. -/
namespace Linuxemu.Signal
open Lib

/-- The stack pointer of the interrupted code is on the alternate stack. -/
def State.onAltstack (s : State) : Bool := s.thread.onAltstack (s.context.gpr 13)

/-- The stack in force, for the caller. -/
def State.writeOldStack (s : State) (guestOldStack : UInt32) : State :=
  let old := [s.thread.altstackPointer,
    if s.onAltstack then 1 else if s.thread.altstackSize = 0 then 2 else 0,
    s.thread.altstackSize]
  if guestOldStack ≠ 0 then { s with memory := s.memory.storeWords guestOldStack.toNat old }
  else s

/-- `sigaltstack`; the request is read after the stack in force has been written. -/
def guestSignalAltstack (s : State) (guestStack guestOldStack : UInt32) : Option Errno × State :=
  let onStack := s.onAltstack
  let s := s.writeOldStack guestOldStack
  let requested (i : Nat) := s.memory.word (guestStack.toNat + 4 * i)
  if guestStack = 0 then (none, s)
  else if onStack then (some .eperm, s)
  else if requested 1 &&& ~~~ 2 ≠ 0 then (some .einval, s)
  else if requested 1 &&& 2 ≠ 0 then (none, { s with thread := s.thread.setAltstack 0 0 })
  else if requested 2 < 2048 then (some .enomem, s)
  else (none, { s with thread := s.thread.setAltstack (requested 0) (requested 2) })

/-- A stack that is set has room for a frame of either kind. -/
theorem altstack_size {s t : State} {guestStack guestOldStack : UInt32}
    (set : guestSignalAltstack s guestStack guestOldStack = (none, t)) (asked : guestStack ≠ 0)
    (enabled : t.thread.altstackSize ≠ 0) : 2048 ≤ t.thread.altstackSize.toNat := by
  unfold guestSignalAltstack at set
  generalize s.writeOldStack guestOldStack = u at set
  rw [if_neg asked] at set
  split at set
  · cases set
  split at set
  · cases set
  split at set
  · cases set
    exact absurd rfl enabled
  split at set
  · cases set
  · rename_i large
    cases set
    exact Nat.not_lt.mp large

/-! ## Where a frame lies -/

section
variable {s : State} {action : SigAction}

/-- From the top of the alternate stack down. -/
theorem framePointer_top (switches : switchesStack s action = true)
    (plain : s.thread.altstackPointer.toNat + s.thread.altstackSize.toNat < 2 ^ 32)
    (large : 2048 ≤ s.thread.altstackSize.toNat) :
    (framePointer s action).toNat =
      (s.thread.altstackPointer.toNat + s.thread.altstackSize.toNat -
        frameSize (action.has saSiginfo)) / 8 * 8 := by
  have fits := frameSize_le (action.has saSiginfo)
  have small := frameSize_toNat (action.has saSiginfo)
  have top : (s.thread.altstackPointer + s.thread.altstackSize).toNat =
      s.thread.altstackPointer.toNat + s.thread.altstackSize.toNat := by
    rw [UInt32.toNat_add]
    omega
  simp only [framePointer, switches, if_true, align_toNat]
  rw [UInt32.toNat_sub_of_le _ _ (UInt32.le_iff_toNat_le.mpr (by omega)), top, small]

end

/-- The range lies on the alternate stack, below the interrupted stack pointer if that is
on it too. -/
structure State.Stays (s : State) (frame length : Nat) : Prop where
  low : s.thread.altstackPointer.toNat ≤ frame
  high : frame + length ≤ s.thread.altstackPointer.toNat + s.thread.altstackSize.toNat
  below : s.onAltstack = true → frame + length ≤ (s.context.gpr 13).toNat

theorem onAltstack_bounds {s : State} (inside : s.onAltstack = true)
    (plain : s.thread.altstackPointer.toNat + s.thread.altstackSize.toNat < 2 ^ 32) :
    s.thread.altstackPointer.toNat ≤ (s.context.gpr 13).toNat ∧
      (s.context.gpr 13).toNat <
        s.thread.altstackPointer.toNat + s.thread.altstackSize.toNat := by
  unfold State.onAltstack ThreadSignals.onAltstack at inside
  simp only [Bool.and_eq_true, decide_eq_true_eq, UInt32.le_iff_toNat_le, UInt32.lt_iff_toNat_lt,
    UInt32.toNat_add] at inside
  omega

theorem switchesStack_eq {s : State} (action : SigAction) (enabled : s.thread.altstackSize ≠ 0) :
    switchesStack s action = (action.has saOnstack && !s.onAltstack) := by
  have set : (s.thread.altstackSize != 0) = true := bne_iff_ne.mpr enabled
  rw [switchesStack, set, Bool.and_true, State.onAltstack]

/-- A frame stays on the alternate stack exactly when the interrupted stack pointer is off
it, or has the reserve and the frame between it and the stack's lowest aligned address. -/
theorem altstack_frame_iff (code : Trampolines) {before set s after : State}
    {guestStack guestOldStack : UInt32} {linuxSignal : Nat} {info : Option Siginfo}
    (call : guestSignalAltstack before guestStack guestOldStack = (none, set))
    (asked : guestStack ≠ 0) (enabled : set.thread.altstackSize ≠ 0)
    (inForce : s.thread.altstackPointer = set.thread.altstackPointer ∧
      s.thread.altstackSize = set.thread.altstackSize)
    (plain : s.thread.altstackPointer.toNat + s.thread.altstackSize.toNat < 2 ^ 32)
    (delivered : guestSignalDeliver code s linuxSignal info = .pushed after)
    (onto : (s.actions linuxSignal).has saOnstack = true ∨ s.onAltstack = true) :
    s.Stays (after.context.gpr 13).toNat (frameSize ((s.actions linuxSignal).has saSiginfo)) ↔
      (s.onAltstack = true →
        (s.thread.altstackPointer.toNat + 7) / 8 * 8 + 8192 +
          frameSize ((s.actions linuxSignal).has saSiginfo) ≤ (s.context.gpr 13).toNat) := by
  have large := altstack_size call asked enabled
  rw [← inForce.2] at large enabled
  obtain ⟨rfl, -, -⟩ := pushed_cases delivered
  have place : (pushFrame code s linuxSignal info).context.gpr 13 =
      framePointer s (s.actions linuxSignal) := by
    simp [pushFrame, handlerRegisters]
  rw [place]
  have fits := frameSize_le ((s.actions linuxSignal).has saSiginfo)
  have bound := (s.context.gpr 13).toNat_lt
  cases inside : s.onAltstack with
  | false =>
    have switches : switchesStack s (s.actions linuxSignal) = true := by
      rw [inside] at onto
      rw [switchesStack_eq _ (enabled), inside, onto.resolve_right Bool.false_ne_true]
      rfl
    have top := framePointer_top switches plain large
    constructor
    · intro _ impossible
      cases impossible
    · intro _
      refine ⟨by omega, by omega, ?_⟩
      intro impossible
      rw [inside] at impossible
      cases impossible
  | true =>
    have interrupted : switchesStack s (s.actions linuxSignal) = false := by
      rw [switchesStack_eq _ (enabled), inside, Bool.not_true, Bool.and_false]
    have place := framePointer_reserve interrupted
    obtain ⟨low, high⟩ := onAltstack_bounds inside plain
    constructor
    · rintro ⟨above, -, below⟩ -
      have below := below inside
      omega
    · intro room
      have room := room rfl
      refine ⟨by omega, by omega, ?_⟩
      intro _
      omega

/-- A thread about to ask for a stack of this size at 0x20000. -/
def askingState (size : UInt32) : State :=
  { handlersState with memory := Memory.storeWords (fun _ => 0) 0x3000 [0x20000, 0, size] }

/-- The same thread in a handler on that stack, 0x100 bytes below its top. -/
def onStackState (size : UInt32) : State :=
  { (guestSignalAltstack (askingState size) 0x3000 0).2 with
    context := { handlersState.context with gpr := fun _ => 0x20000 + size - 0x100 } }

/-- With 16 KiB a second handler fits below the first. -/
theorem altstack_frame_second :
    (onStackState 0x4000).Stays
      ((pushFrame handlersCode (onStackState 0x4000) 12 none).context.gpr 13).toNat 888 := by
  have call : guestSignalAltstack (askingState 0x4000) 0x3000 0 =
      (none, (guestSignalAltstack (askingState 0x4000) 0x3000 0).2) :=
    Prod.ext (by decide +kernel) rfl
  have delivered : guestSignalDeliver handlersCode (onStackState 0x4000) 12 none =
      .pushed (pushFrame handlersCode (onStackState 0x4000) 12 none) :=
    deliver_pushes (by decide) (by decide +kernel) (by decide +kernel)
  exact (altstack_frame_iff (s := onStackState 0x4000) handlersCode call (by decide)
    (by decide +kernel) ⟨rfl, rfl⟩ (by decide +kernel) delivered
    (.inr (by decide +kernel))).mpr (fun _ => by decide +kernel)

/-- With the usual 8 KiB it lies below the stack. -/
theorem second_frame_leaves :
    (guestSignalAltstack (askingState 0x2000) 0x3000 0).1 = none ∧
      (onStackState 0x2000).onAltstack = true ∧
      guestSignalDeliver handlersCode (onStackState 0x2000) 12 none =
        .pushed (pushFrame handlersCode (onStackState 0x2000) 12 none) ∧
      ((pushFrame handlersCode (onStackState 0x2000) 12 none).context.gpr 13).toNat + 888 ≤
        (onStackState 0x2000).thread.altstackPointer.toNat ∧
      ¬ (onStackState 0x2000).Stays
        ((pushFrame handlersCode (onStackState 0x2000) 12 none).context.gpr 13).toNat 888 := by
  have below : ((pushFrame handlersCode (onStackState 0x2000) 12 none).context.gpr 13).toNat + 888 ≤
      (onStackState 0x2000).thread.altstackPointer.toNat := by decide +kernel
  refine ⟨by decide +kernel, by decide +kernel,
    deliver_pushes (by decide) (by decide +kernel) (by decide +kernel), below, ?_⟩
  intro stays
  have low := stays.low
  omega

end Linuxemu.Signal
