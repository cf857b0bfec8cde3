import Linuxemu.SignalRuns
import Linuxemu.WakePipe

/-! The temporary masks of `ppoll`, `pselect6` and `rt_sigsuspend`. The mask from before an
interrupted call is parked in `suspend_restore_mask` and comes back with the next frame, so
an interruption has to mean that a signal outside the temporary mask is pending and has a
handler. -/
namespace Linuxemu.Wait
open Signal Pending
variable {size : Nat}
variable {s t : Waiter size} {words : SignalSet} {n : Nat}

/-- A signal taken while a mask is parked has a handler. -/
def Waiter.handlesTaken (s : Waiter size) : Bool :=
  match s.stage with
  | .chosen (some n) => !s.suspendRestoreValid || decide (1 < (s.actions n).handler)
  | _ => true

/-- The handler of a blocked signal does not begin, and none of a signal of the temporary
mask between the pipe's publication and the host mask; the host's wait is interrupted only
by a handler or through the pipe; the signal taken for a parked mask has a handler. -/
def Orderly (s : Waiter size) : Action size → Prop
  | .signal host _ => s.hostMask host = false ∧
      (s.stage = .blockHost → s.words.stripped.has (guestSignalFromHost host) = false)
  | .pollReturn interrupted => interrupted = true → s.stage = .poll true ∨ 0 < s.pipe.getD 0
  | .suspendReturn errno => errno = some .eintr → s.stage = .suspended true
  | .deliver _ _ _ _ _ => s.handlesTaken = true
  | _ => True

instance (s : Waiter size) : (a : Action size) → Decidable (Orderly s a)
  | .signal _ _ => inferInstanceAs (Decidable (_ ∧ (_ → _)))
  | .pollReturn _ | .suspendReturn _ => inferInstanceAs (Decidable (_ → _))
  | .deliver _ _ _ _ _ => inferInstanceAs (Decidable (_ = true))
  | .handler _ | .setActions _ | .wake | .guest _ _ | .call _ | .proceed _ => isTrue trivial

/-! ## What each stage knows -/

/-- The pipe's write end is published. -/
def Stage.published : Stage → Bool
  | .blockHost | .setGuest | .arm | .armScan _ | .poll _ | .polled _ | .unblockHost
  | .endWrite _ => true
  | _ => false

/-- The call has not changed the mask yet. -/
structure Fresh (s : Waiter size) : Prop where
  valid : s.suspendRestoreValid = false
  before : s.before = some s.mask
  old : s.oldWords = s.mask

/-- The temporary mask is in place. -/
structure Temporary (s : Waiter size) : Prop where
  valid : s.suspendRestoreValid = false
  before : s.before = some s.oldWords
  mask : Masked s

/-- The mask is what it was before the call. -/
structure Settled (s : Waiter size) : Prop where
  valid : s.suspendRestoreValid = false
  mask : ∀ words, s.before = some words → s.mask = words

/-- The mask from before the call waits for a frame. -/
structure Parked (s : Waiter size) : Prop where
  valid : s.suspendRestoreValid = true
  before : s.before = some s.suspendRestoreMask

/-- Every handler that runs is of a signal outside the temporary mask. -/
def HandlesOutside (s : Waiter size) : Prop :=
  ∀ p ∈ s.queue.handlers, s.words.stripped.has p.signal = false

/-- A signal outside the temporary mask is pending. -/
def Outside (s : Waiter size) : Prop := s.queue.Offers s.words.stripped.word

/-- A byte in the pipe is there for a signal outside the temporary mask. -/
structure Honest (s : Waiter size) : Prop where
  handles : HandlesOutside s
  byte : 0 < s.pipe.getD 0 → Outside s

def Known (s : Waiter size) : Stage → Prop
  | .guest => s.suspendRestoreValid = false
  | .entered | .futexWait | .futexReset | .futexPublish | .futexUnlock | .futexSleep
  | .futexUnpublish | .futexEnd => s.suspendRestoreValid = false ∧ s.before = none
  | .openPipe | .suspendSet => Fresh s
  | .publishRead | .publishWrite => Fresh s ∧ s.pipe = some 0
  | .blockHost => Fresh s ∧ Honest s
  | .setGuest => Fresh s ∧ Honest s ∧ s.hostMask = linuxSetToHost s.words
  | .arm => Temporary s ∧ Honest s ∧ s.hostMask = linuxSetToHost s.words
  | .armScan n =>
    (Temporary s ∧ Honest s ∧ s.hostMask = linuxSetToHost s.words) ∧ firstRealtimeSignal ≤ n
  | .poll caught =>
    (Temporary s ∧ Honest s ∧ s.hostMask = linuxSetToHost s.words) ∧
      (caught = true → s.queue.handlers ≠ [] ∨ Outside s)
  | .polled interrupted => Temporary s ∧ (interrupted = true → Outside s)
  | .suspend => Temporary s
  | .suspended caught =>
    (Temporary s ∧ HandlesOutside s ∧ s.hostMask = linuxSetToHost s.words.stripped) ∧
      (caught = true → s.queue.handlers ≠ [] ∨ Outside s)
  | .suspendDone errno => Temporary s ∧ (errno = some .eintr → Outside s)
  | .unblockHost | .endWrite _ | .endRead | .close | .leave | .take =>
    Settled s ∨ Parked s ∧ s.queue.Offers s.queue.signalMask
  | .taking => Settled s ∨ Parked s ∧ WillTake s.queue
  | .chosen none => Settled s
  | .chosen (some _) => Settled s ∨ Parked s
  | .returned frame =>
    s.suspendRestoreValid = false ∧ ∀ words, s.before = some words → frame.getD s.mask = words

structure Undone (s : Waiter size) (stage : Stage) : Prop where
  closed : stage.published = false → s.writeFd = false
  known : Known s stage

theorem Masked.offers (masked : Masked s) (outside : Outside s) :
    s.queue.Offers s.queue.signalMask := by
  rw [masked]
  exact outside

theorem Masked.outside (masked : Masked s) (offers : s.queue.Offers s.queue.signalMask) :
    Outside s := by
  rw [masked] at offers
  exact offers

/-! ## Signals -/

/-- A signal the host does not block is outside the set its mask was made from. -/
theorem unblocked_outside {host : Nat} (mapped : guestSignalFromHost host ≠ 0) (number : host ≠ 0)
    (ill : host ≠ sigill) (segv : host ≠ sigsegv) (unblocked : linuxSetToHost words host = false) :
    words.has (guestSignalFromHost host) = false := by
  obtain ⟨range, same⟩ := guestSignalFromHost_cases mapped
  by_contra member
  have blocked := linuxSetToHost_mem (by omega) (Bool.eq_true_of_not_eq_false member)
    (by rw [same]; exact number) (by rw [same]; exact ill) (by rw [same]; exact segv)
  rw [same, unblocked] at blocked
  cases blocked

theorem stripped_has (free : words.has n = false) :
    words.stripped.has n = false := by
  unfold SignalSet.has at free ⊢
  unfold SignalSet.stripped
  revert free
  cases signalWord n <;> simp [SignalSet.word]
  intro free
  simp [free]

/-- What the thread's own code finds after handlers and other threads have run. -/
structure Later (s t : Waiter size) : Prop where
  valid : t.suspendRestoreValid = s.suspendRestoreValid
  parked : t.suspendRestoreMask = s.suspendRestoreMask
  before : t.before = s.before
  old : t.oldWords = s.oldWords
  words : t.words = s.words
  host : t.hostMask = s.hostMask
  writeFd : t.writeFd = s.writeFd
  queue : Grows s.queue t.queue

namespace Later
variable {s t : Waiter size} (later : Later s t)
include later

theorem mask : t.mask = s.mask := by
  unfold Waiter.mask
  rw [later.queue.mask]

theorem masked (h : Masked s) : Masked t := by
  unfold Masked
  rw [later.queue.mask, later.words]
  exact h

theorem outside (h : Outside s) : Outside t := by
  unfold Outside
  rw [later.words]
  exact later.queue.offers h

theorem fresh (h : Fresh s) : Fresh t := by
  refine ⟨later.valid.trans h.valid, ?_, ?_⟩
  · rw [later.before, later.mask]
    exact h.before
  · rw [later.old, later.mask]
    exact h.old

theorem temporary (h : Temporary s) : Temporary t := by
  refine ⟨later.valid.trans h.valid, ?_, later.masked h.mask⟩
  rw [later.before, later.old]
  exact h.before

theorem settled (h : Settled s) : Settled t := by
  refine ⟨later.valid.trans h.valid, fun words before => ?_⟩
  rw [later.mask]
  exact h.mask words (later.before ▸ before)

theorem isParked (h : Parked s) : Parked t := by
  refine ⟨later.valid.trans h.valid, ?_⟩
  rw [later.before, later.parked]
  exact h.before

theorem offers (h : s.queue.Offers s.queue.signalMask) : t.queue.Offers t.queue.signalMask := by
  rw [later.queue.mask]
  exact later.queue.offers h

theorem blocks (h : s.hostMask = linuxSetToHost words) :
    t.hostMask = linuxSetToHost words := later.host.trans h

end Later

/-- Where only signals outside the temporary mask can arrive. -/
def Stage.guarded : Stage → Bool
  | .blockHost | .setGuest | .arm | .armScan _ | .poll _ | .suspended _ => true
  | _ => false

/-- How the handlers and the pipe may change between two steps of the thread's own code. -/
structure Disturbed (s t : Waiter size) (stage : Stage) : Prop extends Later s t where
  pipe : s.writeFd = false → t.pipe = s.pipe
  handles : stage.guarded = true → HandlesOutside s → HandlesOutside t
  byte : HandlesOutside s → 0 < t.pipe.getD 0 → 0 < s.pipe.getD 0 ∨ Outside t
  ended : HandlesOutside s → s.queue.handlers ≠ [] → t.queue.handlers ≠ [] ∨ Outside t

namespace Disturbed
variable {s t : Waiter size} {stage : Stage}

theorem honest (h : Disturbed s t stage) (guarded : stage.guarded = true) (honest : Honest s) :
    Honest t := by
  refine ⟨h.handles guarded honest.handles, fun some => ?_⟩
  rcases h.byte honest.handles some with before | outside
  · exact h.outside (honest.byte before)
  · exact outside

theorem caught (h : Disturbed s t stage) (handles : HandlesOutside s) {caught : Bool}
    (known : caught = true → s.queue.handlers ≠ [] ∨ Outside s) :
    caught = true → t.queue.handlers ≠ [] ∨ Outside t := by
  intro yes
  rcases known yes with running | outside
  · exact h.ended handles running
  · exact .inr (h.outside outside)

theorem undone (h : Disturbed s t stage) (undone : Undone s stage) : Undone t stage := by
  obtain ⟨closed, known⟩ := undone
  refine ⟨fun unpublished => h.writeFd.trans (closed unpublished), ?_⟩
  cases stage with
  | guest => exact h.valid.trans known
  | entered | futexWait | futexReset | futexPublish | futexUnlock | futexSleep | futexUnpublish
  | futexEnd => exact ⟨h.valid.trans known.1, h.before.trans known.2⟩
  | openPipe | suspendSet => exact h.fresh known
  | publishRead | publishWrite => exact ⟨h.fresh known.1, (h.pipe (closed rfl)).trans known.2⟩
  | blockHost => exact ⟨h.fresh known.1, h.honest rfl known.2⟩
  | setGuest =>
    obtain ⟨fresh, honest, host⟩ := known
    exact ⟨h.fresh fresh, h.honest rfl honest, h.words ▸ h.blocks host⟩
  | arm =>
    obtain ⟨temporary, honest, host⟩ := known
    exact ⟨h.temporary temporary, h.honest rfl honest, h.words ▸ h.blocks host⟩
  | armScan =>
    obtain ⟨⟨temporary, honest, host⟩, le⟩ := known
    exact ⟨⟨h.temporary temporary, h.honest rfl honest, h.words ▸ h.blocks host⟩, le⟩
  | poll =>
    obtain ⟨⟨temporary, honest, host⟩, caught⟩ := known
    exact ⟨⟨h.temporary temporary, h.honest rfl honest, h.words ▸ h.blocks host⟩,
      h.caught honest.handles caught⟩
  | polled => exact ⟨h.temporary known.1, fun yes => h.outside (known.2 yes)⟩
  | suspend => exact h.temporary known
  | suspended =>
    obtain ⟨⟨temporary, handles, host⟩, caught⟩ := known
    exact ⟨⟨h.temporary temporary, h.handles rfl handles, h.words ▸ h.blocks host⟩,
      h.caught handles caught⟩
  | suspendDone => exact ⟨h.temporary known.1, fun yes => h.outside (known.2 yes)⟩
  | unblockHost | endWrite | endRead | close | leave | take =>
    exact known.imp h.settled fun parked => ⟨h.isParked parked.1, h.offers parked.2⟩
  | taking =>
    exact known.imp h.settled fun parked => ⟨h.isParked parked.1, parked.2.grows h.queue⟩
  | chosen signal =>
    cases signal with
    | none => exact h.settled known
    | some => exact known.imp h.settled h.isParked
  | returned =>
    refine ⟨h.valid.trans known.1, fun words before => ?_⟩
    rw [h.mask]
    exact known.2 words (h.before ▸ before)

end Disturbed

theorem holds_outside {p : Post size} (range : 1 ≤ p.signal ∧ p.signal ≤ 47)
    (free : s.words.stripped.has p.signal = false) (held : s.queue.holds p.signal = true) :
    Outside s :=
  ⟨p.signal, range.1, by omega, held, free⟩

/-- The last step of a handler leaves its signal in the queues. -/
theorem Handled.disturbed (base : Base s) (h : Handled s t) (stage : Stage) :
    Disturbed s t stage := by
  have grows := (stepHandler_queue base.queue base.signals).2
  cases h with
  | on p rest next top after same =>
    subst same
    refine ⟨⟨rfl, rfl, rfl, rfl, rfl, rfl, rfl, grows⟩, fun _ => rfl, ?_, fun _ => .inl, ?_⟩
    · intro _ handles q member
      rw [after] at member
      rcases List.mem_cons.mp member with rfl | member
      · exact handles p (by rw [top]; exact List.mem_cons_self)
      · exact handles q (by rw [top]; exact List.mem_cons_of_mem p member)
    · intro _ _
      rw [after]
      exact .inl (List.cons_ne_nil _ _)
  | woke p rest pipe semaphore interrupted top last same unwritten =>
    subst same
    have member : p ∈ s.queue.handlers := by
      rw [top]
      exact List.mem_cons_self
    have held : s.queue.holds p.signal = true := by
      have known := base.queue.posts p member
      simp only [PostHolds, last] at known
      exact known
    have outside (handles : HandlesOutside s) : Outside s :=
      holds_outside (base.signals p member) (handles p member) held
    refine ⟨⟨rfl, rfl, rfl, rfl, rfl, rfl, rfl, .same rfl rfl rfl rfl rfl⟩, unwritten, ?_,
      fun handles _ => .inr (outside handles), fun handles _ => .inr (outside handles)⟩
    intro _ handles q later
    exact handles q (by rw [top]; exact List.mem_cons_of_mem p later)

/-- A guarded stage lets in no signal of the temporary mask. -/
theorem guarded_outside {host : Nat} {information : Option (Pending.Siginfo size)}
    (known : Known s s.stage) (orderly : Orderly s (.signal host information))
    (guarded : s.stage.guarded = true) (mapped : guestSignalFromHost host ≠ 0) (number : host ≠ 0)
    (ill : host ≠ sigill) (segv : host ≠ sigsegv) :
    s.words.stripped.has (guestSignalFromHost host) = false := by
  obtain ⟨unblocked, early⟩ := orderly
  have blocks {words : SignalSet} (made : s.hostMask = linuxSetToHost words) :
      words.has (guestSignalFromHost host) = false :=
    unblocked_outside mapped number ill segv (made ▸ unblocked)
  cases stage : s.stage with
  | blockHost => exact early stage
  | setGuest | arm =>
    rw [stage] at known
    exact stripped_has (blocks known.2.2)
  | armScan | poll =>
    rw [stage] at known
    exact stripped_has (blocks known.1.2.2)
  | suspended =>
    rw [stage] at known
    exact blocks known.1.2.2
  | _ =>
    rw [stage] at guarded
    cases guarded

theorem post_disturbed (information : Option (Pending.Siginfo size)) (stage later : Stage)
    (outside : stage.guarded = true → s.words.stripped.has n = false) :
    Disturbed s ((s.post n information).goto later) stage := by
  refine ⟨⟨rfl, rfl, rfl, rfl, rfl, rfl, rfl, .same rfl rfl rfl rfl rfl⟩, fun _ => rfl, ?_,
    fun _ => .inl, fun _ _ => .inl (List.cons_ne_nil _ _)⟩
  intro guarded handles p member
  rcases List.mem_cons.mp member with rfl | member
  · exact outside guarded
  · exact handles p member

/-- A signal in a host wait leaves a handler to run. -/
theorem Undone.caught {stage : Stage} (undone : Undone s stage) (running : s.queue.handlers ≠ []) :
    Undone s stage.caught := by
  cases stage with
  | poll => exact ⟨undone.closed, undone.known.1, fun _ => .inl running⟩
  | suspended => exact ⟨undone.closed, undone.known.1, fun _ => .inl running⟩
  | _ => exact undone

/-! ## The thread's own steps -/

theorem stepTake_mask (q : Thread size) : (stepTake q).signalMask = q.signalMask := by
  unfold stepTake
  repeat' split
  all_goals rfl

/-- The checks of `guest_thread_signal_wait_arm` write for a signal outside the mask. -/
theorem standard_outside (masked : Masked s) (bits : BitsOk s.queue)
    (some : ¬ s.queue.pendingSignals 0 &&& ~~~ s.queue.signalMask 0 = 0) : Outside s := by
  obtain ⟨n, -, std, bit, free⟩ := lowest_candidate bits.2 some
  apply masked.outside
  refine ⟨n, std.1, Nat.le_trans std.2 (by decide), ?_, (std.masked (s := s.queue)).trans free⟩
  rw [holds_other std.not_realtime, std.pending]
  exact bit

theorem realtime_outside (masked : Masked s) (rt : IsRealtime n) (free : s.queue.masked n = false)
    (some : s.queue.realtimeHead (index n) ≠ s.queue.realtimeTail (index n)) : Outside s := by
  apply masked.outside
  exact ⟨n, rt.pos, Nat.le_trans rt.2 (by decide), (holds_realtime rt).mpr some, free⟩

/-- With the pipe just opened nothing is in it. -/
theorem Honest.opened (free : s.queue.handlers = []) (empty : s.pipe = some 0) :
    Honest s := by
  constructor
  · intro p member
    rw [free] at member
    cases member
  · intro some
    rw [empty] at some
    cases some

/-- The mask is not touched until a signal is delivered. -/
theorem Settled.took (h : Settled s) (later : Stage) :
    Settled (Waiter.goto { s with queue := stepTake s.queue } later) := by
  refine ⟨h.valid, fun words before => ?_⟩
  rw [← h.mask words before]
  simp only [Waiter.mask, Waiter.goto, stepTake_mask]

theorem Parked.took (h : Parked s) (later : Stage) :
    Parked (Waiter.goto { s with queue := stepTake s.queue } later) := ⟨h.valid, h.before⟩

/-- A byte is written only for a signal outside the mask. -/
theorem wrote_undone (temporary : Temporary s) (honest : Honest s)
    (host : s.hostMask = linuxSetToHost s.words) (outside : Outside s) (unread : Nat) :
    Undone ({ s with pipe := some (unread + 1) }.goto (.poll false)) (.poll false) :=
  ⟨nofun, ⟨⟨temporary.valid, temporary.before, temporary.mask⟩,
    ⟨honest.handles, fun _ => outside⟩, host⟩, nofun⟩

theorem Fresh.settled (h : Fresh s) : Settled s :=
  ⟨h.valid, fun _ same => Option.some.inj (h.before.symm.trans same)⟩

theorem settled_of_unasked (valid : s.suspendRestoreValid = false) (before : s.before = none) :
    Settled s :=
  ⟨valid, fun _ same => nomatch before.symm.trans same⟩

theorem proceed_undone (base : Base s) (free : s.queue.handlers = []) (undone : Undone s s.stage)
    (h : Proceeds s t) : Undone t t.stage := by
  have closed := undone.closed
  have known := undone.known
  cases h with
  | guest stage =>
    rw [stage] at closed known
    exact ⟨fun _ => closed rfl, known, rfl⟩
  | openPipe stage =>
    rw [stage] at closed known
    exact ⟨fun _ => closed rfl, ⟨known.valid, known.before, known.old⟩, rfl⟩
  | noPipe stage =>
    rw [stage] at closed known
    exact ⟨fun _ => closed rfl, .inl ⟨known.valid, known.settled.mask⟩⟩
  | publishRead stage =>
    rw [stage] at closed known
    obtain ⟨⟨valid, before, old⟩, empty⟩ := known
    exact ⟨fun _ => closed rfl, ⟨valid, before, old⟩, empty⟩
  | publishWrite stage =>
    rw [stage] at known
    obtain ⟨⟨valid, before, old⟩, empty⟩ := known
    exact ⟨nofun, ⟨valid, before, old⟩, Honest.opened free empty⟩
  | blockHost stage =>
    rw [stage] at known
    obtain ⟨⟨valid, before, old⟩, handles, byte⟩ := known
    exact ⟨nofun, ⟨valid, before, old⟩, ⟨handles, byte⟩, rfl⟩
  | notBlocked stage =>
    rw [stage] at known
    exact ⟨nofun, .inl ⟨known.1.valid, known.1.settled.mask⟩⟩
  | setGuest stage =>
    rw [stage] at known
    obtain ⟨⟨valid, before, old⟩, ⟨handles, byte⟩, host⟩ := known
    exact ⟨nofun, ⟨valid, old ▸ before, rfl⟩, ⟨handles, byte⟩, host⟩
  | noneSeen stage none =>
    rw [stage] at known
    obtain ⟨⟨valid, before, mask⟩, ⟨handles, byte⟩, host⟩ := known
    exact ⟨nofun, ⟨⟨valid, before, mask⟩, ⟨handles, byte⟩, host⟩, Nat.le_refl _⟩
  | seen stage some unread =>
    rw [stage] at known
    obtain ⟨temporary, honest, host⟩ := known
    have outside := standard_outside temporary.mask base.queue.bits some
    exact wrote_undone temporary honest host outside unread
  | scanned n stage past =>
    rw [stage] at known
    obtain ⟨⟨⟨valid, before, mask⟩, ⟨handles, byte⟩, host⟩, -⟩ := known
    exact ⟨nofun, ⟨⟨valid, before, mask⟩, ⟨handles, byte⟩, host⟩, nofun⟩
  | queued n stage small some unread =>
    rw [stage] at known
    obtain ⟨⟨temporary, honest, host⟩, le⟩ := known
    have outside := realtime_outside temporary.mask ⟨le, Nat.le_of_not_lt small⟩ some.1 some.2
    exact wrote_undone temporary honest host outside unread
  | skipped n stage small skip =>
    rw [stage] at known
    obtain ⟨⟨⟨valid, before, mask⟩, ⟨handles, byte⟩, host⟩, le⟩ := known
    exact ⟨nofun, ⟨⟨valid, before, mask⟩, ⟨handles, byte⟩, host⟩, Nat.le_succ_of_le le⟩
  | interrupted stage =>
    rw [stage] at known
    obtain ⟨⟨valid, before, mask⟩, outside⟩ := known
    exact ⟨nofun, .inr ⟨⟨rfl, before⟩, Masked.offers mask (outside rfl)⟩⟩
  | ready stage =>
    rw [stage] at known
    exact ⟨nofun, .inl ⟨rfl, fun _ same => Option.some.inj (known.1.before.symm.trans same)⟩⟩
  | suspendSet stage =>
    rw [stage] at closed known
    obtain ⟨valid, before, old⟩ := known
    exact ⟨fun _ => closed rfl, valid, old ▸ before, rfl⟩
  | suspend stage =>
    rw [stage] at closed known
    refine ⟨fun _ => closed rfl, ⟨⟨known.valid, known.before, known.mask⟩, fun p member => ?_, rfl⟩,
      nofun⟩
    rw [show _ = [] from free] at member
    cases member
  | suspendEnded stage =>
    rw [stage] at closed known
    obtain ⟨⟨valid, before, mask⟩, outside⟩ := known
    exact ⟨fun _ => closed rfl, .inr ⟨⟨rfl, before⟩, Masked.offers mask (outside rfl)⟩⟩
  | suspendFailed errno stage other =>
    rw [stage] at closed known
    exact ⟨fun _ => closed rfl, .inl ⟨known.1.valid, fun _ same =>
      Option.some.inj (known.1.before.symm.trans same)⟩⟩
  | endWrite waited stage =>
    rw [stage] at known
    exact ⟨fun _ => rfl, known.imp (fun h => ⟨h.valid, h.mask⟩) fun p =>
      ⟨⟨p.1.valid, p.1.before⟩, p.2⟩⟩
  | unblockHost stage =>
    rw [stage] at known
    exact ⟨nofun, known.imp (fun h => ⟨h.valid, h.mask⟩) fun p => ⟨⟨p.1.valid, p.1.before⟩, p.2⟩⟩
  | endRead stage | close stage | leave stage | take stage =>
    rw [stage] at closed known
    exact ⟨fun _ => closed rfl, known.imp (fun h => ⟨h.valid, h.mask⟩) fun p =>
      ⟨⟨p.1.valid, p.1.before⟩, p.2⟩⟩
  | futexWait stage | futexReset stage | futexPublish stage | futexUnlock stage | futexWoken stage
  | futexGivenUp stage | futexUnpublish stage =>
    rw [stage] at closed known
    exact ⟨fun _ => closed rfl, known⟩
  | futexRefused stage | futexEnd stage =>
    rw [stage] at closed known
    exact ⟨fun _ => closed rfl, .inl (settled_of_unasked known.1 known.2)⟩
  | given r n selected taken stage taking =>
    rw [stage] at closed known
    exact ⟨fun _ => closed rfl, known.imp (·.took _) fun p => p.1.took _⟩
  | nothing r n stage taking past =>
    rw [stage] at closed known
    refine ⟨fun _ => closed rfl, Settled.took (known.resolve_right fun p => ?_) _⟩
    have will := p.2
    simp only [WillTake, taking] at will
    obtain ⟨m, le, rt, -⟩ := will
    have := rt.2
    omega
  | taking stage on =>
    rw [stage] at closed known
    refine ⟨fun _ => closed rfl, known.imp (·.took _) fun p => ⟨p.1.took _, ?_⟩⟩
    rcases stepTake_will base.queue p.2 with ⟨_, _, _, _, gives⟩ | will
    · exact absurd gives (on _ _ _ _)
    · exact will
  | chosen stage =>
    rw [stage] at closed known
    exact ⟨fun _ => closed rfl, known.valid, known.mask⟩
  | returned frame stage =>
    rw [stage] at closed known
    exact ⟨fun _ => closed rfl, known.1⟩

theorem main_undone (base : Base s) (free : s.queue.handlers = []) {a : Action size}
    (undone : Undone s s.stage) (orderly : Orderly s a) (h : Moved s a t) :
    Undone t t.stage := by
  have closed := undone.closed
  have known := undone.known
  cases h with
  | proceed ok on => exact proceed_undone base free undone on
  | guest mask delivered stage =>
    rw [stage] at closed known
    show Undone _ s.stage
    rw [stage]
    refine ⟨fun _ => closed rfl, ?_⟩
    show (s.suspendRestoreValid && !delivered) = false
    rw [show s.suspendRestoreValid = false from known]
    rfl
  | call c stage =>
    rw [stage] at closed known
    have closed := closed rfl
    obtain ⟨valid, before⟩ := known
    cases c with
    | wait | suspend => exact ⟨fun _ => closed, valid, rfl, rfl⟩
    | refused => exact ⟨fun _ => closed, .inl ⟨valid, fun words same => Option.some.inj same⟩⟩
    | futex => exact ⟨fun _ => closed, valid, before⟩
    | other => exact ⟨fun _ => closed, .inl (settled_of_unasked valid before)⟩
  | pollReturn caught interrupted stage =>
    rw [stage] at known
    obtain ⟨⟨⟨valid, before, mask⟩, honest, host⟩, known⟩ := known
    refine ⟨nofun, ⟨valid, before, mask⟩, fun yes => ?_⟩
    rcases orderly yes with same | byte
    · rw [stage] at same
      cases same
      exact (known rfl).resolve_left fun running => running free
    · exact honest.byte byte
  | suspendReturn caught errno stage =>
    rw [stage] at closed known
    obtain ⟨⟨⟨valid, before, mask⟩, -, host⟩, known⟩ := known
    refine ⟨fun _ => closed rfl, ⟨valid, before, mask⟩, fun yes => ?_⟩
    have same := orderly yes
    rw [stage] at same
    cases same
    exact (known rfl).resolve_left fun running => running free
  | deliver n code context altstack memory info stage =>
    rw [stage] at closed known
    have handled : s.handlesTaken = true := orderly
    simp only [Waiter.handlesTaken, stage] at handled
    rcases base.delivered stage code context altstack memory info with ⟨ignored, same⟩ | ⟨_, _, same⟩
    · rw [same]
      rcases known with settled | parked
      · exact ⟨fun _ => closed rfl, settled.valid, settled.mask⟩
      · simp only [parked.valid, Bool.not_true, Bool.false_or, decide_eq_true_eq] at handled
        exact absurd handled (UInt32.not_lt.mpr ignored)
    · rw [same]
      refine ⟨fun _ => closed rfl, rfl, fun words before => ?_⟩
      rcases known with settled | parked
      · simp only [settled.valid, Bool.false_eq_true, if_false]
        exact settled.mask words before
      · simp only [parked.valid, if_true]
        exact Option.some.inj (parked.before.symm.trans before)

theorem step_undone {a : Action size} (base : Base s) (undone : Undone s s.stage)
    (orderly : Orderly s a) (step : Step s a t) :
    Undone t t.stage := by
  cases next_cases base.signals step with
  | signal host information mapped number ill segv same =>
    subst same
    have disturbed := post_disturbed information s.stage s.stage.caught fun guarded =>
      guarded_outside undone.known orderly guarded mapped number ill segv
    exact (disturbed.undone undone).caught (List.cons_ne_nil _ _)
  | handler written handled =>
    rw [(handled.frame base).1]
    exact (handled.disturbed base s.stage).undone undone
  | setActions actions same | wake same =>
    subst same
    exact Disturbed.undone (s := s)
      ⟨⟨rfl, rfl, rfl, rfl, rfl, rfl, rfl, .same rfl rfl rfl rfl rfl⟩, fun _ => rfl, fun _ => id,
        fun _ => .inl, fun _ => .inl⟩ undone
  | main _ free main => exact main_undone base free undone orderly (main_cases main)

/-- After a call with a temporary mask guest code is resumed with the mask from before, or
in a handler whose frame gives it back, and nothing stays parked. -/
theorem temporary_mask_undone {s : Waiter size} (run : Lib.Run Step Orderly Waiter.Start s)
    {frame : Option SignalSet} (returned : s.stage = .returned frame) {before : SignalSet}
    (called : s.before = some before) :
    (match frame with
      | none => s.mask = before
      | some saved => saved = before) ∧ s.suspendRestoreValid = false := by
  have both : Base s ∧ Undone s s.stage := by
    refine run.invariant (fun s => Base s ∧ Undone s s.stage) (fun s start => ?_) ?_
    · refine ⟨Base.start start, ?_⟩
      rw [start.stage]
      exact ⟨fun _ => start.pipe.2.2, start.valid⟩
    · rintro s a t ⟨base, undone⟩ orderly step
      exact ⟨base.stepped (next_cases base.signals step), step_undone base undone orderly step⟩
  have known := both.2.known
  rw [returned] at known
  refine ⟨?_, known.1⟩
  cases frame with
  | none => exact known.2 before called
  | some saved => exact known.2 before called

/-- An `rt_sigsuspend` that blocks signal 12 in place of 11 and is ended by signal 10. -/
def suspendHandled : Option (Waiter 0) :=
  quietThread.follow Orderly
    ([.guest ⟨0x400, 0⟩ false, .proceed true, .call (.suspend ⟨0x800, 0⟩)] ++
      List.replicate 2 (.proceed true) ++ handleUser ++ [.suspendReturn (some .eintr)] ++
      List.replicate 8 (.proceed true) ++
      [.deliver handlersCode handlersState.context (0, 0) handlersState.memory none])

theorem temporary_mask_undone_suspend :
    ∃ s saved, suspendHandled = some s ∧ s.stage = .returned (some saved) ∧ saved = ⟨0x400, 0⟩ ∧
      s.suspendRestoreValid = false := by
  have some : suspendHandled.isSome = true := by decide +kernel
  obtain ⟨s, same⟩ := Option.isSome_iff_exists.mp some
  have facts : suspendHandled.map (fun s => (s.stage, s.before)) =
    .some (.returned (.some ⟨0x400, 0⟩), .some ⟨0x400, 0⟩) := by decide +kernel
  simp only [same, Option.map_some, Option.some.injEq, Prod.mk.injEq] at facts
  exact ⟨s, _, same, facts.1,
    temporary_mask_undone (follow_run (.start quietThread_start) same) facts.1 facts.2⟩

/-- A `ppoll` that blocks signal 10, with the handler of signal 10 run right after the pipe
is published: the pipe interrupts the call, and there is nothing to deliver. -/
def pollBlocked : Option (Waiter 0) :=
  quietThread.follow (fun _ _ => True)
    ([.proceed true, .call (.wait ⟨0x200, 0⟩)] ++ List.replicate 3 (.proceed true) ++ handleUser ++
      List.replicate 20 (.proceed true) ++ [.pollReturn true] ++ List.replicate 59 (.proceed true))

theorem temporary_mask_left :
    ∃ s, pollBlocked = some s ∧ Lib.Run Step (fun _ _ => True) Waiter.Start s ∧
      s.stage = .returned none ∧ s.before = some ⟨0, 0⟩ ∧ s.mask = ⟨0x200, 0⟩ ∧
      s.suspendRestoreValid = true := by
  have some : pollBlocked.isSome = true := by decide +kernel
  obtain ⟨s, same⟩ := Option.isSome_iff_exists.mp some
  have facts : pollBlocked.map (fun s => (s.stage, s.before, s.mask, s.suspendRestoreValid)) =
    .some (.returned none, .some ⟨0, 0⟩, ⟨0x200, 0⟩, true) := by decide +kernel
  simp only [same, Option.map_some, Option.some.injEq, Prod.mk.injEq] at facts
  exact ⟨s, same, follow_run (.start quietThread_start) same, facts⟩

/-! ## The same waits among the other steps of a process -/

section
variable {ok : Bool} (moved : s.proceed ok = some t) (context : Context)
  (altstack : UInt32 × UInt32) (memory : Lib.Memory)
include moved

theorem proceed_waitEnd {interrupted : Bool} (stage : s.stage = .polled interrupted) :
    (t.state context altstack memory).thread =
      waitEnd (s.state context altstack memory).thread s.oldWords interrupted := by
  simp only [Waiter.proceed, stage] at moved
  cases interrupted with
  | true => cases moved; rfl
  | false => cases moved; rfl

theorem proceed_suspendEnd {errno : Option Errno} (stage : s.stage = .suspendDone errno) :
    (t.state context altstack memory).thread =
      suspendEnd (s.state context altstack memory).thread s.oldWords errno := by
  simp only [Waiter.proceed, stage] at moved
  unfold suspendEnd
  split at moved
  · cases moved
    rw [if_pos ‹_›]
    rfl
  · cases moved
    rw [if_neg ‹_›]
    rfl

end

end Linuxemu.Wait
