import Linuxemu.WaitSteps

/-! The wake pipe of `ppoll` and `pselect6`: while the host waits, a pending signal outside
the requested mask has left a byte in it. A signal before the pipe is published is found by
`guest_thread_signal_wait_arm`; one after it writes the byte itself. -/
namespace Linuxemu.Wait
open Signal Pending
variable {size : Nat}
variable {s t : Waiter size}

/-- From the entry of the host's `poll` or `select` up to `guest_thread_signal_wait_end`. -/
def Stage.waits : Stage → Bool
  | .poll _ | .polled _ | .unblockHost | .endWrite true => true
  | _ => false

/-- A byte is in the pipe, or a handler that will write one is running. -/
def Woken (s : Waiter size) : Prop :=
  s.queue.handlers ≠ [] ∨ ∃ unread, s.pipe = some (unread + 1)

/-- The guest mask is the requested one. -/
def Masked (s : Waiter size) : Prop := s.queue.signalMask = s.words.stripped.word

/-- What each stage of the wait knows. -/
def Armed (s : Waiter size) : Stage → Prop
  | .blockHost | .setGuest => s.writeFd = true
  | .arm => s.writeFd = true ∧ Masked s
  | .armScan n =>
    s.writeFd = true ∧ Masked s ∧ (Woken s ∨ firstRealtimeSignal ≤ n ∧
      ∀ m, 1 ≤ m → m < n → s.queue.holds m = true → s.words.stripped.has m = true)
  | .poll _ | .polled _ | .unblockHost | .endWrite true =>
    s.writeFd = true ∧ (Woken s ∨ ¬ s.queue.Offers s.words.stripped.word)
  | _ => True

/-- Whatever else changes, a thread woken up with its pipe published is armed. -/
theorem Armed.woken {stage : Stage} (armed : Armed s stage) (published : t.writeFd = s.writeFd)
    (words : t.words = s.words) (mask : t.queue.signalMask = s.queue.signalMask)
    (woken : s.writeFd = true → Woken t) :
    Armed t stage := by
  have masked : Masked s → Masked t := by
    unfold Masked
    rw [words, mask]
    exact id
  cases stage with
  | blockHost | setGuest => exact published.trans armed
  | arm => exact ⟨published.trans armed.1, masked armed.2⟩
  | armScan n => exact ⟨published.trans armed.1, masked armed.2.1, .inl (woken armed.1)⟩
  | poll | polled | unblockHost => exact ⟨published.trans armed.1, .inl (woken armed.1)⟩
  | endWrite waited =>
    cases waited with
    | true => exact ⟨published.trans armed.1, .inl (woken armed.1)⟩
    | false => trivial
  | _ => trivial

theorem Armed.caught {stage : Stage} (armed : Armed s stage) :
    Armed s stage.caught := by
  cases stage <;> exact armed

theorem Handled.woken (h : Handled s t) (published : s.writeFd = true) :
    Woken t := by
  cases h with
  | on p rest stage top after same =>
    left
    rw [same, after]
    exact List.cons_ne_nil _ _
  | woke p rest pipe semaphore interrupted top last same unwritten written =>
    right
    rw [same]
    exact written published

/-- What a handler does not touch. -/
theorem Handled.frame (base : Base s) (h : Handled s t) :
    t.stage = s.stage ∧ t.writeFd = s.writeFd ∧ t.words = s.words ∧
      t.queue.signalMask = s.queue.signalMask := by
  cases h with
  | on p rest stage top after same =>
    subst same
    exact ⟨rfl, rfl, rfl, (stepHandler_queue base.queue base.signals).2.mask⟩
  | woke p rest pipe semaphore interrupted top last same =>
    subst same
    exact ⟨rfl, rfl, rfl, rfl⟩

/-! ## The thread's own steps -/

/-- The last check of `guest_thread_signal_wait_arm` leaves nothing unseen. -/
theorem not_offers {q : Thread size} {words : SignalSet} (bits : BitsOk q)
    (seen : ∀ m, 1 ≤ m → m ≤ 47 → q.holds m = true → words.has m = true) :
    ¬ q.Offers words.word := by
  rintro ⟨n, pos, le, held, free⟩
  have small : n ≤ 47 := by
    by_contra high
    have rt : ¬ IsRealtime n := fun rt => high rt.2
    have word : signalWord n = 1 := by
      unfold signalWord
      omega
    rw [holds_other rt, Thread.pending, word, bits.1] at held
    simp at held
  have masked : inMask words.word n = true := seen n pos small held
  rw [free] at masked
  cases masked

/-- `guest_thread_signal_wait_arm` has looked at the standard signals. -/
theorem standard_seen (masked : Masked s)
    (none : s.queue.pendingSignals 0 &&& ~~~ s.queue.signalMask 0 = 0) :
    ∀ m, 1 ≤ m → m < firstRealtimeSignal → s.queue.holds m = true →
      s.words.stripped.has m = true := by
  intro m pos lt held
  have std : IsStandard m := ⟨pos, Nat.le_of_lt_succ lt⟩
  rw [holds_other std.not_realtime, std.pending] at held
  have small : m - 1 < 32 := by
    have := std.2
    omega
  have bit := congrArg (fun w => w.getLsbD (m - 1)) none
  simp only [BitVec.getLsbD_and, BitVec.getLsbD_not, held, small, decide_true, Bool.true_and] at bit
  have has : s.queue.masked m = true := std.masked.trans (by simpa using bit)
  unfold Thread.masked at has
  rw [masked] at has
  exact has

/-- The scan passes a real-time queue by that is masked or empty. -/
theorem realtime_seen {n : Nat} (masked : Masked s) (rt : IsRealtime n)
    (skip : ¬ (s.queue.masked n = false ∧
      s.queue.realtimeHead (index n) ≠ s.queue.realtimeTail (index n)))
    (held : s.queue.holds n = true) : s.words.stripped.has n = true := by
  have has : s.queue.masked n = true := by
    by_contra free
    exact skip ⟨Bool.eq_false_iff.mpr free, (holds_realtime rt).mp held⟩
  unfold Thread.masked at has
  rw [masked] at has
  exact has

section
variable (base : Base s) (armed : Armed s s.stage)
include base armed

theorem proceed_armed (h : Proceeds s t) : Armed t t.stage := by
  cases h with
  | publishWrite => exact rfl
  | blockHost stage =>
    rw [stage] at armed
    exact armed
  | setGuest stage =>
    rw [stage] at armed
    exact ⟨armed, rfl⟩
  | noneSeen stage none =>
    rw [stage] at armed
    exact ⟨armed.1, armed.2, .inr ⟨Nat.le_refl _, standard_seen armed.2 none⟩⟩
  | seen stage some unread =>
    rw [stage] at armed
    exact ⟨armed.1, .inl (.inr ⟨unread, rfl⟩)⟩
  | scanned n stage past =>
    rw [stage] at armed
    obtain ⟨published, masked, seen⟩ := armed
    refine ⟨published, seen.imp id fun seen => not_offers base.queue.bits fun m pos le =>
      seen.2 m pos ?_⟩
    simp only [lastRealtimeSignal] at past
    omega
  | queued n stage small some unread =>
    rw [stage] at armed
    exact ⟨armed.1, .inl (.inr ⟨unread, rfl⟩)⟩
  | skipped n stage small skip =>
    rw [stage] at armed
    obtain ⟨published, masked, seen⟩ := armed
    refine ⟨published, masked, seen.imp id fun seen => ⟨Nat.le_succ_of_le seen.1, ?_⟩⟩
    intro m pos lt held
    rcases Nat.lt_or_eq_of_le (Nat.le_of_lt_succ lt) with lt | rfl
    · exact seen.2 m pos lt held
    · exact realtime_seen masked ⟨seen.1, Nat.le_of_not_lt small⟩ skip held
  | interrupted stage | ready stage | unblockHost stage =>
    rw [stage] at armed
    exact armed
  | _ => trivial

theorem main_armed {a : Action size} (h : Moved s a t) : Armed t t.stage := by
  cases h with
  | proceed ok on => exact proceed_armed base armed on
  | guest mask delivered stage =>
    show Armed _ s.stage
    rw [stage]
    trivial
  | call c => cases c <;> trivial
  | pollReturn caught interrupted stage =>
    rw [stage] at armed
    exact armed
  | suspendReturn => trivial
  | deliver n code context altstack memory info stage =>
    obtain ⟨-, same⟩ | ⟨_, _, same⟩ := base.delivered stage code context altstack memory info
    · rw [same]
      trivial
    · rw [same]
      trivial

theorem step_armed {a : Action size} (step : Step s a t) : Armed t t.stage := by
  cases next_cases base.signals step with
  | signal host information mapped number ill segv same =>
    subst same
    refine Armed.caught (Armed.woken armed rfl rfl rfl fun _ => .inl ?_)
    exact List.cons_ne_nil _ _
  | handler written handled =>
    obtain ⟨stage, published, words, mask⟩ := handled.frame base
    rw [stage]
    exact armed.woken published words mask handled.woken
  | setActions actions same | wake same =>
    subst same
    exact armed
  | main _ free main => exact main_armed base armed (main_cases main)

end

/-- While `ppoll` or `pselect6` waits in the host, a signal outside the requested mask that
is pending has left a byte in the wake pipe. -/
theorem wake_pipe_not_lost {s : Waiter size}
    (run : Lib.Run Step (fun _ _ => True) Waiter.Start s) (waits : s.stage.waits = true)
    (free : s.queue.handlers = []) (pending : s.queue.Offers s.words.stripped.word) :
    ∃ unread, s.pipe = some (unread + 1) := by
  have both : Base s ∧ Armed s s.stage := by
    refine run.invariant (fun s => Base s ∧ Armed s s.stage) (fun s start => ?_) ?_
    · refine ⟨Base.start start, ?_⟩
      rw [start.stage]
      trivial
    · rintro s a t ⟨base, armed⟩ - step
      exact ⟨base.stepped (next_cases base.signals step), step_armed base armed step⟩
  have armed := both.2
  have woken : Woken s := by
    cases stage : s.stage with
    | poll | polled | unblockHost =>
      rw [stage] at armed
      exact armed.2.resolve_right fun none => none pending
    | endWrite waited =>
      cases waited with
      | true =>
        rw [stage] at armed
        exact armed.2.resolve_right fun none => none pending
      | false =>
        rw [stage] at waits
        cases waits
    | _ =>
      rw [stage] at waits
      cases waits
  exact woken.resolve_left fun some => some free

/-- A `ppoll` that blocks nothing, with signal 10 before the host mask changes. -/
def pollSignalled : Option (Waiter 0) :=
  quietThread.follow (fun _ _ => True)
    ([.proceed true, .call (.wait ⟨0, 0⟩)] ++ List.replicate 3 (.proceed true) ++ handleUser ++
      List.replicate 3 (.proceed true))

theorem wake_pipe_not_lost_signalled :
    ∃ s, pollSignalled = some s ∧ s.stage = .poll false ∧ ∃ unread, s.pipe = some (unread + 1) := by
  have some : pollSignalled.isSome = true := by decide +kernel
  obtain ⟨s, same⟩ := Option.isSome_iff_exists.mp some
  have stage : pollSignalled.map (·.stage) = .some (.poll false) := by decide +kernel
  have free : pollSignalled.map (·.queue.handlers.isEmpty) = .some true := by decide +kernel
  have held : pollSignalled.map (fun s => s.queue.holds 10 && !s.words.stripped.has 10) =
    .some true := by decide +kernel
  simp only [same, Option.map_some, Option.some.injEq, Bool.and_eq_true, Bool.not_eq_true'] at stage free held
  refine ⟨s, same, stage, wake_pipe_not_lost (follow_run (.start quietThread_start) same) ?_ ?_ ?_⟩
  · rw [stage]
    rfl
  · exact List.isEmpty_iff.mp free
  · exact ⟨10, by decide, by decide, held.1, held.2⟩

end Linuxemu.Wait
