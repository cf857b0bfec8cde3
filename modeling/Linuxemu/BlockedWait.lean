import Linuxemu.WakePipe

/-! Futex waits and `rt_sigsuspend`: neither looks at the pending queues before it sleeps,
so both sleep over a signal recorded earlier in the call. With no such signal a handler
ends the wait: it posts the semaphore, or makes `sigsuspend` fail. -/
namespace Linuxemu.Wait
open Signal Pending
variable {size : Nat}
variable {s t : Waiter size} {a : Action size} {stage : Stage}

/-- Asleep in the host: in `sem_wait` or `sem_timedwait` on an empty semaphore, or in
`sigsuspend` with no signal caught. -/
def Blocked (s : Waiter size) : Prop :=
  s.queue.handlers = [] ∧ (s.stage = .futexSleep ∧ s.semaphore = 0 ∨ s.stage = .suspended false)

/-- The queues hold a signal outside the thread's mask. -/
def Deliverable (s : Waiter size) : Prop := s.queue.Offers s.queue.signalMask

instance (s : Waiter size) : Decidable (Deliverable s) := inferInstanceAs (Decidable (Thread.Offers _ _))

/-- Nothing is deliverable when the semaphore is published or `sigsuspend` entered. -/
def SleepsClear (s : Waiter size) : Action size → Prop
  | .proceed _ => s.stage = .futexPublish ∨ s.stage = .suspend → ¬ Deliverable s
  | _ => True

instance (s : Waiter size) : (a : Action size) → Decidable (SleepsClear s a)
  | .proceed _ => inferInstanceAs (Decidable (_ → ¬ _))
  | .signal _ _ | .handler _ | .setActions _ | .wake | .guest _ _ | .call _ | .pollReturn _
  | .suspendReturn _ | .deliver _ _ _ _ _ => isTrue trivial

/-- What a sleeping thread has behind it. -/
def Asleep (s : Waiter size) : Stage → Prop
  | .futexUnlock | .futexSleep =>
    s.futexSemaphore = true ∧ (0 < s.semaphore ∨ s.queue.handlers ≠ [] ∨ ¬ Deliverable s)
  | .suspended false => s.queue.handlers = [] ∧ ¬ Deliverable s
  | _ => True

theorem Asleep.caught (asleep : Asleep s stage) (futex : t.futexSemaphore = s.futexSemaphore)
    (woken : s.futexSemaphore = true → 0 < t.semaphore ∨ t.queue.handlers ≠ []) :
    Asleep t stage.caught := by
  cases stage with
  | futexUnlock | futexSleep =>
    refine ⟨futex.trans asleep.1, ?_⟩
    rcases woken asleep.1 with some | some
    · exact .inl some
    · exact .inr (.inl some)
  | _ => trivial

/-- A handler ends with a post, so it leaves no sleep behind. -/
theorem Handled.asleep (h : Handled s t) (asleep : Asleep s stage) : Asleep t stage := by
  have some : s.queue.handlers ≠ [] := by
    cases h with
    | on p rest _ top => simp [top]
    | woke p rest _ _ _ top => simp [top]
  have after : t.futexSemaphore = s.futexSemaphore ∧
      (s.futexSemaphore = true → 0 < t.semaphore ∨ t.queue.handlers ≠ []) := by
    cases h with
    | on p rest next top after same =>
      subst same
      exact ⟨rfl, fun _ => .inr (by rw [after]; exact List.cons_ne_nil _ _)⟩
    | woke p rest pipe semaphore interrupted top last same unwritten written posted =>
      subst same
      exact ⟨rfl, fun published => .inl (posted published)⟩
  cases stage with
  | futexUnlock | futexSleep => exact Asleep.caught asleep after.1 after.2
  | suspended caught =>
    cases caught with
    | false => exact absurd asleep.1 some
    | true => trivial
  | _ => trivial

theorem main_asleep (base : Base s) (free : s.queue.handlers = []) (asleep : Asleep s s.stage)
    (clear : SleepsClear s a) (h : Moved s a t) :
    Asleep t t.stage := by
  cases h with
  | proceed ok on =>
    cases on with
    | futexPublish stage => exact ⟨rfl, .inr (.inr (clear (.inl stage)))⟩
    | futexUnlock stage =>
      rw [stage] at asleep
      exact asleep
    | suspend stage => exact ⟨free, clear (.inr stage)⟩
    | _ => trivial
  | guest mask delivered stage =>
    show Asleep _ s.stage
    rw [stage]
    trivial
  | call c => cases c <;> trivial
  | pollReturn | suspendReturn => trivial
  | deliver n code context altstack memory info stage =>
    obtain ⟨-, same⟩ | ⟨_, _, same⟩ := base.delivered stage code context altstack memory info
    · rw [same]
      trivial
    · rw [same]
      trivial

theorem step_asleep (base : Base s) (asleep : Asleep s s.stage) (clear : SleepsClear s a)
    (step : Step s a t) :
    Asleep t t.stage := by
  cases next_cases base.signals step with
  | signal host information mapped number ill segv same =>
    subst same
    exact Asleep.caught asleep rfl fun _ => .inr (List.cons_ne_nil _ _)
  | handler written handled =>
    rw [(handled.frame base).1]
    exact handled.asleep asleep
  | setActions actions same =>
    subst same
    exact asleep
  | wake same =>
    subst same
    show Asleep _ s.stage
    cases stage : s.stage with
    | futexUnlock | futexSleep =>
      rw [stage] at asleep
      exact ⟨asleep.1, .inl (Nat.succ_pos _)⟩
    | suspended caught =>
      rw [stage] at asleep
      cases caught <;> exact asleep
    | _ => trivial
  | main _ free main => exact main_asleep base free asleep clear (main_cases main)

/-- In a run in which no deliverable signal is pending at the moment a futex wait is
published or `sigsuspend` entered, no thread sleeps over one. -/
theorem sleeps_over_nothing {s : Waiter size} (run : Lib.Run Step SleepsClear Waiter.Start s)
    (blocked : Blocked s) : ¬ Deliverable s := by
  have both : Base s ∧ Asleep s s.stage := by
    refine run.invariant (fun s => Base s ∧ Asleep s s.stage) (fun s start => ?_) ?_
    · refine ⟨Base.start start, ?_⟩
      rw [start.stage]
      trivial
    · rintro s a t ⟨base, asleep⟩ clear step
      exact ⟨base.stepped (next_cases base.signals step), step_asleep base asleep clear step⟩
  have asleep := both.2
  obtain ⟨free, ⟨stage, zero⟩ | stage⟩ := blocked
  · rw [stage] at asleep
    rcases asleep.2 with some | some | none
    · omega
    · exact absurd free some
    · exact none
  · rw [stage] at asleep
    exact asleep.2

/-- A futex wait begun with nothing pending. -/
def futexAsleep : Option (Waiter 0) :=
  quietThread.follow SleepsClear ([.proceed true, .call .futex] ++ List.replicate 4 (.proceed true))

theorem sleeps_over_nothing_futex :
    ∃ s, futexAsleep = some s ∧ Blocked s ∧ ¬ Deliverable s := by
  have some : futexAsleep.isSome = true := by decide +kernel
  obtain ⟨s, same⟩ := Option.isSome_iff_exists.mp some
  have facts : futexAsleep.map (fun s => (s.queue.handlers.isEmpty, s.stage, s.semaphore)) =
    .some (true, .futexSleep, 0) := by decide +kernel
  simp only [same, Option.map_some, Option.some.injEq, Prod.mk.injEq, List.isEmpty_iff] at facts
  have blocked : Blocked s := ⟨facts.1, .inl facts.2⟩
  exact ⟨s, same, blocked,
    sleeps_over_nothing (follow_run (.start quietThread_start) same) blocked⟩

/-- Signal 10 in the call, before the wait is published. -/
def futexLate : Option (Waiter 0) :=
  quietThread.follow (fun _ _ => True)
    ([.proceed true, .call .futex] ++ handleUser ++ List.replicate 4 (.proceed true))

def suspendLate : Option (Waiter 0) :=
  quietThread.follow (fun _ _ => True)
    ([.proceed true, .call (.suspend ⟨0, 0⟩)] ++ handleUser ++ List.replicate 2 (.proceed true))

theorem sleeps_over_signal :
    (∃ s, futexLate = some s ∧ Lib.Run Step (fun _ _ => True) Waiter.Start s ∧ Blocked s ∧
      s.stage = .futexSleep ∧ Deliverable s) ∧
    ∃ s, suspendLate = some s ∧ Lib.Run Step (fun _ _ => True) Waiter.Start s ∧ Blocked s ∧
      s.stage = .suspended false ∧ Deliverable s := by
  constructor
  · have some : futexLate.isSome = true := by decide +kernel
    obtain ⟨s, same⟩ := Option.isSome_iff_exists.mp some
    have facts : futexLate.map (fun s => (s.queue.handlers.isEmpty, s.stage, s.semaphore,
      decide (Deliverable s))) = .some (true, .futexSleep, 0, true) := by decide +kernel
    simp only [same, Option.map_some, Option.some.injEq, Prod.mk.injEq, List.isEmpty_iff,
      decide_eq_true_eq] at facts
    obtain ⟨free, stage, zero, deliverable⟩ := facts
    exact ⟨s, same, follow_run (.start quietThread_start) same, ⟨free, .inl ⟨stage, zero⟩⟩, stage,
      deliverable⟩
  · have some : suspendLate.isSome = true := by decide +kernel
    obtain ⟨s, same⟩ := Option.isSome_iff_exists.mp some
    have facts : suspendLate.map (fun s => (s.queue.handlers.isEmpty, s.stage,
      decide (Deliverable s))) = .some (true, .suspended false, true) := by decide +kernel
    simp only [same, Option.map_some, Option.some.injEq, Prod.mk.injEq, List.isEmpty_iff,
      decide_eq_true_eq] at facts
    obtain ⟨free, stage, deliverable⟩ := facts
    exact ⟨s, same, follow_run (.start quietThread_start) same, ⟨free, .inr stage⟩, stage, deliverable⟩

end Linuxemu.Wait
