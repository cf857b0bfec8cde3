import Linuxemu.Load
import Linuxemu.PendingPost
import Linuxemu.Signal

/-! The host signal handler (`guest_signal.c`): a signal that arrives is delivered at once
or waits in the queue of the thread. -/
namespace Linuxemu.Signal
open Pending (Thread IsRealtime index enqueue capacity guestThreadSignalPending)
variable {size : Nat}
variable {xs : List (Pending.Siginfo size)}

/-- `fields` reads a host `siginfo_t`; what is left is the state the handler returns to
and the queues. -/
def hostSignalHandler (code : Trampolines) (fields : Pending.Siginfo size → Siginfo)
    (memory : Guest.Machine) (syscallActive : Bool) (s : State) (queues : Thread size)
    (hostSignal : Nat) (information : Pending.Siginfo size) : State × Thread size :=
  let linuxSignal := guestSignalFromHost hostSignal
  let pc := (s.context.gpr 15).toNat
  let posted := guestThreadSignalPending queues linuxSignal (some information)
  if linuxSignal = 0 then (s, queues)
  else if syscallActive = false ∧ memory.guestMemoryIsExecutable pc 4 = true then
    match guestSignalDeliver code s linuxSignal (some (fields information)) with
    | .pushed after => (after, { queues with signalMask := after.thread.signalMask.word })
    -- the delivery has queued the signal already
    | .pending => (s, guestThreadSignalPending posted linuxSignal (some information))
    | .refused => (s, posted)
  else (s, posted)

/-- One handler frame and the queues as they were, or no frame and one more instance of
the signal if its queue has room. -/
def OneSignal (code : Trampolines) (fields : Pending.Siginfo size → Siginfo) (s : State)
    (queues : Thread size) (n : Nat) (information : Pending.Siginfo size)
    (after : State × Thread size) : Prop :=
  (after.1 = pushFrame code s n (some (fields information)) ∧
    ∀ m xs, 1 ≤ m → queues.Queue m xs → after.2.Queue m xs) ∨
  (after.1 = s ∧ ∀ m xs, 1 ≤ m → queues.Queue m xs →
    after.2.Queue m (if m = n then enqueue m xs information else xs))

theorem guestSignalFromHost_valid {host : Nat} (mapped : guestSignalFromHost host ≠ 0) :
    1 ≤ guestSignalFromHost host ∧ guestSignalFromHost host ≤ 47 := by
  unfold guestSignalFromHost at mapped ⊢
  split at mapped
  · rename_i realtime
    rw [if_pos realtime]
    unfold sigrtmin sigrtmax at *
    omega
  · rename_i other
    rw [if_neg other]
    cases found : (List.range' 1 31).find? (linuxSignalToHost · == host) with
    | none => exact absurd (by rw [found]; rfl) mapped
    | some n =>
      have range := List.mem_range'_1.mp (List.mem_of_find?_eq_some found)
      simp only [Option.getD_some]
      omega

section
variable {queues : Thread size} {n : Nat} (information : Pending.Siginfo size)

/-- One post on every queue. -/
theorem posted_queue (valid : 1 ≤ n ∧ n ≤ 47)
    (counter : IsRealtime n → 0 ≤ queues.realtimeTail (index n)) {m : Nat} (number : 1 ≤ m)
    (queue : queues.Queue m xs) :
    (guestThreadSignalPending queues n (some information)).Queue m
      (if m = n then enqueue m xs information else xs) := by
  by_cases same : m = n
  · subst same
    rw [if_pos rfl]
    exact Pending.signalPending_queue valid queue counter information
  · rw [if_neg same]
    exact Pending.signalPending_other valid number same queue information

theorem reposted_queue (valid : 1 ≤ n ∧ n ≤ 47) (counter : IsRealtime n →
      0 ≤ queues.realtimeTail (index n) ∧ queues.realtimeTail (index n) < 2 ^ 31 - 1) {m : Nat}
    (number : 1 ≤ m) (queue : queues.Queue m xs) :
    (guestThreadSignalPending (guestThreadSignalPending queues n (some information)) n
      (some information)).Queue m
      (if m = n then enqueue m (enqueue m xs information) information else xs) := by
  have first := posted_queue information valid (fun rt => (counter rt).1)
    number queue
  have second := posted_queue information valid
    (fun rt => Pending.signalPending_counter rt (counter rt).1 (counter rt).2 information)
    number first
  split at second <;> rename_i same
  · rwa [if_pos same]
  · rwa [if_neg same]

end

theorem enqueue_length (n : Nat) (xs : List (Pending.Siginfo size))
    (information : Pending.Siginfo size) :
    (enqueue n xs information).length = if xs.length < capacity n then xs.length + 1
      else xs.length := by
  unfold enqueue
  split
  · exact List.length_append
  · rfl

/-- With room for one instance at most, the second changes nothing. -/
theorem enqueue_twice {n : Nat} (information : Pending.Siginfo size)
    (full : capacity n ≤ xs.length + 1) :
    enqueue n (enqueue n xs information) information = enqueue n xs information := by
  refine if_neg ?_
  rw [enqueue_length]
  split <;> omega

/-- The delivery's own post and that of its caller. -/
def PostedTwice (memory : Guest.Machine) (syscallActive : Bool) (s : State) (n : Nat) : Prop :=
  syscallActive = false ∧ memory.guestMemoryIsExecutable (s.context.gpr 15).toNat 4 = true ∧
    n ≠ 4 ∧ n ≠ 11 ∧ s.thread.signalMask.has n = true

section
variable {code : Trampolines} {fields : Pending.Siginfo size → Siginfo} {memory : Guest.Machine}
  {syscallActive : Bool} {s : State} {queues : Thread size} {hostSignal : Nat}
  {information : Pending.Siginfo size}

theorem handler_twice (mapped : guestSignalFromHost hostSignal ≠ 0)
    (twice : PostedTwice memory syscallActive s (guestSignalFromHost hostSignal)) :
    hostSignalHandler code fields memory syscallActive s queues hostSignal information =
      (s, guestThreadSignalPending
        (guestThreadSignalPending queues (guestSignalFromHost hostSignal) (some information))
        (guestSignalFromHost hostSignal) (some information)) := by
  obtain ⟨outside, executable, trap, fault, masked⟩ := twice
  have valid := guestSignalFromHost_valid mapped
  have pending : guestSignalDeliver code s (guestSignalFromHost hostSignal)
      (some (fields information)) = .pending := by
    unfold guestSignalDeliver linuxSignalCount
    rw [if_neg (by omega), if_pos ⟨trap, fault, masked⟩]
  unfold hostSignalHandler
  rw [if_neg mapped, if_pos ⟨outside, executable⟩, pending]

/-- Otherwise there is one frame or one post. -/
theorem handler_once (code : Trampolines) (mapped : guestSignalFromHost hostSignal ≠ 0)
    (once : ¬ PostedTwice memory syscallActive s (guestSignalFromHost hostSignal)) :
    (∃ mask, hostSignalHandler code fields memory syscallActive s queues hostSignal information =
      (pushFrame code s (guestSignalFromHost hostSignal) (some (fields information)),
        { queues with signalMask := mask })) ∨
    hostSignalHandler code fields memory syscallActive s queues hostSignal information =
      (s, guestThreadSignalPending queues (guestSignalFromHost hostSignal) (some information)) := by
  have valid := guestSignalFromHost_valid mapped
  unfold hostSignalHandler
  rw [if_neg mapped]
  by_cases direct : syscallActive = false ∧
      memory.guestMemoryIsExecutable (s.context.gpr 15).toNat 4 = true
  · rw [if_pos direct]
    unfold guestSignalDeliver linuxSignalCount
    rw [if_neg (by omega), if_neg (fun masked => once ⟨direct.1, direct.2, masked⟩)]
    split <;> rename_i outcome
    · split at outcome
      · cases outcome
      · cases outcome
        exact .inl ⟨_, rfl⟩
    · split at outcome <;> cases outcome
    · exact .inr rfl
  · rw [if_neg direct]
    exact .inr rfl

end

/-- Exactly one, unless the signal is a real-time one that the guest has masked, arrives
in guest code, and finds at most 62 of its kind waiting. -/
theorem one_signal_iff (code : Trampolines) (fields : Pending.Siginfo size → Siginfo)
    (memory : Guest.Machine) (syscallActive : Bool) (s : State) (queues : Thread size)
    (hostSignal : Nat) (information : Pending.Siginfo size) (xs : List (Pending.Siginfo size))
    (mapped : guestSignalFromHost hostSignal ≠ 0)
    (queue : queues.Queue (guestSignalFromHost hostSignal) xs)
    (counter : IsRealtime (guestSignalFromHost hostSignal) →
      0 ≤ queues.realtimeTail (index (guestSignalFromHost hostSignal)) ∧
      queues.realtimeTail (index (guestSignalFromHost hostSignal)) < 2 ^ 31 - 1) :
    OneSignal code fields s queues (guestSignalFromHost hostSignal) information
        (hostSignalHandler code fields memory syscallActive s queues hostSignal information) ↔
      ¬ (IsRealtime (guestSignalFromHost hostSignal) ∧ syscallActive = false ∧
        memory.guestMemoryIsExecutable (s.context.gpr 15).toNat 4 = true ∧
        s.thread.signalMask.has (guestSignalFromHost hostSignal) = true ∧ xs.length ≤ 62) := by
  have valid := guestSignalFromHost_valid mapped
  by_cases twice : PostedTwice memory syscallActive s (guestSignalFromHost hostSignal)
  · rw [handler_twice mapped twice]
    obtain ⟨outside, executable, trap, fault, masked⟩ := twice
    generalize guestSignalFromHost hostSignal = n at *
    have left {m : Nat} {ys : List (Pending.Siginfo size)} (number : 1 ≤ m)
        (held : queues.Queue m ys) :=
      reposted_queue information valid counter number held
    by_cases full : capacity n ≤ xs.length + 1
    · constructor
      · rintro - ⟨rt, -, -, -, few⟩
        rw [capacity, if_pos rt, Pending.realtimeQueueLength] at full
        omega
      · rintro -
        refine .inr ⟨rfl, ?_⟩
        intro m ys number held
        have both := left number held
        by_cases same : m = n
        · subst same
          rw [if_pos rfl] at both ⊢
          rwa [enqueue_twice information (held.length_eq queue ▸ full)] at both
        · rwa [if_neg same] at both ⊢
    · have rt : IsRealtime n := by
        by_contra other
        rw [capacity, if_neg other] at full
        omega
      have both := left valid.1 queue
      rw [if_pos rfl] at both
      have once : (enqueue n xs information).length = xs.length + 1 := by
        rw [enqueue_length, if_pos (by omega)]
      have count : (enqueue n (enqueue n xs information) information).length = xs.length + 2 := by
        rw [enqueue_length, once, if_pos (by omega)]
      constructor
      · rintro (⟨-, same⟩ | ⟨-, one⟩)
        · have := both.length_eq (same n xs valid.1 queue)
          omega
        · have one := one n xs valid.1 queue
          rw [if_pos rfl] at one
          have := both.length_eq one
          omega
      · intro fine
        refine absurd ⟨rt, outside, executable, masked, ?_⟩ fine
        rw [capacity, if_pos rt, Pending.realtimeQueueLength] at full
        omega
  · constructor
    · rintro - ⟨rt, outside, executable, masked, -⟩
      have bounds := rt.bounds
      exact twice ⟨outside, executable, by omega, by omega, masked⟩
    · rintro -
      obtain ⟨mask, done⟩ | done := handler_once code mapped twice
      · rw [done]
        exact .inl ⟨rfl, fun m ys _ held => held⟩
      · rw [done]
        exact .inr ⟨rfl, fun m ys number held =>
          posted_queue _ valid (fun rt => (counter rt).1) number held⟩

/-- A thread in its guest code that masks the signals 15 and 40. -/
def maskingState : State where
  context := ⟨fun _ => 0x10054, 0x10, ⟨fun _ => 0, 0, 0, 0, 0⟩, fun _ => false⟩
  thread := ⟨⟨0x4000, 0x80⟩, ⟨0, 0⟩, false, 0, 0⟩
  actions _ := ⟨0x8000, 0, 0, ⟨0, 0⟩⟩
  memory _ := 0

/-- A `siginfo_t` of three words. -/
def senderOnly (information : Pending.Siginfo 3) : Siginfo :=
  ⟨none, information 0, 0, information 1, information 2⟩

/-- Host signal 15 or 49 arrives, and nothing waits. -/
def masked (hostSignal : Nat) : State × Thread 3 :=
  hostSignalHandler ⟨0x7000, 0x7004⟩ senderOnly Guest.smallProgram false maskingState
    (Pending.fresh maskingState.thread.signalMask.word) hostSignal (fun _ => 7)

theorem one_signal_standard :
    OneSignal ⟨0x7000, 0x7004⟩ senderOnly maskingState
      (Pending.fresh maskingState.thread.signalMask.word) 15 (fun _ => 7) (masked 15) :=
  (one_signal_iff ⟨0x7000, 0x7004⟩ senderOnly Guest.smallProgram false maskingState
    (Pending.fresh maskingState.thread.signalMask.word) 15 (fun _ => 7) [] (by decide)
    (Pending.queue_other (by decide) |>.mpr rfl) (fun rt => absurd rt (by decide))).mpr
    (fun twice => absurd twice.1 (by decide))

/-- One host signal 49 is two instances of signal 40. -/
theorem masked_realtime_twice :
    (masked 49).2.Queue 40 [fun _ => 7, fun _ => 7] ∧
      ¬ OneSignal ⟨0x7000, 0x7004⟩ senderOnly maskingState
        (Pending.fresh maskingState.thread.signalMask.word) 40 (fun _ => 7) (masked 49) := by
  have empty : (Pending.fresh maskingState.thread.signalMask.word : Thread 3).Queue 40 [] :=
    (Pending.queue_realtime (by decide)).mpr ⟨0, rfl, rfl, .nil _ _ _⟩
  have two : (masked 49).2.Queue 40 [fun _ => 7, fun _ => 7] := by
    have number : guestSignalFromHost 49 = 40 := by decide
    have twice : PostedTwice Guest.smallProgram false maskingState (guestSignalFromHost 49) := by
      rw [number]
      exact ⟨rfl, by decide +kernel, by decide, by decide, by decide⟩
    have posted := reposted_queue (n := 40) (fun _ => 7) (by decide)
      (fun _ => ⟨by decide, by decide⟩) (by decide) empty
    unfold masked
    rw [handler_twice (by decide) twice, number]
    exact posted
  refine ⟨two, ?_⟩
  rintro (⟨-, same⟩ | ⟨-, one⟩)
  · exact absurd (two.length_eq (same 40 [] (by decide) empty)) (by decide)
  · exact absurd (two.length_eq (one 40 [] (by decide) empty)) (by decide)

end Linuxemu.Signal
