import Linuxemu.PendingInvariant

/-! A run of `guest_thread_signal_pending` that nothing interrupts, and what it does to the
queue of each signal. -/
namespace Linuxemu.Pending
open Lib
variable {size : Nat}
variable {s t : Thread size} {head k : Nat}

namespace Thread

/-- The copy of a whole information into a slot of a real-time queue. -/
def setRealtime (s : Thread size) (i slot : Nat) (info : Siginfo size) : Thread size :=
  { s with
    realtimeInformation := Function.update s.realtimeInformation i
      (Function.update (s.realtimeInformation i) slot info) }

def setPending (s : Thread size) (i : Nat) (info : Siginfo size) : Thread size :=
  { s with pendingInformation := Function.update s.pendingInformation i info }

end Thread

/-- The whole function; the semaphore and the pipe behind it do not touch the queues. -/
def guestThreadSignalPending (s : Thread size) (signal : Nat)
    (information : Option (Siginfo size)) : Thread size :=
  let info := information.getD fun _ => 0
  if 0 < signal ∧ signal ≤ 64 then
    if firstRealtimeSignal ≤ signal ∧ signal ≤ lastRealtimeSignal then
      let i := index signal
      let tail := s.realtimeTail i
      if wrap (tail - s.realtimeHead i) < realtimeQueueLength then
        ((s.setRealtime i (slotOf tail) info).storeTail i (wrap (tail + 1))).log
          (.accepted signal info)
      else s.log (.refused signal (s.outstanding signal))
    else
      let stored :=
        if s.pendingSignals (signalWord signal) &&& signalBit signal = 0 ∧ signal ≤ 31 then
          s.setPending (signal - 1) info
        else s
      (stored.raise signal).log (.posted signal info (s.pending signal))
  else s

/-! ## The steps of a handler, one after another -/

def Runs (s t : Thread size) : Prop := ∃ k, stepHandler^[k] s = t

theorem Runs.done (s : Thread size) : Runs s s := ⟨0, rfl⟩

theorem Runs.step {u : Thread size} (first : stepHandler s = t) (rest : Runs t u) : Runs s u := by
  obtain ⟨k, done⟩ := rest
  subst first
  exact ⟨k + 1, done⟩

section
variable {p : Post size} {rest : List (Post size)}

/-- The words from `k` on go into the slot. -/
theorem fill_runs {tail : Int}
    (copied : Copied (s.realtimeInformation (index p.signal) (slotOf tail)) p.info k)
    (after : Runs ((s.setRealtime (index p.signal) (slotOf tail) p.info).goto p rest
      (.publish tail)) t) :
    Runs (s.goto p rest (.fill tail k)) t := by
  generalize words : size - k = left
  induction left generalizing s k with
  | zero =>
    have full : ¬ k < size := by omega
    refine .step (t := s.goto p rest (.publish tail)) (dif_neg full) ?_
    rwa [← copied.done full, Thread.setRealtime, Function.update_eq_self,
      Function.update_eq_self] at after
  | succ left ih =>
    have lt : k < size := by omega
    refine .step (t := (s.storeRealtime (index p.signal) (slotOf tail) ⟨k, lt⟩
      (p.info ⟨k, lt⟩)).goto p rest (.fill tail (k + 1))) (dif_pos lt) (ih ?_ ?_ (by omega))
    · simpa only [Thread.storeRealtime, Function.update_self] using copied.word lt
    · simpa only [Thread.setRealtime, Thread.storeRealtime, Function.update_self,
        Function.update_idem] using after

theorem write_runs (copied : Copied (s.pendingInformation (p.signal - 1)) p.info k)
    (after : Runs ((s.setPending (p.signal - 1) p.info).goto p rest .merge) t) :
    Runs (s.goto p rest (.write k)) t := by
  generalize words : size - k = left
  induction left generalizing s k with
  | zero =>
    have full : ¬ k < size := by omega
    refine .step (t := s.goto p rest .merge) (dif_neg full) ?_
    rwa [← copied.done full, Thread.setPending, Function.update_eq_self] at after
  | succ left ih =>
    have lt : k < size := by omega
    refine .step (t := (s.storePending (p.signal - 1) ⟨k, lt⟩ (p.info ⟨k, lt⟩)).goto p rest
      (.write (k + 1))) (dif_pos lt) (ih ?_ ?_ (by omega))
    · simpa only [Thread.storePending, Function.update_self] using copied.word lt
    · simpa only [Thread.setPending, Thread.storePending, Function.update_idem] using after

end

/-- The handler's steps, with none of another handler between them, make the whole
function; what it interrupted is on top again. -/
theorem signalPending_runs (s : Thread size) (signal : Nat) (information : Option (Siginfo size)) :
    Runs { s with handlers := ⟨signal, information, .start⟩ :: s.handlers }
      (guestThreadSignalPending s signal information) := by
  unfold guestThreadSignalPending
  by_cases valid : 0 < signal ∧ signal ≤ 64
  · by_cases realtime : firstRealtimeSignal ≤ signal ∧ signal ≤ lastRealtimeSignal
    · refine .step ((if_pos valid).trans (if_pos realtime)) ?_
      rw [if_pos valid, if_pos realtime]
      by_cases room : wrap (s.realtimeTail (index signal) - s.realtimeHead (index signal)) <
          realtimeQueueLength
      · rw [if_pos room]
        exact .step (if_pos room) (fill_runs (.zero _ _) (.step rfl (.step rfl (.done _))))
      · rw [if_neg room]
        exact .step (if_neg room) (.step rfl (.done _))
    · refine .step ((if_pos valid).trans (if_neg realtime)) ?_
      rw [if_pos valid, if_neg realtime]
      by_cases clear : s.pendingSignals (signalWord signal) &&& signalBit signal = 0 ∧ signal ≤ 31
      · rw [if_pos clear]
        exact .step (if_pos clear) (write_runs (.zero _ _) (.step rfl (.step rfl (.done _))))
      · rw [if_neg clear]
        exact .step (if_neg clear) (.step rfl (.step rfl (.done _)))
  · refine .step (if_neg valid) ?_
    rw [if_neg valid]
    exact .done _

/-! ## What the queues hold -/

instance (n : Nat) : Decidable (IsRealtime n) := inferInstanceAs (Decidable (_ ∧ _))

/-- The queue of the signal holds these, the oldest first. -/
def Thread.Queue (s : Thread size) (n : Nat) (xs : List (Siginfo size)) : Prop :=
  if IsRealtime n then
    ∃ head : Nat, s.realtimeHead (index n) = head ∧
      s.realtimeTail (index n) = wrap (head + xs.length) ∧
      Ring.Holds (s.realtimeInformation (index n)) realtimeQueueLength head xs
  else xs = if s.pending n then [s.pendingInformation (n - 1)] else []

/-- How many instances of a signal can wait. -/
def capacity (n : Nat) : Nat := if IsRealtime n then realtimeQueueLength else 1

/-- One more instance, if there is room. -/
def enqueue (n : Nat) (xs : List (Siginfo size)) (info : Siginfo size) : List (Siginfo size) :=
  if xs.length < capacity n then xs ++ [info] else xs

section
variable {s : Thread size} {n : Nat} {xs ys : List (Siginfo size)}

theorem queue_realtime (rt : IsRealtime n) : s.Queue n xs ↔
    ∃ head : Nat, s.realtimeHead (index n) = head ∧
      s.realtimeTail (index n) = wrap (head + xs.length) ∧
      Ring.Holds (s.realtimeInformation (index n)) realtimeQueueLength head xs := by
  rw [Thread.Queue, if_pos rt]

theorem queue_other (rt : ¬ IsRealtime n) : s.Queue n xs ↔
    xs = if s.pending n then [s.pendingInformation (n - 1)] else [] := by
  rw [Thread.Queue, if_neg rt]

/-- The counters tell how many wait. -/
theorem Thread.Queue.length_eq (queue : s.Queue n xs) (other : s.Queue n ys) :
    xs.length = ys.length := by
  by_cases rt : IsRealtime n
  · obtain ⟨head, start, count, holds⟩ := (queue_realtime rt).mp queue
    obtain ⟨head', start', count', holds'⟩ := (queue_realtime rt).mp other
    have fits := holds.fits
    have fits' := holds'.fits
    unfold wrap at count count'
    unfold realtimeQueueLength at fits fits'
    omega
  · rw [(queue_other rt).mp queue, (queue_other rt).mp other]

theorem wrap_succ (count : Int) : wrap (wrap count + 1) = wrap (count + 1) := by
  unfold wrap
  omega

theorem room_iff (start : s.realtimeHead (index n) = head)
    (count : s.realtimeTail (index n) = wrap (head + xs.length)) (fits : xs.length ≤ 64) :
    wrap (s.realtimeTail (index n) - s.realtimeHead (index n)) < realtimeQueueLength ↔
      xs.length < realtimeQueueLength := by
  unfold wrap at count ⊢
  unfold realtimeQueueLength
  omega

/-- The slot a counter stands for is the one behind those that wait. -/
theorem slotOf_tail (count : s.realtimeTail (index n) = wrap (head + xs.length))
    (counter : 0 ≤ s.realtimeTail (index n)) :
    slotOf (s.realtimeTail (index n)) = (head + xs.length) % realtimeQueueLength := by
  obtain ⟨tail, same⟩ := Int.eq_ofNat_of_zero_le counter
  rw [same] at count ⊢
  rw [slotOf_natCast]
  unfold wrap at count
  unfold realtimeQueueLength
  omega

theorem signalPending_realtime (rt : IsRealtime n) (info : Siginfo size) :
    guestThreadSignalPending s n (some info) =
      if wrap (s.realtimeTail (index n) - s.realtimeHead (index n)) < realtimeQueueLength then
        ((s.setRealtime (index n) (slotOf (s.realtimeTail (index n))) info).storeTail (index n)
          (wrap (s.realtimeTail (index n) + 1))).log (.accepted n info)
      else s.log (.refused n (s.outstanding n)) := by
  have bounds := rt.bounds
  exact (if_pos (by omega)).trans (if_pos rt)

theorem signalPending_standard (std : IsStandard n) (info : Siginfo size) :
    guestThreadSignalPending s n (some info) =
      ((if s.pending n then s else s.setPending (n - 1) info).raise n).log
        (.posted n info (s.pending n)) := by
  have number : 0 < n ∧ n ≤ 64 := ⟨std.1, Nat.le_trans std.2 (by decide)⟩
  refine (if_pos number).trans ((if_neg std.not_realtime).trans ?_)
  cases pending : s.pending n with
  | false =>
    rw [if_pos ⟨(and_signalBit _ _).mpr pending, std.2⟩]
    rfl
  | true =>
    have set : ¬ (s.pendingSignals (signalWord n) &&& signalBit n = 0 ∧ n ≤ 31) := by
      rintro ⟨zero, -⟩
      exact Bool.false_ne_true (((and_signalBit _ _).mp zero).symm.trans pending)
    rw [if_neg set]
    rfl

theorem standard_of_not_realtime (valid : 1 ≤ n ∧ n ≤ 47) (rt : ¬ IsRealtime n) : IsStandard n := by
  refine ⟨valid.1, ?_⟩
  by_contra high
  exact rt ⟨Nat.not_le.mp high, valid.2⟩

/-- A post adds one instance behind those that wait. -/
theorem signalPending_queue (valid : 1 ≤ n ∧ n ≤ 47) (queue : s.Queue n xs)
    (counter : IsRealtime n → 0 ≤ s.realtimeTail (index n)) (info : Siginfo size) :
    (guestThreadSignalPending s n (some info)).Queue n (enqueue n xs info) := by
  unfold enqueue capacity
  by_cases rt : IsRealtime n
  · obtain ⟨head, start, count, holds⟩ := (queue_realtime rt).mp queue
    rw [signalPending_realtime rt, if_pos rt, queue_realtime rt]
    by_cases room : xs.length < realtimeQueueLength
    · rw [if_pos ((room_iff start count holds.fits).mpr room), if_pos room]
      have last := (holds.fill room info).publish room
      rw [Function.update_self] at last
      refine ⟨head, start, ?_, ?_⟩
      · simp only [Thread.log, Thread.storeTail, Function.update_self, List.length_append,
          List.length_singleton, count]
        exact wrap_succ _
      · simpa only [Thread.log, Thread.storeTail, Thread.setRealtime, Function.update_self,
          slotOf_tail count (counter rt)] using last
    · rw [if_neg (mt (room_iff start count holds.fits).mp room), if_neg room]
      exact ⟨head, start, count, holds⟩
  · have std := standard_of_not_realtime valid rt
    have raised (t : Thread size) : (t.raise n).pending n = true := by
      rw [pending_raise t valid.1 valid.1, decide_eq_true rfl, Bool.or_true]
    rw [signalPending_standard std, if_neg rt, queue_other rt, (queue_other rt).mp queue]
    cases s.pending n with
    | false =>
      change [info] = if ((s.setPending (n - 1) info).raise n).pending n then
        [Function.update s.pendingInformation (n - 1) info (n - 1)] else []
      rw [if_pos (raised _), Function.update_self]
    | true => exact (if_pos (raised _)).symm

/-- The counter it leaves is an index as long as it does not overflow. -/
theorem signalPending_counter (rt : IsRealtime n) (low : 0 ≤ s.realtimeTail (index n))
    (high : s.realtimeTail (index n) < 2 ^ 31 - 1) (info : Siginfo size) :
    0 ≤ (guestThreadSignalPending s n (some info)).realtimeTail (index n) := by
  rw [signalPending_realtime rt]
  split
  · simp only [Thread.log, Thread.storeTail, Function.update_self]
    rw [wrap_eq (by omega) (by omega)]
    omega
  · exact low

/-- It leaves the queue of any other signal alone. -/
theorem signalPending_other {m : Nat} (valid : 1 ≤ n ∧ n ≤ 47) (number : 1 ≤ m) (ne : m ≠ n)
    (queue : s.Queue m xs) (info : Siginfo size) :
    (guestThreadSignalPending s n (some info)).Queue m xs := by
  by_cases rt : IsRealtime n
  · rw [signalPending_realtime rt]
    split
    · by_cases realtime : IsRealtime m
      · have apart := index_ne rt realtime ne
        rw [queue_realtime realtime] at queue ⊢
        simpa only [Thread.log, Thread.storeTail, Thread.setRealtime,
          Function.update_of_ne apart] using queue
      · rw [queue_other realtime] at queue ⊢
        exact queue
    · exact queue
  · rw [signalPending_standard (standard_of_not_realtime valid rt)]
    by_cases realtime : IsRealtime m
    · rw [queue_realtime realtime] at queue ⊢
      split <;> exact queue
    · rw [queue_other realtime] at queue ⊢
      have apart : m - 1 ≠ n - 1 := by omega
      have kept (t : Thread size) : (t.raise n).pending m = t.pending m := by
        rw [pending_raise t valid.1 number, decide_eq_false ne, Bool.or_false]
      split
      · change xs = if (s.raise n).pending m then [s.pendingInformation (m - 1)] else []
        rw [kept]
        exact queue
      · change xs = if ((s.setPending (n - 1) info).raise n).pending m then
          [Function.update s.pendingInformation (n - 1) info (m - 1)] else []
        rw [kept, Function.update_of_ne apart]
        exact queue

end

end Linuxemu.Pending
