import Linuxemu.QueueCounters

/-! Where an instance of a real-time signal is kept. After 2^31 instances the counters of a ring
are negative, and so is their remainder by its length. -/
namespace Linuxemu.Pending
variable {size : Nat}
variable {s : Thread 1} {number : Nat}

/-! ## Slots -/

/-- The step that comes next takes `counter % REALTIME_QUEUE_LENGTH` for the slot of an instance of
signal `n`; `number` were there before it. -/
inductive Indexes (s : Thread size) : Nat → Int → Nat → Prop
  | store {p : Post size} {rest : List (Post size)} {tail : Int} {k : Nat}
      (first : s.handlers = p :: rest) (stage : p.stage = .fill tail k) (more : k < size) :
      Indexes s p.signal tail (s.accepted p.signal).length
  | load {r : Request} {n : Nat} {head : Int} {k : Nat} {selected : Siginfo size}
      (free : s.handlers = []) (take : s.take = .read r n head k selected)
      (more : r.information = true ∧ k < size) :
      Indexes s n head (s.returned n).length

/-- The remainder of C takes the sign of the counter. -/
theorem slot_iff (number : Nat) :
    (0 ≤ Int.tmod (wrap number) 64 ∧ Int.tmod (wrap number) 64 < 64 ∧
      Int.tmod (wrap number) 64 = (number % 64 : Nat)) ↔
    number % 2 ^ 32 < 2 ^ 31 ∨ number % 64 = 0 := by
  rw [Int.tmod_eq_emod]
  unfold wrap
  split
  · omega
  · omega

theorem indexes_counter {s : Thread size} (reachable : Reachable s) {n : Nat} {counter : Int}
    (indexes : Indexes s n counter number) : counter = wrap number := by
  have inv := reachable_counted reachable
  cases indexes with
  | @store p rest tail k first stage =>
    have own := inv.posts p (first ▸ List.mem_cons_self)
    simp only [PostCounted, stage] at own
    exact own.2.1
  | load _ take =>
    have own := inv.take
    simp only [TakeCounted, take] at own
    rw [own.2.1, Thread.gone, Thread.inFlight, take, List.append_nil]

/-! ### Runs of any length

One instance after the other of signal 32 comes and is taken. -/

/-- Signal 32 arrives, without information. -/
def arrives (s : Thread 1) : Thread 1 := { s with handlers := [⟨32, none, .start⟩] }

theorem filled (room : wrap (s.realtimeTail 0 - s.realtimeHead 0) < 64) :
    stepHandler^[2] (arrives s) =
      { s with handlers := [⟨32, none, .fill (s.realtimeTail 0) 0⟩] } := by
  have length : (realtimeQueueLength : Int) = 64 := rfl
  simp [Function.iterate_succ, stepHandler, arrives, Thread.goto, firstRealtimeSignal,
    lastRealtimeSignal, index, length, room]

theorem posted (room : wrap (s.realtimeTail 0 - s.realtimeHead 0) < 64) :
    stepHandler^[6] (arrives s) =
      { ((s.storeRealtime 0 (slotOf (s.realtimeTail 0)) 0 0).storeTail 0
          (wrap (s.realtimeTail 0 + 1))).log (.accepted 32 fun _ => 0) with handlers := [] } := by
  rw [show (6 : Nat) = 4 + 2 from rfl, Function.iterate_add_apply, filled room]
  rfl

def taking (s : Thread 1) : Thread 1 := { s with take := .load ⟨false, false⟩ }

theorem taken (none : s.pendingSignals 0 = 0) (unmasked : s.masked 32 = false)
    (some : s.realtimeHead 0 ≠ s.realtimeTail 0) :
    stepTake^[8] (taking s) =
      { s.storeHead 0 (wrap (s.realtimeHead 0 + 1)) with take := .idle }.log
        (.returned ⟨false, false⟩ 32 ⟨.none, .none⟩
          (s.realtimeInformation 0 (slotOf (s.realtimeHead 0))) (s.masked 32)) := by
  have scanning : stepTake^[2] (taking s) = { s with take := .scan ⟨false, false⟩ 32 } := by
    simp [Function.iterate_succ, stepTake, taking, none, firstRealtimeSignal]
  have found : stepTake^[3] { s with take := .scan ⟨false, false⟩ 32 } =
      { s with take := .read ⟨false, false⟩ 32 (s.realtimeHead 0) 0 fun _ => 0 } := by
    have free : ({ s with take := .scan ⟨false, false⟩ 32 } : Thread 1).masked 32 = false := unmasked
    simp [Function.iterate_succ, stepTake, lastRealtimeSignal, index, firstRealtimeSignal, free, some]
  rw [show (8 : Nat) = 3 + 3 + 2 from rfl, Function.iterate_add_apply, Function.iterate_add_apply,
    scanning, found]
  rfl

/-- Between two calls, with nothing pending and every instance of signal 32 taken. -/
structure Quiet (s : Thread 1) (number : Nat) : Prop where
  reachable : Reachable s
  idle : s.take = .idle
  free : s.handlers = []
  none : s.pendingSignals 0 = 0
  unmasked : s.masked 32 = false
  accepted : (s.accepted 32).length = number
  returned : (s.returned 32).length = number

theorem Quiet.room (quiet : Quiet s number) :
    wrap (s.realtimeTail 0 - s.realtimeHead 0) < 64 := by
  obtain ⟨behind, before, -, -⟩ := (reachable_counted quiet.reachable).queues 32 ⟨by decide, by decide⟩
  have same : s.gone 32 = s.count 32 := by
    rw [Thread.gone, Thread.inFlight, quiet.idle, List.append_nil, quiet.returned, Thread.count,
      quiet.accepted]
  rw [show s.realtimeTail 0 = _ from behind, show s.realtimeHead 0 = _ from before, same,
    wrap_sub_wrap, Int.sub_self]
  decide

theorem Quiet.arrives (quiet : Quiet s number) :
    Reachable (arrives s) := by
  have step := quiet.reachable.next (.signal s 32 .none (by rw [quiet.free]; simp))
  rwa [quiet.free] at step

/-- One more instance comes and goes. -/
theorem Quiet.next (quiet : Quiet s number) :
    ∃ t, Quiet t (number + 1) := by
  have stored := quiet.arrives.handlers 6
  rw [posted quiet.room] at stored
  generalize ht : ({ ((s.storeRealtime 0 (slotOf (s.realtimeTail 0)) 0 0).storeTail 0
    (wrap (s.realtimeTail 0 + 1))).log (.accepted 32 fun _ => 0) with handlers := [] } : Thread 1) = t
    at stored
  have history : t.history = s.history ++ [.accepted 32 fun _ => 0] := ht ▸ rfl
  have idle : t.take = .idle := ht ▸ quiet.idle
  have accepted : (t.accepted 32).length = number + 1 := by
    rw [accepted_concat history, List.length_append, quiet.accepted]
    rfl
  have returned : (t.returned 32).length = number := by
    rw [returned_concat history, List.length_append, quiet.returned]
    rfl
  have some : t.realtimeHead 0 ≠ t.realtimeTail 0 := by
    obtain ⟨behind, before, -, -⟩ := (reachable_counted stored).queues 32 ⟨by decide, by decide⟩
    rw [show t.realtimeTail 0 = _ from behind, show t.realtimeHead 0 = _ from before, Thread.gone,
      Thread.inFlight, idle, List.append_nil, returned, Thread.count, accepted]
    unfold wrap
    omega
  have free : t.handlers = [] := ht ▸ rfl
  have gone := (stored.next (.call t ⟨false, false⟩ idle free)).takes free 8
  rw [show ({ t with take := .load ⟨false, false⟩ } : Thread 1) = taking t from rfl,
    taken (ht ▸ quiet.none) (ht ▸ quiet.unmasked) some] at gone
  refine ⟨_, gone.1, rfl, gone.2, ht ▸ quiet.none, ht ▸ quiet.unmasked, ?_, ?_⟩
  · rw [accepted_concat rfl, List.length_append]
    exact accepted
  · rw [returned_concat rfl, List.length_append]
    exact congrArg (· + 1) returned

theorem quiet_after (number : Nat) : ∃ s, Quiet s number := by
  induction number with
  | zero => exact ⟨fresh fun _ => 0, .start _, rfl, rfl, rfl, by decide, rfl, rfl⟩
  | succ number ih =>
    obtain ⟨s, quiet⟩ := ih
    exact quiet.next

/-- The instance that comes after `number` others is about to be stored. -/
theorem indexes_after (number : Nat) :
    ∃ s : Thread 1, Reachable s ∧ Indexes s 32 (wrap number) number := by
  obtain ⟨s, quiet⟩ := quiet_after number
  have storing := quiet.arrives.handlers 2
  rw [filled quiet.room] at storing
  have indexes : Indexes _ 32 (s.realtimeTail 0) (s.accepted 32).length :=
    .store (s := { s with handlers := [⟨32, none, .fill (s.realtimeTail 0) 0⟩] }) rfl rfl
      Nat.one_pos
  have counter := indexes_counter storing indexes
  rw [quiet.accepted] at counter indexes
  refine ⟨_, storing, ?_⟩
  rw [← counter]
  exact indexes

/-- In a run of any length, the slot taken for an instance is the one behind its forerunner's, from
0 to 63 and round again, exactly while the counter is not negative or is a multiple of 64. -/
theorem queue_slots_iff {s : Thread size} (reachable : Reachable s) {n : Nat} {counter : Int}
    {number : Nat} (indexes : Indexes s n counter number) :
    (0 ≤ Int.tmod counter realtimeQueueLength ∧
      Int.tmod counter realtimeQueueLength < realtimeQueueLength ∧
      Int.tmod counter realtimeQueueLength = (number % realtimeQueueLength : Nat)) ↔
    number % 2 ^ 32 < 2 ^ 31 ∨ number % realtimeQueueLength = 0 := by
  rw [indexes_counter reachable indexes]
  exact slot_iff number

/-- After 100 instances, the slot is 36. -/
theorem queue_slots_second_round :
    ∃ (s : Thread 1) (counter : Int), Reachable s ∧ Indexes s 32 counter 100 ∧
      Int.tmod counter realtimeQueueLength = 36 := by
  obtain ⟨s, reachable, indexes⟩ := indexes_after 100
  exact ⟨s, _, reachable, indexes,
    ((queue_slots_iff reachable indexes).mpr (.inl (by decide))).2.2⟩

/-- After 2^31 + 1 instances, it is -63. -/
theorem negative_slot :
    ∃ (s : Thread 1) (counter : Int), Reachable s ∧ Indexes s 32 counter 2147483649 ∧
      counter = -2147483647 ∧ Int.tmod counter realtimeQueueLength = -63 := by
  obtain ⟨s, reachable, indexes⟩ := indexes_after 2147483649
  have counter : wrap (2147483649 : Nat) = -2147483647 := by
    unfold wrap
    omega
  rw [counter] at indexes
  exact ⟨s, _, reachable, indexes, rfl, by decide⟩

end Linuxemu.Pending
