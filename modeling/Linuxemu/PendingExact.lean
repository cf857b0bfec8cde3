import Linuxemu.PendingSteps

/-! What the pending-signal queues guarantee for every interleaving of handlers
and takes. -/
namespace Linuxemu.Pending
variable {size : Nat}
variable {s t : Thread size}

theorem stepHandler_history (s : Thread size) : s.history <+: (stepHandler s).history := by
  unfold stepHandler
  repeat' split
  all_goals first
    | exact List.prefix_rfl
    | exact List.prefix_append _ _

theorem stepTake_history (s : Thread size) : s.history <+: (stepTake s).history := by
  unfold stepTake
  repeat' split
  all_goals first
    | exact List.prefix_rfl
    | exact List.prefix_append _ _

theorem accepted_mono (h : s.history <+: t.history) (n : Nat) :
    (s.accepted n).length ≤ (t.accepted n).length :=
  (h.sublist.filterMap _).length_le

theorem Step.history (h : Step s t) : s.history <+: t.history := by
  cases h with
  | signal | call | setMask => exact List.prefix_rfl
  | handler => exact stepHandler_history s
  | take => exact stepTake_history s

theorem step_inv (h : Step s t) (inv : Inv s) (few : ∀ n, (t.accepted n).length < 2 ^ 31) :
    Inv t := by
  have before : ∀ n, (s.accepted n).length < 2 ^ 31 :=
    fun n => Nat.lt_of_le_of_lt (accepted_mono h.history n) (few n)
  cases h with
  | signal n information other =>
    refine ⟨?_, ?_, inv.take, inv.standard, inv.realtime, inv.top, inv.events⟩
    · refine List.nodup_cons.mpr ⟨?_, inv.distinct⟩
      intro mem
      obtain ⟨p, hp, same⟩ := List.mem_map.mp mem
      exact other p hp same
    · intro p mem
      rcases List.mem_cons.mp mem with rfl | mem
      · trivial
      · exact inv.posts p mem
  | handler => exact stepHandler_inv inv before few
  | call r idle free => exact inv.walked free (idle ▸ trivial) trivial trivial
  | take free => exact stepTake_inv inv before free
  | setMask mask idle free =>
    refine ⟨inv.distinct, inv.posts, ?_, inv.standard, inv.realtime, inv.top, inv.events⟩
    simp only [TakeOk, idle]

theorem fresh_inv (mask : Nat → BitVec 32) : Inv (fresh mask : Thread size) where
  distinct := List.nodup_nil
  posts := by simp [fresh]
  take := trivial
  standard n _ := by simp [StandardOk, Thread.made, Thread.returned, Thread.inFlight,
    Thread.pending, fresh]
  realtime n _ := ⟨[], rfl, rfl, rfl, .nil _ _ _⟩
  top := by simp [Thread.pending, fresh]
  events := by simp [fresh]

theorem reachable_inv (h : Reachable s) (few : ∀ n, (s.accepted n).length < 2 ^ 31) : Inv s := by
  induction h with
  | start mask => exact fresh_inv mask
  | next _ step ih =>
    refine step_inv step (ih fun n => ?_) few
    exact Nat.lt_of_le_of_lt (accepted_mono step.history n) (few n)

theorem Reachable.handlers (h : Reachable s) (k : Nat) :
    Reachable (stepHandler^[k] s) := by
  induction k with
  | zero => exact h
  | succ k ih =>
    rw [Function.iterate_succ_apply']
    exact ih.next (.handler _)

theorem stepTake_handlers (s : Thread size) : (stepTake s).handlers = s.handlers := by
  unfold stepTake
  repeat' split
  all_goals rfl

theorem Reachable.takes (h : Reachable s) (free : s.handlers = []) (k : Nat) :
    Reachable (stepTake^[k] s) ∧ (stepTake^[k] s).handlers = [] := by
  induction k with
  | zero => exact ⟨h, free⟩
  | succ k ih =>
    rw [Function.iterate_succ_apply']
    exact ⟨ih.1.next (.take _ ih.2), (stepTake_handlers _).trans ih.2⟩

end Linuxemu.Pending
