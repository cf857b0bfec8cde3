import Linuxemu.FutexAccounting

/-! What is true of every call that has not returned: it has a thread, a place of
its own on a stack and a bitset that some wake can match. -/
namespace Linuxemu.Futex
variable {x : Wait} {v : World} {p : Pc}

/-- The errors a sleeping waiter can have. -/
def Gentle (error : Option Errno) : Prop :=
  error = none ∨ error = some .eintr ∨ error = some .etimedout

def WaitStage.error : WaitStage → Option Errno
  | .disarm error | .read error | .clear error _ | .relock error | .remove error
  | .release error | .finish error => error
  | _ => none

structure Running (w : World) : Prop where
  blank : ∀ c, w.nextWait ≤ c → (w.waits c).seen = none
  silent : ∀ k, w.nextWake ≤ k → (w.wakes k).result = none
  alive : ∀ c < w.nextWait, (w.waits c).result = none → ∃ t, (w.threads t).pc.wait = some c
  bits : ∀ c < w.nextWait, (w.waits c).result = none ∨ (w.waits c).seen ≠ none →
    (w.waits c).bitset ≠ 0
  place : ∀ c < w.nextWait, (w.waits c).result = none →
    (w.waits c).pointer < 2 ^ 32 ∧ (w.waits c).pointer % 4 = 0
  apart : ∀ c < w.nextWait, ∀ d < w.nextWait, c ≠ d → (w.waits c).result = none →
    (w.waits d).result = none → (w.waits c).pointer ≠ (w.waits d).pointer
  errors : ∀ t c stage, (w.threads t).pc = .waiting c stage → Gentle stage.error
  left : ∀ c < w.nextWait, Gentle (w.waits c).left
  early : ∀ c, (w.waits c).readAt ≤ w.nextWake

section
variable {w : World} {t : Nat} {e : Effect} {q : Pc} {c : Nat}

theorem onWait_fixed (lt : c < w.nextWait) :
    (e.onWait w c x).asked = x.asked ∧ (e.onWait w c x).expected = x.expected ∧
      (e.onWait w c x).pointer = x.pointer ∧ (e.onWait w c x).bitset = x.bitset := by
  cases e <;> dsimp only [Effect.onWait]
  case beginWait call => simp [Nat.ne_of_lt lt]
  all_goals first
    | exact ⟨rfl, rfl, rfl, rfl⟩
    | (split <;> exact ⟨rfl, rfl, rfl, rfl⟩)

theorem onWait_result (lt : c < w.nextWait) (running : (e.onWait w c x).result = none) :
    x.result = none := by
  cases e <;> dsimp only [Effect.onWait] at running
  case beginWait call =>
    rw [if_neg (Nat.ne_of_lt lt)] at running
    exact running
  case finishWait d r =>
    split at running
    · cases running
    · exact running
  all_goals first
    | exact running
    | (split at running <;> exact running)

/-- A value is seen once, by the call itself. -/
theorem onWait_seen (lt : c < w.nextWait) :
    ((e.onWait w c x).seen = x.seen ∧ (e.onWait w c x).readAt = x.readAt) ∨
      ∃ value, e = .see c value := by
  cases e <;> dsimp only [Effect.onWait]
  case beginWait call => simp [Nat.ne_of_lt lt]
  case see d value =>
    by_cases same : c = d
    · exact Or.inr ⟨value, by rw [same]⟩
    · rw [if_neg same]
      exact Or.inl ⟨rfl, rfl⟩
  all_goals first
    | exact Or.inl ⟨rfl, rfl⟩
    | (split <;> exact Or.inl ⟨rfl, rfl⟩)

theorem Move.wait_keeps (h : Move w t p e q) (before : p.wait = some c) :
    q.wait = some c ∨ ∃ r, e = .finishWait c r := by
  cases h with
  | refuseWait | beginWait | refuseWake | beginWake | wake | wakeEnd => cases before
  | wait move => exact Or.inl before
  | waitEnd move =>
    cases before
    cases move <;> exact Or.inr ⟨_, rfl⟩

theorem Move.begun {call : Wait} (h : Move w t p (.beginWait call) q) :
    call.seen = none ∧ call.left = none ∧ call.readAt = 0 ∧ call.address = call.asked ∧
      (call.result = none → q.wait = some w.nextWait ∧ call.bitset ≠ 0 ∧
        w.FreePlace call.pointer) := by
  cases h with
  | refuseWait => exact ⟨rfl, rfl, rfl, rfl, fun running => by cases running⟩
  | beginWait _ _ _ _ _ valid place =>
    exact ⟨rfl, rfl, rfl, rfl, fun _ => ⟨rfl, valid, place⟩⟩
  | wait move => cases move
  | waitEnd move => cases move
  | wake move => cases move
  | wakeEnd move => cases move

namespace Running

theorem move_errors (h : Running w) (move : Move w t (w.threads t).pc e q) {u : Nat}
    {stage : WaitStage} (now : (((w.apply t e).goto t q).threads u).pc = .waiting c stage) :
    Gentle stage.error := by
  by_cases same : u = t
  · subst same
    rw [goto_pc] at now
    subst now
    generalize pc : (w.threads u).pc = p at move
    cases move with
    | beginWait => exact Or.inl rfl
    | wait move =>
      have ok := h.errors u c _ pc
      cases move
      case failed e why =>
        obtain rfl | ⟨rfl, _⟩ := why
        · exact Or.inr (Or.inl rfl)
        · exact Or.inr (Or.inr rfl)
      case clear error interrupted =>
        dsimp only [WaitStage.error] at ok ⊢
        split
        · exact Or.inr (Or.inl rfl)
        · exact ok
      all_goals exact ok
  · rw [moved_threads_ne _ _ _ _ _ same] at now
    exact h.errors u c stage now

/-- What a call that is running after a step was before it. -/
theorem before_move (move : Move w t (w.threads t).pc e q) (lt : c < (w.apply t e).nextWait)
    (running : ((w.apply t e).waits c).result = none) :
    c < w.nextWait ∧ (w.waits c).result = none ∨
      ∃ call, e = .beginWait call ∧ c = w.nextWait ∧ (w.apply t e).waits c = call ∧
        call.result = none := by
  rw [apply_waits] at running ⊢
  by_cases old : c < w.nextWait
  · exact Or.inl ⟨old, onWait_result old running⟩
  · rw [apply_nextWait] at lt
    cases e
    case beginWait call =>
      have new : c = w.nextWait := by
        simp only at lt
        omega
      dsimp only [Effect.onWait] at running ⊢
      rw [if_pos new] at running ⊢
      exact Or.inr ⟨call, rfl, new, rfl, running⟩
    all_goals exact absurd lt old

section
variable (h : Running w)
include h

theorem move_blank (control : Control w) (move : Move w t (w.threads t).pc e q)
    (beyond : (w.apply t e).nextWait ≤ c) : ((w.apply t e).waits c).seen = none := by
  rw [apply_waits]
  have old := h.blank c (Nat.le_trans Control.le_apply_nextWait beyond)
  rw [apply_nextWait] at beyond
  cases e <;> dsimp only [Effect.onWait]
  case beginWait call =>
    rw [if_neg (Nat.ne_of_gt beyond)]
    exact old
  case see d value =>
    have lt := (control.owner t d (move.own rfl)).1
    rw [if_neg (Nat.ne_of_gt (Nat.lt_of_lt_of_le lt beyond))]
    exact old
  all_goals first
    | exact old
    | (split <;> exact old)

/-- A call that has read its word is not one that begins now. -/
theorem seen_lt (control : Control w) (move : Move w t (w.threads t).pc e q)
    (seen : ((w.apply t e).waits c).seen ≠ none) : c < w.nextWait := by
  by_contra beyond
  apply seen
  by_cases later : (w.apply t e).nextWait ≤ c
  · exact h.move_blank control move later
  · rw [apply_nextWait] at later
    rw [apply_waits]
    cases e
    case beginWait call =>
      have new : c = w.nextWait := by
        simp only at later
        omega
      simp [Effect.onWait, new, move.begun.1]
    all_goals exact absurd (Nat.le_of_not_lt beyond) later

theorem move_silent (control : Control w) (move : Move w t (w.threads t).pc e q) {k : Nat}
    (beyond : (w.apply t e).nextWake ≤ k) : ((w.apply t e).wakes k).result = none := by
  rw [apply_wakes]
  have old := h.silent k (Nat.le_trans Control.le_apply_nextWake beyond)
  rw [apply_nextWake] at beyond
  cases e <;> dsimp only [Effect.onWake]
  case beginWake request | refuseWake request =>
    rw [if_neg (Nat.ne_of_gt beyond)]
    exact old
  case mark j d => split <;> exact old
  case finishWake j r =>
    have lt := (control.waker t j (move.waker rfl)).1
    rw [if_neg (Nat.ne_of_gt (Nat.lt_of_lt_of_le lt beyond))]
    exact old
  all_goals exact old

theorem move_alive (move : Move w t (w.threads t).pc e q) (lt : c < (w.apply t e).nextWait)
    (running : ((w.apply t e).waits c).result = none) :
    ∃ u, (((w.apply t e).goto t q).threads u).pc.wait = some c := by
  obtain ⟨old, still⟩ | ⟨call, rfl, rfl, _, new⟩ := before_move move lt running
  · obtain ⟨u, owner⟩ := h.alive c old still
    by_cases same : u = t
    · subst same
      obtain kept | ⟨r, rfl⟩ := move.wait_keeps owner
      · exact ⟨u, by rw [goto_pc, kept]⟩
      · simp [apply_waits, Effect.onWait] at running
    · exact ⟨u, by rw [moved_threads_ne _ _ _ _ _ same, owner]⟩
  · exact ⟨t, by rw [goto_pc, (move.begun.2.2.2.2 new).1]⟩

theorem move_bits (control : Control w) (move : Move w t (w.threads t).pc e q)
    (lt : c < (w.apply t e).nextWait)
    (why : ((w.apply t e).waits c).result = none ∨ ((w.apply t e).waits c).seen ≠ none) :
    ((w.apply t e).waits c).bitset ≠ 0 := by
  obtain running | seen := why
  · obtain ⟨old, still⟩ | ⟨call, rfl, rfl, record, new⟩ := before_move move lt running
    · rw [apply_waits, (onWait_fixed old).2.2.2]
      exact h.bits c old (Or.inl still)
    · rw [record]
      exact (move.begun.2.2.2.2 new).2.1
  · by_cases old : c < w.nextWait
    · rw [apply_waits] at seen ⊢
      rw [(onWait_fixed old).2.2.2]
      obtain ⟨same, _⟩ | ⟨value, rfl⟩ := onWait_seen (e := e) (x := w.waits c) old
      · rw [same] at seen
        exact h.bits c old (Or.inr seen)
      · exact h.bits c old (Or.inl (control.owner t c (move.own rfl)).2.2)
    · rw [apply_nextWait] at lt
      cases e
      case beginWait call =>
        have new : c = w.nextWait := by
          simp only at lt
          omega
        rw [apply_waits] at seen
        simp [Effect.onWait, new, move.begun.1] at seen
      all_goals exact absurd lt old

theorem move_left (move : Move w t (w.threads t).pc e q) (lt : c < (w.apply t e).nextWait) :
    Gentle ((w.apply t e).waits c).left := by
  rw [apply_waits]
  rw [apply_nextWait] at lt
  cases e <;> dsimp only [Effect.onWait] at lt ⊢
  case beginWait call =>
    split
    · rw [move.begun.2.1]
      exact Or.inl rfl
    · exact h.left c (by omega)
  case unlink d error =>
    split
    · exact h.errors t d _ move.unlink.1
    · exact h.left c lt
  all_goals first
    | exact h.left c lt
    | (split <;> exact h.left c lt)

theorem move_place (move : Move w t (w.threads t).pc e q) (lt : c < (w.apply t e).nextWait)
    (running : ((w.apply t e).waits c).result = none) :
    ((w.apply t e).waits c).pointer < 2 ^ 32 ∧ ((w.apply t e).waits c).pointer % 4 = 0 := by
  obtain ⟨old, still⟩ | ⟨call, rfl, rfl, record, new⟩ := before_move move lt running
  · rw [apply_waits, (onWait_fixed old).2.2.1]
    exact h.place c old still
  · rw [record]
    have place := (move.begun.2.2.2.2 new).2.2
    exact ⟨place.1, place.2.1⟩

theorem move_apart (move : Move w t (w.threads t).pc e q) {d : Nat}
    (ltC : c < (w.apply t e).nextWait) (ltD : d < (w.apply t e).nextWait) (ne : c ≠ d)
    (runC : ((w.apply t e).waits c).result = none) (runD : ((w.apply t e).waits d).result = none) :
    ((w.apply t e).waits c).pointer ≠ ((w.apply t e).waits d).pointer := by
  obtain ⟨oldC, stillC⟩ | ⟨call, rfl, rfl, record, new⟩ := before_move move ltC runC
  · obtain ⟨oldD, stillD⟩ | ⟨call, rfl, rfl, record, new⟩ := before_move move ltD runD
    · rw [apply_waits, apply_waits, (onWait_fixed oldC).2.2.1, (onWait_fixed oldD).2.2.1]
      exact h.apart c oldC d oldD ne stillC stillD
    · rw [record, apply_waits, (onWait_fixed oldC).2.2.1]
      exact (move.begun.2.2.2.2 new).2.2.2.2 c oldC stillC
  · obtain ⟨oldD, stillD⟩ | ⟨_, _, same, _⟩ := before_move move ltD runD
    · rw [record, apply_waits, (onWait_fixed oldD).2.2.1]
      exact ((move.begun.2.2.2.2 new).2.2.2.2 d oldD stillD).symm
    · exact absurd same.symm ne

theorem move_early (move : Move w t (w.threads t).pc e q) :
    ((w.apply t e).waits c).readAt ≤ (w.apply t e).nextWake := by
  have old := Nat.le_trans (h.early c) (Control.le_apply_nextWake (t := t) (e := e))
  rw [apply_waits]
  cases e <;> dsimp only [Effect.onWait]
  case beginWait call =>
    split
    · rw [move.begun.2.2.1]
      exact Nat.zero_le _
    · exact old
  case see d value =>
    split
    · exact Nat.le_refl _
    · exact old
  all_goals first
    | exact old
    | (split <;> exact old)

theorem move (control : Control w) (m : Move w t (w.threads t).pc e q) :
    Running ((w.apply t e).goto t q) where
  blank _ beyond := h.move_blank control m beyond
  silent _ beyond := h.move_silent control m beyond
  alive _ lt running := h.move_alive m lt running
  bits _ lt why := h.move_bits control m lt why
  place _ lt running := h.move_place m lt running
  apart _ ltC _ ltD ne runC runD := h.move_apart m ltC ltD ne runC runD
  errors _ _ _ now := h.move_errors m now
  left _ lt := h.move_left m lt
  early _ := h.move_early m

theorem aside (a : Aside w v) : Running v := by
  have same : ∀ c, (v.waits c).seen = (w.waits c).seen ∧ (v.waits c).result = (w.waits c).result ∧
      (v.waits c).bitset = (w.waits c).bitset ∧ (v.waits c).pointer = (w.waits c).pointer ∧
      (v.waits c).left = (w.waits c).left ∧ (v.waits c).readAt = (w.waits c).readAt := by
    intro c
    obtain ⟨n, eq⟩ := a.waits c
    rw [eq]
    exact ⟨rfl, rfl, rfl, rfl, rfl, rfl⟩
  constructor
  · intro c
    rw [a.nextWait, (same c).1]
    exact h.blank c
  · intro k
    rw [a.nextWake, a.wakes]
    exact h.silent k
  · intro c
    rw [a.nextWait, (same c).2.1]
    intro lt running
    obtain ⟨t, owner⟩ := h.alive c lt running
    exact ⟨t, by rw [a.pc, owner]⟩
  · intro c
    rw [a.nextWait, (same c).1, (same c).2.1, (same c).2.2.1]
    exact h.bits c
  · intro c
    rw [a.nextWait, (same c).2.1, (same c).2.2.2.1]
    exact h.place c
  · intro c ltC d
    rw [a.nextWait] at *
    rw [(same c).2.1, (same d).2.1, (same c).2.2.2.1, (same d).2.2.2.1]
    exact h.apart c ltC d
  · intro t c stage now
    rw [a.pc] at now
    exact h.errors t c stage now
  · intro c
    rw [a.nextWait, (same c).2.2.2.2.1]
    exact h.left c
  · intro c
    rw [a.nextWake, (same c).2.2.2.2.2]
    exact h.early c

theorem step (control : Control w) (step : Step w v) : Running v := by
  cases step with
  | move t free m => exact h.move control m
  | signal t => exact h.aside (setThread_aside w t rfl rfl)
  | handler t => exact h.aside (stepHandler_aside w t)
  | store a value => exact h.aside (store_aside w a value)

end

end Running

end

theorem start_running (words : Nat → BitVec 32) : Running (start words) where
  blank _ _ := rfl
  silent _ _ := rfl
  alive _ lt := by cases lt
  bits _ lt := by cases lt
  place _ lt := by cases lt
  apart _ lt := by cases lt
  errors _ _ _ now := by cases now
  left _ lt := by cases lt
  early _ := Nat.le_refl _

/-- The waiters are distinct aligned places in a 32-bit address space. -/
theorem waiters_length {w : World} (control : Control w) (running : Running w) :
    w.waiters.length ≤ 2 ^ 30 := by
  have live : ∀ c ∈ w.waiters, c < w.nextWait ∧ (w.waits c).result = none := by
    intro c mem
    obtain ⟨_, _, lt, result⟩ := control.linked_owner mem
    exact ⟨lt, result⟩
  have nodup : (w.waiters.map fun c => (w.waits c).pointer / 4).Nodup := by
    apply List.Nodup.map_on _ control.nodup
    intro c memC d memD same
    by_contra ne
    obtain ⟨ltC, runC⟩ := live c memC
    obtain ⟨ltD, runD⟩ := live d memD
    apply running.apart c ltC d ltD ne runC runD
    have := (running.place c ltC runC).2
    have := (running.place d ltD runD).2
    omega
  have range : (w.waiters.map fun c => (w.waits c).pointer / 4) ⊆ List.range (2 ^ 30) := by
    intro x mem
    obtain ⟨c, memC, rfl⟩ := List.mem_map.mp mem
    obtain ⟨lt, run⟩ := live c memC
    have := (running.place c lt run).1
    rw [List.mem_range]
    omega
  have length := (nodup.subperm range).length_le
  rwa [List.length_map, List.length_range] at length

end Linuxemu.Futex
