import Linuxemu.Futex
import Mathlib.Data.List.Nodup
import Mathlib.Data.List.Infix

/-! Which of the locks, list entries and semaphore pointers a thread has follows
from where it is. -/
namespace Linuxemu.Futex
variable {c k : Nat} {v w : World} {p : Pc}

/-! ## Where a thread is -/

/-- The call holds `futex_lock`. -/
def WaitStage.locked : WaitStage → Bool
  | .check | .mismatch | .link | .reset | .arm | .unlock | .remove _ | .release _ => true
  | _ => false

/-- The waiter is in the list. -/
def WaitStage.linked : WaitStage → Bool
  | .reset | .arm | .unlock | .sleep | .disarm _ | .read _ | .clear _ _ | .relock _
  | .remove _ => true
  | _ => false

/-- `futex_semaphore` points to the waiter's semaphore. -/
def WaitStage.armed : WaitStage → Bool
  | .unlock | .sleep | .disarm _ => true
  | _ => false

def WakeStage.locked : WakeStage → Bool
  | .lock | .finish _ => false
  | _ => true

/-- The waiters the loop has in hand or before it. -/
def WakeStage.rest : WakeStage → List Nat
  | .scan rest _ _ | .next rest _ _ => rest
  | .post c rest _ _ => c :: rest
  | _ => []

namespace Pc

def locked : Pc → Bool
  | .idle => false
  | .waiting _ stage => stage.locked
  | .waking _ stage => stage.locked

def wait : Pc → Option Nat
  | .waiting c _ => some c
  | _ => none

def wake : Pc → Option Nat
  | .waking k _ => some k
  | _ => none

def linked : Pc → Option Nat
  | .waiting c stage => if stage.linked then some c else none
  | _ => none

def armed : Pc → Option Nat
  | .waiting c stage => if stage.armed then some c else none
  | _ => none

def rest : Pc → List Nat
  | .waking _ stage => stage.rest
  | _ => []

theorem wait_of_linked (h : p.linked = some c) : p.wait = some c := by
  cases p with
  | idle | waking => cases h
  | waiting d stage =>
    simp only [linked] at h
    split at h
    · exact h
    · cases h

theorem wait_of_armed (h : p.armed = some c) : p.wait = some c := by
  cases p with
  | idle | waking => cases h
  | waiting d stage =>
    simp only [armed] at h
    split at h
    · exact h
    · cases h

end Pc

/-! ## What a step does to it -/

namespace Effect

def lockedAfter (before : Bool) : Effect → Bool
  | .acquire => true
  | .release => false
  | _ => before

def linkedAfter (before : Option Nat) : Effect → Option Nat
  | .link c => some c
  | .unlink _ _ => none
  | _ => before

def armedAfter (before : Option Nat) : Effect → Option Nat
  | .arm c => some c
  | .disarm => none
  | _ => before

/-- Steps taken only under the lock. -/
def critical : Effect → Bool
  | .release | .link _ | .unlink _ _ | .mark _ _ | .post _ | .requeue _ _ => true
  | _ => false

end Effect

section
variable {w : World} {t : Nat} {p q : Pc} {e : Effect}

/-- What a thread holds after a move is what the effect makes of it. -/
theorem Move.holds (h : Move w t p e q) : q.locked = e.lockedAfter p.locked ∧
    q.linked = e.linkedAfter p.linked ∧ q.armed = e.armedAfter p.armed := by
  cases h with
  | refuseWait | beginWait | refuseWake | beginWake => exact ⟨rfl, rfl, rfl⟩
  | wait move => cases move <;> exact ⟨rfl, rfl, rfl⟩
  | waitEnd move => cases move <;> exact ⟨rfl, rfl, rfl⟩
  | wake move => cases move <;> exact ⟨rfl, rfl, rfl⟩
  | wakeEnd move => cases move <;> exact ⟨rfl, rfl, rfl⟩

theorem Move.critical (h : Move w t p e q) (c : e.critical = true) : p.locked = true := by
  cases h with
  | refuseWait | beginWait | refuseWake | beginWake => cases c
  | wait move => cases move <;> first | rfl | cases c
  | waitEnd move => cases move <;> cases c
  | wake move => cases move <;> first | rfl | cases c
  | wakeEnd move => cases move <;> cases c

theorem Move.acquire (h : Move w t p .acquire q) : w.holder = none := by
  cases h with
  | wait move => cases move <;> assumption
  | waitEnd move => cases move
  | wake move => cases move; assumption
  | wakeEnd move => cases move

/-- A waiter links and unlinks itself. -/
theorem Move.link (h : Move w t p (.link c) q) :
    p = .waiting c .link ∧ q = .waiting c .reset := by
  cases h with
  | wait move => cases move; exact ⟨rfl, rfl⟩
  | waitEnd move => cases move
  | wake move => cases move
  | wakeEnd move => cases move

theorem Move.unlink {error : Option Errno} (h : Move w t p (.unlink c error) q) :
    p = .waiting c (.remove error) ∧ q = .waiting c (.release error) := by
  cases h with
  | wait move => cases move; exact ⟨rfl, rfl⟩
  | waitEnd move => cases move
  | wake move => cases move
  | wakeEnd move => cases move

theorem Move.wait_eq (h : Move w t p e q) (now : q.wait = some c) :
    p.wait = some c ∨
      c = w.nextWait ∧ ∃ call, e = .beginWait call ∧ call.thread = t ∧ call.result = none := by
  cases h with
  | refuseWait | refuseWake | beginWake | waitEnd | wake | wakeEnd => cases now
  | beginWait => cases now; exact Or.inr ⟨rfl, _, rfl, rfl, rfl⟩
  | wait move => exact Or.inl now

theorem Move.wake_eq (h : Move w t p e q) (now : q.wake = some k) :
    p.wake = some k ∨ k = w.nextWake ∧ ∃ request, e = .beginWake request := by
  cases h with
  | refuseWait | refuseWake | beginWait | waitEnd | wait | wakeEnd => cases now
  | beginWake request => cases now; exact Or.inr ⟨rfl, request, rfl⟩
  | wake move => exact Or.inl now

theorem Move.finishWait {r : Int} (h : Move w t p (.finishWait c r) q) :
    p.wait = some c ∧ q = .idle := by
  cases h with
  | wait move => cases move
  | waitEnd move => cases move <;> exact ⟨rfl, rfl⟩
  | wake move => cases move
  | wakeEnd move => cases move

theorem Move.finishWake {r : Int} (h : Move w t p (.finishWake k r) q) :
    p.wake = some k ∧ q = .idle := by
  cases h with
  | wait move => cases move
  | waitEnd move => cases move
  | wake move => cases move
  | wakeEnd move => cases move <;> exact ⟨rfl, rfl⟩

/-- The loop goes down the list it began with. -/
theorem Move.rest (h : Move w t p e q) : q.rest <:+ p.rest ∨ q.rest = w.waiters := by
  cases h with
  | refuseWait | beginWait | refuseWake | beginWake => exact Or.inl (List.nil_suffix)
  | wait move | waitEnd move | wakeEnd move => exact Or.inl (List.nil_suffix)
  | wake move =>
    cases move with
    | compared | begin => exact Or.inr rfl
    | pass | other | posted | postedFirst | requeue | leave => exact Or.inl (List.suffix_cons _ _)
    | mark | markFirst | goOn => exact Or.inl List.suffix_rfl
    | lock | compareFailed | mismatch | enough | visited | stop | unlock =>
      exact Or.inl (List.nil_suffix)

end

theorem Pc.locked_of_rest (h : p.rest ≠ []) : p.locked = true := by
  cases p with
  | idle | waiting => exact absurd rfl h
  | waking k stage => cases stage <;> first | rfl | exact absurd rfl h

/-! ## Projections of a step -/

section
variable (w : World) (t u : Nat) (e : Effect) (p : Pc)

/-- Other threads stay where they are. -/
theorem moved_threads_ne (h : u ≠ t) : ((w.apply t e).goto t p).threads u = w.threads u := by
  cases e <;> simp [World.apply, World.goto, World.setThread, World.setWait, World.setWake, h]

@[simp] theorem goto_pc : ((w.goto t p).threads t).pc = p := by
  simp [World.goto, World.setThread]

theorem apply_holder :
    (w.apply t e).holder = match e with
      | .acquire => some t
      | .release => none
      | _ => w.holder := by
  cases e <;> rfl

theorem apply_waiters :
    (w.apply t e).waiters = match e with
      | .link c => c :: w.waiters
      | .unlink c _ => w.waiters.erase c
      | _ => w.waiters := by
  cases e <;> rfl

theorem apply_futexSemaphore :
    ((w.apply t e).threads t).futexSemaphore = e.armedAfter (w.threads t).futexSemaphore := by
  cases e <;> simp [World.apply, World.setThread, World.setWait, World.setWake, Effect.armedAfter]

end

section
variable (w : World) (t : Nat) (e : Effect) (c k : Nat)

theorem apply_nextWait :
    (w.apply t e).nextWait = match e with
      | .beginWait _ => w.nextWait + 1
      | _ => w.nextWait := by
  cases e <;> rfl

theorem apply_nextWake :
    (w.apply t e).nextWake = match e with
      | .beginWake _ | .refuseWake _ => w.nextWake + 1
      | _ => w.nextWake := by
  cases e <;> rfl

/-- What an effect does to the record of a call. -/
def Effect.onWait (w : World) (c : Nat) (x : Wait) : Effect → Wait
  | .beginWait call => if c = w.nextWait then call else x
  | .see d value => if c = d then { x with seen := some value, readAt := w.nextWake } else x
  | .link d => if c = d then { x with enqueued := true } else x
  | .unlink d error => if c = d then { x with left := error } else x
  | .take d => if c = d then { x with semaphore := x.semaphore - 1 } else x
  | .mark k d => if c = d then { x with woken := true, markedBy := x.markedBy ++ [k] } else x
  | .post d => if c = d then { x with semaphore := x.semaphore + 1 } else x
  | .requeue d second =>
    if c = d then { x with address := second, moves := x.moves ++ [(x.address, second)] } else x
  | .finishWait d r => if c = d then { x with result := some r } else x
  | _ => x

theorem apply_waits : (w.apply t e).waits c = e.onWait w c (w.waits c) := by
  cases e <;> simp only [World.apply, World.setThread, World.setWait, World.setWake, Effect.onWait,
    Function.update_apply]
  all_goals
    split
    · rename_i h
      rw [h]
    · rfl

def Effect.onWake (w : World) (t k : Nat) (x : Wake) : Effect → Wake
  | .beginWake request => if k = w.nextWake then ⟨t, request, 0, none⟩ else x
  | .refuseWake request => if k = w.nextWake then ⟨t, request, 0, some (-22)⟩ else x
  | .mark j _ => if k = j then { x with marked := x.marked + 1 } else x
  | .finishWake j r => if k = j then { x with result := some r } else x
  | _ => x

theorem apply_wakes : (w.apply t e).wakes k = e.onWake w t k (w.wakes k) := by
  cases e <;> simp only [World.apply, World.setThread, World.setWait, World.setWake, Effect.onWake,
    Function.update_apply]
  all_goals
    split
    · rename_i h
      rw [h]
    · rfl

end

/-! ## The invariant -/

structure Control (w : World) : Prop where
  lock : ∀ t, (w.threads t).pc.locked = true ↔ w.holder = some t
  armed : ∀ t, (w.threads t).futexSemaphore = (w.threads t).pc.armed
  owner : ∀ t c, (w.threads t).pc.wait = some c →
    c < w.nextWait ∧ (w.waits c).thread = t ∧ (w.waits c).result = none
  waker : ∀ t k, (w.threads t).pc.wake = some k →
    k < w.nextWake ∧ (w.wakes k).thread = t ∧ (w.wakes k).result = none
  linked : ∀ c, c ∈ w.waiters ↔ ∃ t, (w.threads t).pc.linked = some c
  nodup : w.waiters.Nodup
  rest : ∀ t, (w.threads t).pc.rest <:+ w.waiters

namespace Control
variable {w : World} {t : Nat} {e : Effect} {q : Pc}

/-- A call belongs to one thread. -/
theorem owner_unique (h : Control w) {u : Nat} (ht : (w.threads t).pc.wait = some c)
    (hu : (w.threads u).pc.wait = some c) : u = t :=
  (h.owner u c hu).2.1.symm.trans (h.owner t c ht).2.1

theorem holder_unique (h : Control w) {u : Nat} (ht : (w.threads t).pc.locked = true)
    (hu : (w.threads u).pc.locked = true) : u = t := by
  have held := (h.lock t).mp ht
  rw [(h.lock u).mp hu] at held
  exact Option.some.inj held

theorem linked_owner (h : Control w) (mem : c ∈ w.waiters) :
    ∃ t, (w.threads t).pc.linked = some c ∧ c < w.nextWait ∧ (w.waits c).result = none := by
  obtain ⟨t, linked⟩ := (h.linked c).mp mem
  have owner := h.owner t c (Pc.wait_of_linked linked)
  exact ⟨t, linked, owner.1, owner.2.2⟩

theorem move_lock (h : Control w) (move : Move w t (w.threads t).pc e q) (u : Nat) :
    (((w.apply t e).goto t q).threads u).pc.locked = true ↔
      ((w.apply t e).goto t q).holder = some u := by
  show _ ↔ (w.apply t e).holder = some u
  rw [apply_holder]
  have locked := move.holds.1
  have before := h.lock t
  have critical := move.critical
  by_cases same : u = t
  · subst same
    rw [goto_pc, locked]
    cases e <;> simp [Effect.lockedAfter, before]
  · rw [moved_threads_ne _ _ _ _ _ same, h.lock u]
    cases e <;> simp only
    case acquire =>
      have free := move.acquire
      simp [free, Ne.symm same]
    case release =>
      have held := before.mp (critical rfl)
      simp [held, Ne.symm same]

theorem move_armed (h : Control w) (move : Move w t (w.threads t).pc e q) (u : Nat) :
    (((w.apply t e).goto t q).threads u).futexSemaphore =
      (((w.apply t e).goto t q).threads u).pc.armed := by
  by_cases same : u = t
  · subst same
    rw [goto_pc, move.holds.2.2, ← h.armed u, ← apply_futexSemaphore]
    simp [World.goto, World.setThread]
  · rw [moved_threads_ne _ _ _ _ _ same]
    exact h.armed u

/-- No step changes the thread of a running call; only its last step ends it. -/
theorem apply_running (lt : c < w.nextWait) (running : (w.waits c).result = none)
    (goesOn : ∀ r, e ≠ .finishWait c r) :
    ((w.apply t e).waits c).thread = (w.waits c).thread ∧
      ((w.apply t e).waits c).result = none := by
  rw [apply_waits]
  cases e <;> dsimp only [Effect.onWait]
  case finishWait d r =>
    have ne : c ≠ d := fun e => goesOn r (by rw [e])
    simp [ne, running]
  case beginWait call =>
    simp [Nat.ne_of_lt lt, running]
  all_goals first
    | exact ⟨rfl, running⟩
    | (split <;> exact ⟨rfl, running⟩)

theorem apply_waking (lt : k < w.nextWake) (running : (w.wakes k).result = none)
    (goesOn : ∀ r, e ≠ .finishWake k r) :
    ((w.apply t e).wakes k).thread = (w.wakes k).thread ∧
      ((w.apply t e).wakes k).result = none := by
  rw [apply_wakes]
  cases e <;> dsimp only [Effect.onWake]
  case finishWake d r =>
    have ne : k ≠ d := fun e => goesOn r (by rw [e])
    simp [ne, running]
  case beginWake request | refuseWake request =>
    simp [Nat.ne_of_lt lt, running]
  all_goals first
    | exact ⟨rfl, running⟩
    | (split <;> exact ⟨rfl, running⟩)

theorem le_apply_nextWait : w.nextWait ≤ (w.apply t e).nextWait := by
  rw [apply_nextWait]
  cases e <;> simp

theorem le_apply_nextWake : w.nextWake ≤ (w.apply t e).nextWake := by
  rw [apply_nextWake]
  cases e <;> simp

section
variable (h : Control w)
include h

theorem move_owner (move : Move w t (w.threads t).pc e q) (u c : Nat)
    (now : (((w.apply t e).goto t q).threads u).pc.wait = some c) :
    c < (w.apply t e).nextWait ∧ ((w.apply t e).waits c).thread = u ∧
      ((w.apply t e).waits c).result = none := by
  have keeps : (w.threads u).pc.wait = some c → (∀ r, e ≠ .finishWait c r) →
      c < (w.apply t e).nextWait ∧ ((w.apply t e).waits c).thread = u ∧
        ((w.apply t e).waits c).result = none := by
    intro before goesOn
    obtain ⟨lt, thread, running⟩ := h.owner u c before
    have after := apply_running (t := t) lt running goesOn
    exact ⟨Nat.lt_of_lt_of_le lt le_apply_nextWait, after.1.trans thread, after.2⟩
  by_cases same : u = t
  · subst same
    rw [goto_pc] at now
    obtain before | ⟨rfl, call, rfl, thread, running⟩ := move.wait_eq now
    · apply keeps before
      rintro r rfl
      rw [move.finishWait.2] at now
      cases now
    · simp [World.apply, thread, running]
  · rw [moved_threads_ne _ _ _ _ _ same] at now
    apply keeps now
    rintro r rfl
    exact same (h.owner_unique move.finishWait.1 now)

theorem move_waker (move : Move w t (w.threads t).pc e q) (u k : Nat)
    (now : (((w.apply t e).goto t q).threads u).pc.wake = some k) :
    k < (w.apply t e).nextWake ∧ ((w.apply t e).wakes k).thread = u ∧
      ((w.apply t e).wakes k).result = none := by
  have keeps : (w.threads u).pc.wake = some k → (∀ r, e ≠ .finishWake k r) →
      k < (w.apply t e).nextWake ∧ ((w.apply t e).wakes k).thread = u ∧
        ((w.apply t e).wakes k).result = none := by
    intro before goesOn
    obtain ⟨lt, thread, running⟩ := h.waker u k before
    have after := apply_waking (t := t) lt running goesOn
    exact ⟨Nat.lt_of_lt_of_le lt le_apply_nextWake, after.1.trans thread, after.2⟩
  by_cases same : u = t
  · subst same
    rw [goto_pc] at now
    obtain before | ⟨rfl, request, rfl⟩ := move.wake_eq now
    · apply keeps before
      rintro r rfl
      rw [move.finishWake.2] at now
      cases now
    · simp [World.apply]
  · rw [moved_threads_ne _ _ _ _ _ same] at now
    apply keeps now
    rintro r rfl
    exact same ((h.waker u k now).2.1.symm.trans (h.waker t k move.finishWake.1).2.1)

theorem unlinked_of_link (move : Move w t (w.threads t).pc (.link c) q) : c ∉ w.waiters := by
  intro mem
  obtain ⟨u, linked⟩ := (h.linked c).mp mem
  have pc := move.link.1
  have same := h.owner_unique (by rw [pc]; rfl) (Pc.wait_of_linked linked)
  rw [same, pc] at linked
  cases linked

theorem move_linked (move : Move w t (w.threads t).pc e q) (c : Nat) :
    c ∈ (w.apply t e).waiters ↔ ∃ u, (((w.apply t e).goto t q).threads u).pc.linked = some c := by
  have mine := move.holds.2.1
  have other : ∀ u, u ≠ t → (((w.apply t e).goto t q).threads u).pc = (w.threads u).pc := by
    intro u ne
    rw [moved_threads_ne _ _ _ _ _ ne]
  have own : (((w.apply t e).goto t q).threads t).pc = q := goto_pc _ _ _
  have linkers : q.linked = (w.threads t).pc.linked →
      ((∃ u, (w.threads u).pc.linked = some c) ↔
        ∃ u, (((w.apply t e).goto t q).threads u).pc.linked = some c) := by
    intro kept
    apply exists_congr
    intro u
    by_cases same : u = t
    · rw [same, own, kept]
    · rw [other u same]
  rw [apply_waiters]
  cases e
  case link d =>
    have pc := move.link.1
    simp only [Effect.linkedAfter] at mine
    rw [List.mem_cons, h.linked]
    constructor
    · rintro (rfl | ⟨u, linked⟩)
      · exact ⟨t, by rw [own, mine]⟩
      · have ne : u ≠ t := by
          rintro rfl
          rw [pc] at linked
          cases linked
        exact ⟨u, by rw [other u ne, linked]⟩
    · rintro ⟨u, linked⟩
      by_cases same : u = t
      · rw [same, own, mine] at linked
        exact Or.inl (Option.some.inj linked).symm
      · exact Or.inr ⟨u, by rw [← other u same, linked]⟩
  case unlink d error =>
    have pc := move.unlink.1
    simp only [Effect.linkedAfter] at mine
    rw [h.nodup.mem_erase_iff, h.linked]
    constructor
    · rintro ⟨ne, u, linked⟩
      have apart : u ≠ t := by
        rintro rfl
        rw [pc] at linked
        exact ne (Option.some.inj linked).symm
      exact ⟨u, by rw [other u apart, linked]⟩
    · rintro ⟨u, linked⟩
      have apart : u ≠ t := by
        rintro rfl
        rw [own, mine] at linked
        cases linked
      rw [other u apart] at linked
      refine ⟨?_, u, linked⟩
      rintro rfl
      exact apart (h.owner_unique (by rw [pc]; rfl) (Pc.wait_of_linked linked))
  all_goals exact (h.linked c).trans (linkers mine)

theorem move_nodup (move : Move w t (w.threads t).pc e q) : (w.apply t e).waiters.Nodup := by
  rw [apply_waiters]
  cases e
  case link c => exact List.nodup_cons.mpr ⟨h.unlinked_of_link move, h.nodup⟩
  case unlink c error => exact h.nodup.erase c
  all_goals exact h.nodup

/-- The list changes only under the lock, so never under a loop over it. -/
theorem move_rest (move : Move w t (w.threads t).pc e q) (u : Nat) :
    (((w.apply t e).goto t q).threads u).pc.rest <:+ (w.apply t e).waiters := by
  by_cases same : u = t
  · subst same
    rw [goto_pc]
    by_cases list : (w.apply u e).waiters = w.waiters
    · rw [list]
      obtain shorter | whole := move.rest
      · exact shorter.trans (h.rest u)
      · rw [whole]
    · cases e
      case link c => rw [move.link.2]; exact List.nil_suffix
      case unlink c error => rw [move.unlink.2]; exact List.nil_suffix
      all_goals exact absurd rfl list
  · rw [moved_threads_ne _ _ _ _ _ same]
    by_cases none : (w.threads u).pc.rest = []
    · rw [none]
      exact List.nil_suffix
    · have held := Pc.locked_of_rest none
      have apart : ∀ d, e = .link d ∨ (∃ error, e = .unlink d error) → False := by
        rintro d (rfl | ⟨error, rfl⟩)
        · exact same (h.holder_unique (move.critical rfl) held)
        · exact same (h.holder_unique (move.critical rfl) held)
      rw [apply_waiters]
      cases e
      case link d => exact (apart d (Or.inl rfl)).elim
      case unlink d error => exact (apart d (Or.inr ⟨error, rfl⟩)).elim
      all_goals exact h.rest u

theorem move (m : Move w t (w.threads t).pc e q) : Control ((w.apply t e).goto t q) where
  lock := h.move_lock m
  armed := h.move_armed m
  owner := h.move_owner m
  waker := h.move_waker m
  linked := h.move_linked m
  nodup := h.move_nodup m
  rest := h.move_rest m

end

end Control

/-! ## Handlers and stores -/

/-- What a handler, the arrival of a signal and a guest store leave alone. -/
structure Aside (w v : World) : Prop where
  pc : ∀ t, (v.threads t).pc = (w.threads t).pc
  semaphore : ∀ t, (v.threads t).futexSemaphore = (w.threads t).futexSemaphore
  holder : v.holder = w.holder
  waiters : v.waiters = w.waiters
  nextWait : v.nextWait = w.nextWait
  nextWake : v.nextWake = w.nextWake
  wakes : v.wakes = w.wakes
  waits : ∀ c, ∃ n, v.waits c = { w.waits c with semaphore := n }

theorem Aside.refl (w : World) : Aside w w :=
  ⟨fun _ => rfl, fun _ => rfl, rfl, rfl, rfl, rfl, rfl, fun _ => ⟨_, rfl⟩⟩

theorem setThread_aside (w : World) (t : Nat) {f : Thread → Thread}
    (pc : (f (w.threads t)).pc = (w.threads t).pc)
    (semaphore : (f (w.threads t)).futexSemaphore = (w.threads t).futexSemaphore) :
    Aside w (w.setThread t f) := by
  refine ⟨?_, ?_, rfl, rfl, rfl, rfl, rfl, fun c => ⟨_, rfl⟩⟩
  · intro u
    by_cases same : u = t
    · simp [World.setThread, same, pc]
    · simp [World.setThread, same]
  · intro u
    by_cases same : u = t
    · simp [World.setThread, same, semaphore]
    · simp [World.setThread, same]

theorem post_aside (w : World) (t c : Nat) : Aside w (w.apply t (.post c)) := by
  refine ⟨fun _ => rfl, fun _ => rfl, rfl, rfl, rfl, rfl, rfl, ?_⟩
  intro d
  rw [apply_waits]
  by_cases same : d = c
  · exact ⟨(w.waits d).semaphore + 1, by simp [Effect.onWait, same]⟩
  · exact ⟨(w.waits d).semaphore, by simp [Effect.onWait, same]⟩

theorem Aside.trans {u : World} (h : Aside u v) (h' : Aside v w) : Aside u w := by
  refine ⟨fun t => (h'.pc t).trans (h.pc t), fun t => (h'.semaphore t).trans (h.semaphore t),
    h'.holder.trans h.holder, h'.waiters.trans h.waiters, h'.nextWait.trans h.nextWait,
    h'.nextWake.trans h.nextWake, h'.wakes.trans h.wakes, ?_⟩
  intro c
  obtain ⟨m, hm⟩ := h.waits c
  obtain ⟨n, hn⟩ := h'.waits c
  exact ⟨n, by rw [hn, hm]⟩

theorem stepHandler_aside (w : World) (t : Nat) : Aside w (stepHandler w t) := by
  unfold stepHandler
  split
  · exact .refl w
  · split
    · exact setThread_aside w t rfl rfl
    · exact setThread_aside w t rfl rfl
  · exact setThread_aside w t rfl rfl
  · dsimp only
    split
    · exact (post_aside w t _).trans (setThread_aside _ t rfl rfl)
    · exact setThread_aside w t rfl rfl

theorem store_aside (w : World) (a : Nat) (value : BitVec 32) : Aside w (w.store a value) :=
  ⟨fun _ => rfl, fun _ => rfl, rfl, rfl, rfl, rfl, rfl, fun _ => ⟨_, rfl⟩⟩

theorem Control.aside (h : Control w) (a : Aside w v) : Control v where
  lock t := by rw [a.pc, a.holder]; exact h.lock t
  armed t := by rw [a.pc, a.semaphore]; exact h.armed t
  owner t c now := by
    rw [a.pc] at now
    obtain ⟨n, same⟩ := a.waits c
    rw [a.nextWait, same]
    exact h.owner t c now
  waker t k now := by
    rw [a.pc] at now
    rw [a.nextWake, a.wakes]
    exact h.waker t k now
  linked c := by
    rw [a.waiters, h.linked]
    exact exists_congr fun t => by rw [a.pc]
  nodup := a.waiters ▸ h.nodup
  rest t := by rw [a.pc, a.waiters]; exact h.rest t

theorem start_control (words : Nat → BitVec 32) : Control (start words) where
  lock t := by simp [start, Pc.locked]
  armed t := rfl
  owner t c now := by cases now
  waker t k now := by cases now
  linked c := by simp [start, Pc.linked]
  nodup := List.nodup_nil
  rest t := List.nil_suffix

theorem Control.step (h : Control w) (step : Step w v) : Control v := by
  cases step with
  | move t free m => exact h.move m
  | signal t => exact h.aside (setThread_aside w t rfl rfl)
  | handler t => exact h.aside (stepHandler_aside w t)
  | store a value => exact h.aside (store_aside w a value)

end Linuxemu.Futex
