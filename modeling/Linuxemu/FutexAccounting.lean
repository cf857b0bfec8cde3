import Linuxemu.FutexRecords
import Mathlib.Algebra.BigOperators.Intervals

/-! Every mark is one waiter's return of zero. -/
namespace Linuxemu.Futex
open Finset
variable {k : Nat} {v w : World} {p : Pc}

def Request.isWake : Request → Prop
  | .wake _ _ _ => True
  | .requeue _ _ _ _ _ _ => False

/-- The loop counts what it marked; the result of `linux_futex_wake` is that count. -/
def WakeOk (x : Wake) : WakeStage → Prop
  | .lock | .check => x.marked = 0
  | .mismatch => ¬ x.request.isWake
  | .scan _ n m | .next _ n m => x.marked = n ∧ (x.request.isWake → m = 0)
  | .post _ _ n m => x.marked = n + 1 ∧ (x.request.isWake → m = 0)
  | .unlock affected => x.request.isWake → affected = x.marked
  | .finish r => x.request.isWake → r = x.marked

structure Tally (w : World) : Prop where
  count : ∀ t k stage, (w.threads t).pc = .waking k stage → WakeOk (w.wakes k) stage
  finished : ∀ k r, (w.wakes k).result = some r → (w.wakes k).request.isWake → 0 ≤ r →
    r = (w.wakes k).marked
  sum : ∑ k ∈ range w.nextWake, (w.wakes k).marked =
    ∑ c ∈ range w.nextWait, (w.waits c).markedBy.length

section
variable {w : World} {t : Nat} {e : Effect} {q : Pc}

theorem sum_add_one {n d : Nat} (lt : d < n) (f : Nat → Nat) :
    ∑ c ∈ range n, (if c = d then f c + 1 else f c) = (∑ c ∈ range n, f c) + 1 := by
  have split : ∀ c, (if c = d then f c + 1 else f c) = f c + if c = d then 1 else 0 := by
    intro c
    split <;> rfl
  simp only [split, sum_add_distrib, sum_ite_eq', mem_range, lt, if_true]

theorem Move.marker {c : Nat} (h : Move w t p (.mark k c) q) : p.wake = some k := by
  cases h with
  | wait move => cases move
  | waitEnd move => cases move
  | wake move => cases move <;> rfl
  | wakeEnd move => cases move

theorem Move.begun_unmarked {call : Wait} (h : Move w t p (.beginWait call) q) :
    call.markedBy = [] := by
  cases h with
  | refuseWait | beginWait => rfl
  | wait move => cases move
  | waitEnd move => cases move
  | wake move => cases move
  | wakeEnd move => cases move

theorem move_sum_marked (control : Control w) (move : Move w t (w.threads t).pc e q) :
    ∑ k ∈ range (w.apply t e).nextWake, ((w.apply t e).wakes k).marked =
      (∑ k ∈ range w.nextWake, (w.wakes k).marked) +
        match e with
        | .mark _ _ => 1
        | _ => 0 := by
  simp only [apply_wakes]
  rw [apply_nextWake]
  cases e <;> dsimp only [Effect.onWake]
  case beginWake request | refuseWake request =>
    rw [sum_range_succ, if_pos rfl]
    apply congrArg (· + 0)
    apply sum_congr rfl
    intro k mem
    rw [if_neg (Nat.ne_of_lt (mem_range.mp mem))]
  case mark j c =>
    have lt := (control.waker t j move.marker).1
    rw [← sum_add_one lt]
    apply sum_congr rfl
    intro k _
    split <;> rfl
  case finishWake j r =>
    apply sum_congr rfl
    intro k _
    split <;> rfl
  all_goals rfl

theorem move_sum_markedBy (control : Control w) (move : Move w t (w.threads t).pc e q) :
    ∑ c ∈ range (w.apply t e).nextWait, ((w.apply t e).waits c).markedBy.length =
      (∑ c ∈ range w.nextWait, (w.waits c).markedBy.length) +
        match e with
        | .mark _ _ => 1
        | _ => 0 := by
  simp only [apply_waits]
  rw [apply_nextWait]
  cases e <;> dsimp only [Effect.onWait]
  case beginWait call =>
    rw [sum_range_succ, if_pos rfl, move.begun_unmarked]
    apply congrArg (· + 0)
    apply sum_congr rfl
    intro c mem
    rw [if_neg (Nat.ne_of_lt (mem_range.mp mem))]
  case mark k d =>
    have mem := (control.rest t).subset (move.visits rfl)
    obtain ⟨_, _, lt, _⟩ := control.linked_owner mem
    rw [← sum_add_one lt]
    apply sum_congr rfl
    intro c _
    split <;> simp
  case see d | link d | unlink d | take d | post d | requeue d | finishWait d =>
    apply sum_congr rfl
    intro c _
    split <;> rfl
  all_goals rfl

/-- The wake call whose own step this is. -/
def Effect.waker : Effect → Option Nat
  | .mark k _ | .finishWake k _ => some k
  | _ => none

theorem Move.waker (h : Move w t p e q) (mine : e.waker = some k) :
    p.wake = some k := by
  cases h with
  | refuseWait | beginWait | refuseWake | beginWake => cases mine
  | wait move => cases move <;> cases mine
  | waitEnd move => cases move <;> cases mine
  | wake move => cases move <;> first | exact mine | cases mine
  | wakeEnd move => cases move <;> exact mine

/-- A step leaves the wake calls of other threads alone. -/
theorem onWake_other (control : Control w) (move : Move w t (w.threads t).pc e q) {u : Nat}
    (ne : u ≠ t) (now : (w.threads u).pc.wake = some k) :
    e.onWake w t k (w.wakes k) = w.wakes k := by
  obtain ⟨lt, thread, _⟩ := control.waker u k now
  have apart : e.waker ≠ some k := by
    intro mine
    exact ne (thread.symm.trans (control.waker t k (move.waker mine)).2.1)
  cases e <;> dsimp only [Effect.onWake, Effect.waker] at apart ⊢
  case beginWake | refuseWake => rw [if_neg (Nat.ne_of_lt lt)]
  case mark j c | finishWake j r => rw [if_neg fun same => apart (by rw [same])]

namespace Tally

section
variable (h : Tally w)
include h

theorem move_own {stage : WakeStage} (move : Move w t (w.threads t).pc e (.waking k stage)) :
    WakeOk (e.onWake w t k (w.wakes k)) stage := by
  generalize pc : (w.threads t).pc = p at move
  cases move with
  | beginWake request valid => simp [Effect.onWake, WakeOk]
  | wake move =>
    have ok := h.count t k _ pc
    cases move <;> simp only [Effect.onWake, if_true] <;> dsimp only [WakeOk] at ok ⊢
    case lock => exact ok
    case compareFailed request _ => rw [request]; exact id
    case mismatch => exact fun wake => absurd wake ok
    case compared => exact ⟨ok, fun _ => rfl⟩
    case begin => exact ⟨ok, fun _ => rfl⟩
    case enough => exact fun wake => by rw [ok.1, ok.2 wake]; rfl
    case pass | other | leave | goOn => exact ok
    case mark | markFirst => exact ⟨by rw [ok.1], ok.2⟩
    case posted | postedFirst => exact ok
    case visited => exact fun wake => by rw [ok.1, ok.2 wake]; rfl
    case requeue request _ _ _ _ => exact ⟨ok.1, by rw [request]; exact False.elim⟩
    case stop => exact fun wake => by rw [ok.1, ok.2 wake]; rfl
    case unlock => exact fun wake => by rw [ok wake]

/-- A wake that returns a count returns the number it marked. -/
theorem move_finish {r : Int} (move : Move w t (w.threads t).pc (.finishWake k r) q)
    (wake : (w.wakes k).request.isWake) (nonneg : 0 ≤ r) : r = (w.wakes k).marked := by
  generalize pc : (w.threads t).pc = p at move
  cases move with
  | wait move => cases move
  | waitEnd move => cases move
  | wake move => cases move
  | wakeEnd move =>
    have ok := h.count t _ _ pc
    cases move with
    | lockFailed e =>
      have := linuxErrnoNumber_pos e
      omega
    | finish => exact ok wake

theorem move_finished (control : Control w) (move : Move w t (w.threads t).pc e q) (k : Nat)
    (r : Int) (result : (e.onWake w t k (w.wakes k)).result = some r)
    (wake : (e.onWake w t k (w.wakes k)).request.isWake) (nonneg : 0 ≤ r) :
    r = (e.onWake w t k (w.wakes k)).marked := by
  cases e <;> dsimp only [Effect.onWake] at result wake ⊢
  case beginWake request =>
    split at result
    · cases result
    · rename_i ne
      rw [if_neg ne] at wake ⊢
      exact h.finished k r result wake nonneg
  case refuseWake request =>
    split at result
    · cases result
      omega
    · rename_i ne
      rw [if_neg ne] at wake ⊢
      exact h.finished k r result wake nonneg
  case mark j c =>
    by_cases same : k = j
    · subst same
      rw [if_pos rfl, (control.waker t k move.marker).2.2] at result
      cases result
    · rw [if_neg same] at result wake ⊢
      exact h.finished k r result wake nonneg
  case finishWake j r' =>
    by_cases same : k = j
    · subst same
      rw [if_pos rfl] at result wake ⊢
      cases result
      exact h.move_finish move wake nonneg
    · rw [if_neg same] at result wake ⊢
      exact h.finished k r result wake nonneg
  all_goals exact h.finished k r result wake nonneg

theorem move (control : Control w) (m : Move w t (w.threads t).pc e q) :
    Tally ((w.apply t e).goto t q) where
  count u k stage now := by
    show WakeOk ((w.apply t e).wakes k) stage
    rw [apply_wakes]
    by_cases same : u = t
    · subst same
      rw [goto_pc] at now
      subst now
      exact h.move_own m
    · rw [moved_threads_ne _ _ _ _ _ same] at now
      rw [onWake_other control m same (by rw [now]; rfl)]
      exact h.count u k stage now
  finished k := by
    show ∀ r, ((w.apply t e).wakes k).result = some r → ((w.apply t e).wakes k).request.isWake →
      0 ≤ r → r = ((w.apply t e).wakes k).marked
    rw [apply_wakes]
    exact h.move_finished control m k
  sum := by
    show ∑ k ∈ range (w.apply t e).nextWake, ((w.apply t e).wakes k).marked =
      ∑ c ∈ range (w.apply t e).nextWait, ((w.apply t e).waits c).markedBy.length
    rw [move_sum_marked control m, move_sum_markedBy control m, h.sum]

theorem aside (a : Aside w v) : Tally v where
  count u k stage now := by
    rw [a.pc] at now
    rw [a.wakes]
    exact h.count u k stage now
  finished k := by
    rw [a.wakes]
    exact h.finished k
  sum := by
    rw [a.nextWake, a.nextWait, a.wakes, h.sum]
    apply sum_congr rfl
    intro c _
    obtain ⟨n, same⟩ := a.waits c
    rw [same]

theorem step (control : Control w) (step : Step w v) : Tally v := by
  cases step with
  | move t free m => exact h.move control m
  | signal t => exact h.aside (setThread_aside w t rfl rfl)
  | handler t => exact h.aside (stepHandler_aside w t)
  | store a value => exact h.aside (store_aside w a value)

end

end Tally

end

theorem start_tally (words : Nat → BitVec 32) : Tally (start words) where
  count t k stage now := by cases now
  finished k r result := by cases result
  sum := rfl

structure Inv (w : World) : Prop where
  control : Control w
  records : Records w
  tally : Tally w

theorem Inv.step (h : Inv w) (step : Step w v) : Inv v :=
  ⟨h.control.step step, h.records.step h.control step, h.tally.step h.control step⟩

theorem Inv.runs (h : Inv w) (runs : Runs w v) : Inv v := by
  induction runs with
  | refl => exact h
  | next _ step ih => exact ih.step step

theorem reachable_inv (h : Reachable w) : Inv w := by
  obtain ⟨words, runs⟩ := h
  exact Inv.runs ⟨start_control words, start_records words, start_tally words⟩ runs

/-- A finished call counts once if it returned zero, a running one if it is
marked. -/
theorem CallOk.weight {x : Wait} (h : CallOk x) :
    ((if x.result = some 0 then 1 else 0) +
      if x.markedBy ≠ [] ∧ x.result = none then 1 else 0) = x.markedBy.length := by
  have once := h.once
  have settled := h.settled
  cases marks : x.markedBy with
  | nil =>
    have nonzero : x.result ≠ some 0 := by
      intro zero
      exact (settled 0 zero).mp rfl marks
    simp [nonzero]
  | cons k rest =>
    have one : rest = [] := by
      rw [marks, List.length_cons] at once
      exact List.length_eq_zero_iff.mp (by omega)
    cases result : x.result with
    | none => simp [one]
    | some r =>
      have zero : r = 0 := (settled r result).mpr (by simp [marks])
      simp [one, zero]

theorem Runs.move {u : World} (h : Runs u w) {t : Nat} {e : Effect} {q : Pc}
    (pc : (w.threads t).pc = p) (free : (w.threads t).handlers = []) (m : Move w t p e q) :
    Runs u ((w.apply t e).goto t q) :=
  h.next (.move t free (pc ▸ m))

/-- Over every interleaving: a waiter is marked by at most one wake or requeue, its
`futex_wait` returns 0 exactly if it was marked (so never `-EINTR` or `-110` then),
a wake returns the number it marked, and the marks of all calls are the waits that
returned 0 and the marked ones still on their way. -/
theorem wake_accounting {w : World} (reachable : Reachable w) :
    (∀ c, (w.waits c).markedBy.length ≤ 1) ∧
    (∀ c r, (w.waits c).result = some r → (r = 0 ↔ (w.waits c).markedBy ≠ [])) ∧
    (∀ c, (w.waits c).markedBy ≠ [] →
      (w.waits c).result ≠ some (-4) ∧ (w.waits c).result ≠ some (-110)) ∧
    (∀ k r, (w.wakes k).result = some r → (w.wakes k).request.isWake → 0 ≤ r →
      r = (w.wakes k).marked) ∧
    ∑ k ∈ range w.nextWake, (w.wakes k).marked =
      ((range w.nextWait).filter fun c => (w.waits c).result = some 0).card +
      ((range w.nextWait).filter fun c =>
        (w.waits c).markedBy ≠ [] ∧ (w.waits c).result = none).card := by
  have inv := reachable_inv reachable
  have call := inv.records.call
  refine ⟨fun c => (call c).once, fun c => (call c).settled, ?_, inv.tally.finished, ?_⟩
  · intro c marked
    have settled := (call c).settled
    constructor
    · intro result
      exact absurd ((settled _ result).mpr marked) (by decide)
    · intro result
      exact absurd ((settled _ result).mpr marked) (by decide)
  · rw [inv.tally.sum, card_filter, card_filter, ← sum_add_distrib]
    apply sum_congr rfl
    intro c _
    exact (call c).weight.symm

/-- A list of steps, each with its thread, its effect and where it leads. -/
def played : List (Nat × Effect × Pc) → World → World
  | [], w => w
  | (t, e, p) :: rest, w => played rest ((w.apply t e).goto t p)

/-- Thread 0 sleeps on word 100. -/
def asleep : World := played
  [(0, .beginWait (newWait 0 100 0 false bitsetMatchAny 4096 none), .waiting 0 .lock),
    (0, .acquire, .waiting 0 .check), (0, .see 0 0, .waiting 0 .link),
    (0, .link 0, .waiting 0 .reset), (0, .clearInterrupted, .waiting 0 .arm),
    (0, .arm 0, .waiting 0 .unlock), (0, .release, .waiting 0 .sleep)] (start fun _ => 0)

theorem asleep_runs : Runs (start fun _ => 0) asleep := by
  have called := Runs.refl.move (w := start fun _ => 0) (t := 0) rfl rfl (.beginWait 100 0 false bitsetMatchAny 4096
    (by decide) ⟨by decide, by decide, by intro c lt; cases lt⟩)
  have locked := called.move (t := 0) rfl rfl (.wait (.lock rfl))
  have checked := locked.move (t := 0) rfl rfl (.wait (.agrees rfl))
  have linked := checked.move (t := 0) rfl rfl (.wait .link)
  have reset := linked.move (t := 0) rfl rfl (.wait .reset)
  have armed := reset.move (t := 0) rfl rfl (.wait .arm)
  exact armed.move (t := 0) rfl rfl (.wait .unlock)

/-- A signal handler posts its semaphore, then thread 1 wakes it. -/
def signalledAndWoken : World := played
  [(1, .beginWake (.wake 100 1 bitsetMatchAny), .waking 0 .lock),
    (1, .acquire, .waking 0 .check), (1, .silent, .waking 0 (.scan [0] 0 0)),
    (1, .mark 0 0, .waking 0 (.post 0 [] 0 0)), (1, .post 0, .waking 0 (.scan [] 1 0)),
    (1, .silent, .waking 0 (.unlock 1)), (1, .release, .waking 0 (.finish 1)),
    (1, .finishWake 0 1, .idle)]
  (stepHandler (stepHandler (stepHandler
    (asleep.setThread 0 fun x => { x with handlers := .test :: x.handlers }) 0) 0) 0)

theorem signalledAndWoken_runs : Runs (start fun _ => 0) signalledAndWoken := by
  have signalled := asleep_runs.next (.signal _ 0)
  have handled := ((signalled.next (.handler _ 0)).next (.handler _ 0)).next (.handler _ 0)
  have called := handled.move (t := 1) rfl rfl
    (.beginWake (.wake 100 1 bitsetMatchAny) (by simp [Request.Valid, bitsetMatchAny]))
  have locked := called.move (t := 1) rfl rfl (.wake (.lock rfl))
  have scans := locked.move (t := 1) rfl rfl (.wake (.begin rfl))
  have marks := scans.move (t := 1) rfl rfl
    (.wake (.mark (c := 0) rfl (by decide) rfl (by decide) rfl))
  have posts := marks.move (t := 1) rfl rfl (.wake (.posted rfl))
  have ends := posts.move (t := 1) rfl rfl (.wake (.enough rfl (Or.inl rfl)))
  have unlocks := ends.move (t := 1) rfl rfl (.wake (.unlock 1))
  exact unlocks.move (t := 1) rfl rfl (.wakeEnd (.finish 1))

/-- Thread 0 takes one of the two posts, finds itself interrupted and returns. -/
def returnedZero : World := played
  [(0, .take 0, .waiting 0 (.disarm none)), (0, .disarm, .waiting 0 (.read none)),
    (0, .silent, .waiting 0 (.clear none true)),
    (0, .clearInterrupted, .waiting 0 (.relock (some .eintr))),
    (0, .acquire, .waiting 0 (.remove (some .eintr))),
    (0, .unlink 0 (some .eintr), .waiting 0 (.release (some .eintr))),
    (0, .release, .waiting 0 (.finish (some .eintr))), (0, .finishWait 0 0, .idle)]
  signalledAndWoken

theorem returnedZero_reachable : Reachable returnedZero := by
  have taken := signalledAndWoken_runs.move (t := 0) rfl rfl (.wait (.posted (by decide)))
  have disarmed := taken.move (t := 0) rfl rfl (.wait (.disarm none))
  have read := disarmed.move (t := 0) rfl rfl (.wait (.read none))
  have cleared := read.move (t := 0) rfl rfl (.wait (.clear none true))
  have relocked := cleared.move (t := 0) rfl rfl (.wait (.relock (some .eintr) rfl))
  have removed := relocked.move (t := 0) rfl rfl (.wait (.remove (some .eintr)))
  have released := removed.move (t := 0) rfl rfl (.wait (.release (some .eintr)))
  exact ⟨_, released.move (t := 0) rfl rfl (.waitEnd (.finish (some .eintr)))⟩

theorem interrupted_waiter_counted :
    (returnedZero.waits 0).result = some 0 ∧ (returnedZero.waits 0).markedBy = [0] ∧
      ∑ k ∈ range returnedZero.nextWake, (returnedZero.wakes k).marked =
        ((range returnedZero.nextWait).filter fun c =>
          (returnedZero.waits c).result = some 0).card +
        ((range returnedZero.nextWait).filter fun c =>
          (returnedZero.waits c).markedBy ≠ [] ∧ (returnedZero.waits c).result = none).card :=
  ⟨rfl, rfl, (wake_accounting returnedZero_reachable).2.2.2.2⟩

end Linuxemu.Futex
