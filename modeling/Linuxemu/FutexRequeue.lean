import Linuxemu.FutexControl

/-! `futex_requeue` as one function, run under the lock: which waiters it wakes, which it
moves, and that the steps of the call are its own. -/
namespace Linuxemu.Futex
variable {rest : List Nat} {w : World} {address : Nat}
variable {e : Effect} {c t : Nat}

/-- The arguments of `futex_requeue`. -/
structure Requeue where
  address : Nat
  wakeCount : Int
  requeueCount : Int
  second : Nat
  compare : Bool
  expected : BitVec 32

def Requeue.request (q : Requeue) : Request :=
  .requeue q.address q.wakeCount q.requeueCount q.second q.compare q.expected

/-- One waiter on the address that is not woken yet. -/
def Requeue.visit (q : Requeue) (t k c woken requeued : Nat) (w : World) : Nat × Nat × World :=
  if (woken : Int) < q.wakeCount then
    (woken + 1, requeued, (w.apply t (.mark k c)).apply t (.post c))
  else if (requeued : Int) < q.requeueCount then
    (woken, requeued + 1, w.apply t (.requeue c q.second))
  else (woken, requeued, w)

/-- The loop over the waiters, with the number affected. -/
def Requeue.loop (q : Requeue) (t k : Nat) : List Nat → Nat → Nat → World → Nat × World
  | [], woken, requeued, w => (woken + requeued, w)
  | c :: rest, woken, requeued, w =>
    if (w.waits c).address ≠ q.address ∨ (w.waits c).woken = true then
      q.loop t k rest woken requeued w
    else
      let visited := q.visit t k c woken requeued w
      if (visited.1 : Int) = q.wakeCount ∧ (visited.2.1 : Int) = q.requeueCount then
        (visited.1 + visited.2.1, visited.2.2)
      else q.loop t k rest visited.1 visited.2.1 visited.2.2

/-- The call `k` of `futex_requeue` by thread `t`; `lock` is an error of the mutex, if any. -/
def futexRequeue (q : Requeue) (t k : Nat) (lock : Option Errno) (w : World) : Int × World :=
  if q.wakeCount < 0 ∨ q.requeueCount < 0 ∨ q.second = 0 then (-22, w)
  else match lock with
  | some e => (-(linuxErrnoNumber e : Int), w)
  | none =>
    if q.compare = true ∧ w.words q.address ≠ q.expected then (-11, w)
    else
      let done := q.loop t k w.waiters 0 0 w
      (done.1, done.2)

/-! ## The three groups -/

/-- The waiters on the address that are not woken yet, in list order. -/
def World.sleepers (w : World) (address : Nat) (waiters : List Nat) : List Nat :=
  waiters.filter fun c => decide ((w.waits c).address = address) && !(w.waits c).woken

/-- A waiter that call `k` has woken. -/
def Wait.awake (k : Nat) (x : Wait) : Wait :=
  { x with woken := true, markedBy := x.markedBy ++ [k], semaphore := x.semaphore + 1 }

def Wait.moved (second : Nat) (x : Wait) : Wait :=
  { x with address := second, moves := x.moves ++ [(x.address, second)] }

/-- The world once call `k` has woken some waiters and moved others. -/
def World.settle (w : World) (k second : Nat) (woken moved : List Nat) : World :=
  { w with
    waits := fun c =>
      if c ∈ woken then (w.waits c).awake k
      else if c ∈ moved then (w.waits c).moved second else w.waits c
    wakes := Function.update w.wakes k
      { w.wakes k with marked := (w.wakes k).marked + woken.length } }

/-- Two worlds that differ in no field but the records of calls are compared there. -/
theorem World.ext_records {u v : World} (words : u.words = v.words) (holder : u.holder = v.holder)
    (waiters : u.waiters = v.waiters) (threads : u.threads = v.threads)
    (nextWait : u.nextWait = v.nextWait) (nextWake : u.nextWake = v.nextWake)
    (waits : ∀ c, u.waits c = v.waits c) (wakes : ∀ k, u.wakes k = v.wakes k) : u = v := by
  obtain ⟨_, _, _, _, _, _, _, _⟩ := u
  obtain ⟨_, _, _, _, _, _, _, _⟩ := v
  cases words
  cases holder
  cases waiters
  cases threads
  cases nextWait
  cases nextWake
  cases funext waits
  cases funext wakes
  rfl

section
variable {w : World} {t k c second : Nat} {woken moved : List Nat}

theorem settle_nil : w.settle k second [] [] = w := by
  refine World.ext_records rfl rfl rfl rfl rfl rfl (fun x => ?_) (fun j => ?_)
  · simp [World.settle]
  · simp [World.settle]

theorem wake_eq_settle : (w.apply t (.mark k c)).apply t (.post c) = w.settle k second [c] [] := by
  refine World.ext_records rfl rfl rfl rfl rfl rfl (fun x => ?_) (fun j => ?_)
  · by_cases here : x = c
    · subst here
      simp [World.apply, World.setWait, World.setWake, World.settle, Wait.awake]
    · simp [World.apply, World.setWait, World.setWake, World.settle, here]
  · simp [World.apply, World.setWait, World.setWake, World.settle]

theorem move_eq_settle : w.apply t (.requeue c second) = w.settle k second [] [c] := by
  refine World.ext_records rfl rfl rfl rfl rfl rfl (fun x => ?_) (fun j => ?_)
  · by_cases here : x = c
    · subst here
      simp [World.apply, World.setWait, World.settle, Wait.moved]
    · simp [World.apply, World.setWait, World.settle, here]
  · simp [World.apply, World.setWait, World.settle]

/-- A waiter that is in neither group can be woken before the others. -/
theorem settle_wake (other : c ∉ woken) (fixed : c ∉ moved) :
    (w.settle k second [c] []).settle k second woken moved =
      w.settle k second (c :: woken) moved := by
  refine World.ext_records rfl rfl rfl rfl rfl rfl (fun x => ?_) (fun j => ?_)
  · by_cases here : x = c
    · subst here
      simp [World.settle, other, fixed]
    · simp [World.settle, here]
  · simp [World.settle, Nat.add_assoc, Nat.add_comm 1]

/-- Or moved, when no other is to be woken. -/
theorem settle_move (fixed : c ∉ moved) :
    (w.settle k second [] [c]).settle k second [] moved = w.settle k second [] (c :: moved) := by
  refine World.ext_records rfl rfl rfl rfl rfl rfl (fun x => ?_) (fun j => ?_)
  · by_cases here : x = c
    · subst here
      simp [World.settle, fixed]
    · simp [World.settle, here]
  · simp [World.settle]

/-- Waiters in neither group still sleep where they did. -/
theorem sleepers_settle (others : ∀ x ∈ rest, x ∉ woken) (fixed : ∀ x ∈ rest, x ∉ moved) :
    (w.settle k second woken moved).sleepers address rest = w.sleepers address rest := by
  apply List.filter_congr
  intro x member
  simp [World.settle, others x member, fixed x member]

theorem sleepers_cons_skip (skip : (w.waits c).address ≠ address ∨ (w.waits c).woken = true) :
    w.sleepers address (c :: rest) = w.sleepers address rest := by
  apply List.filter_cons_of_neg
  obtain other | woken := skip
  · simp [other]
  · simp [woken]

theorem sleepers_cons (sleeps : ¬ ((w.waits c).address ≠ address ∨ (w.waits c).woken = true)) :
    w.sleepers address (c :: rest) = c :: w.sleepers address rest := by
  apply List.filter_cons_of_pos
  simpa using sleeps

end

theorem not_sleeping (w : World) (address : Nat) (fresh : c ∉ rest) :
    c ∉ w.sleepers address rest := fun member => fresh (List.mem_of_mem_filter member)

/-! ## The loop -/

/-- What a loop that may still wake `left` waiters and move `room` more comes to. -/
def Requeue.outcome (q : Requeue) (k : Nat) (rest : List Nat) (woken requeued left room : Nat)
    (w : World) : Nat × World :=
  let group := w.sleepers q.address rest
  (woken + requeued + ((group.take left).length + ((group.drop left).take room).length),
    w.settle k q.second (group.take left) ((group.drop left).take room))

/-- Once both numbers are reached the rest of the list does not matter. -/
theorem outcome_done (q : Requeue) (k : Nat) (rest : List Nat) (woken requeued : Nat) (w : World) :
    q.outcome k rest woken requeued 0 0 w = (woken + requeued, w) := by
  simp [Requeue.outcome, settle_nil]

section
variable {q : Requeue} {k c woken requeued left room : Nat} {rest : List Nat} {w : World}

theorem outcome_wake (fresh : c ∉ rest)
    (sleeps : ¬ ((w.waits c).address ≠ q.address ∨ (w.waits c).woken = true)) :
    q.outcome k rest (woken + 1) requeued left room (w.settle k q.second [c] []) =
      q.outcome k (c :: rest) woken requeued (left + 1) room w := by
  have same : (w.settle k q.second [c] []).sleepers q.address rest =
      w.sleepers q.address rest := by
    apply sleepers_settle
    · rintro x member here
      rw [List.mem_singleton.mp here] at member
      exact fresh member
    · simp
  have absent := not_sleeping w q.address fresh
  unfold Requeue.outcome
  rw [same, sleepers_cons sleeps]
  refine Prod.ext ?_ ?_
  · simp only [List.take_succ_cons, List.length_cons, List.drop_succ_cons]
    omega
  · simp only [List.take_succ_cons, List.drop_succ_cons]
    apply settle_wake
    · exact fun member => absent (List.mem_of_mem_take member)
    · exact fun member => absent (List.mem_of_mem_drop (List.mem_of_mem_take member))

theorem outcome_move (fresh : c ∉ rest)
    (sleeps : ¬ ((w.waits c).address ≠ q.address ∨ (w.waits c).woken = true)) :
    q.outcome k rest woken (requeued + 1) 0 room (w.settle k q.second [] [c]) =
      q.outcome k (c :: rest) woken requeued 0 (room + 1) w := by
  have same : (w.settle k q.second [] [c]).sleepers q.address rest =
      w.sleepers q.address rest := by
    apply sleepers_settle
    · simp
    · rintro x member here
      rw [List.mem_singleton.mp here] at member
      exact fresh member
  have absent := not_sleeping w q.address fresh
  unfold Requeue.outcome
  rw [same, sleepers_cons sleeps]
  refine Prod.ext ?_ ?_
  · simp only [List.take_zero, List.drop_zero, List.take_succ_cons, List.length_cons]
    omega
  · simp only [List.take_zero, List.drop_zero, List.take_succ_cons]
    exact settle_move fun member => absent (List.mem_of_mem_take member)

end

theorem Requeue.loop_eq (q : Requeue) (t k : Nat) (distinct : rest.Nodup)
    {woken requeued left room : Nat} (wakes : q.wakeCount = woken + left)
    (moves : q.requeueCount = requeued + room) (w : World) :
    q.loop t k rest woken requeued w = q.outcome k rest woken requeued left room w := by
  induction rest generalizing woken requeued left room w with
  | nil => simp [Requeue.loop, Requeue.outcome, World.sleepers, settle_nil]
  | cons c rest ih =>
    obtain ⟨fresh, distinct⟩ := List.nodup_cons.mp distinct
    rw [Requeue.loop]
    split
    · rename_i skip
      rw [ih distinct wakes moves, Requeue.outcome, Requeue.outcome, sleepers_cons_skip skip]
    rename_i sleeps
    -- with both numbers reached the loop stops, and would change nothing if it went on
    have rest {woken requeued left room : Nat} {u : World}
        (wakes : q.wakeCount = woken + left) (moves : q.requeueCount = requeued + room) :
        (if (woken : Int) = q.wakeCount ∧ (requeued : Int) = q.requeueCount then
          (woken + requeued, u) else q.loop t k rest woken requeued u) =
        q.outcome k rest woken requeued left room u := by
      split
      · rename_i done
        obtain rfl : left = 0 := by omega
        obtain rfl : room = 0 := by omega
        exact (outcome_done q k rest woken requeued u).symm
      · exact ih distinct wakes moves u
    dsimp only
    cases left with
    | succ left =>
      have visit : q.visit t k c woken requeued w =
          (woken + 1, requeued, w.settle k q.second [c] []) := by
        rw [Requeue.visit, if_pos (by omega), wake_eq_settle]
      rw [visit]
      exact (rest (by omega) moves).trans (outcome_wake fresh sleeps)
    | zero =>
      cases room with
      | succ room =>
        have visit : q.visit t k c woken requeued w =
            (woken, requeued + 1, w.settle k q.second [] [c]) := by
          rw [Requeue.visit, if_neg (by omega), if_pos (by omega), move_eq_settle]
        rw [visit]
        dsimp only
        exact (rest wakes (by omega)).trans (outcome_move fresh sleeps)
      | zero =>
        have visit : q.visit t k c woken requeued w = (woken, requeued, w) := by
          rw [Requeue.visit, if_neg (by omega), if_neg (by omega)]
        rw [visit]
        exact (rest wakes moves).trans
          ((outcome_done q k _ woken requeued w).trans (outcome_done q k _ woken requeued w).symm)

/-! ## The steps of the call -/

/-- Steps of thread `t`, outside its handlers, and of no other. -/
inductive StepsOf (t : Nat) (w : World) : World → Prop
  | refl : StepsOf t w w
  | next {u : World} {e : Effect} {p : Pc} (before : StepsOf t w u)
      (free : (u.threads t).handlers = []) (move : Move u t (u.threads t).pc e p) :
      StepsOf t w ((u.apply t e).goto t p)

theorem StepsOf.trans {a b c : World} (first : StepsOf t a b) (second : StepsOf t b c) :
    StepsOf t a c := by
  induction second with
  | refl => exact first
  | next _ free move ih => exact ih.next free move

/-- What a step does to the shared state does not depend on where its thread is. -/
theorem apply_goto (w : World) (t : Nat) (p p' : Pc) (e : Effect) :
    ((w.goto t p).apply t e).goto t p' = (w.apply t e).goto t p' := by
  cases e <;>
    simp [World.apply, World.goto, World.setThread, World.setWait, World.setWake]

/-- One step from a place of the call. -/
theorem StepsOf.single {p p' : Pc} (free : (w.threads t).handlers = [])
    (move : Move (w.goto t p) t p e p') :
    StepsOf t (w.goto t p) ((w.apply t e).goto t p') := by
  have there : (w.goto t p).threads t = { w.threads t with pc := p } := by
    simp [World.goto, World.setThread]
  have step : StepsOf t (w.goto t p) (((w.goto t p).apply t e).goto t p') := by
    refine .next .refl ?_ ?_
    · rw [there]
      exact free
    · rw [there]
      exact move
  rwa [apply_goto] at step

section
variable {q : Requeue} {t k : Nat}

/-- A call in hand: its thread runs no handler, and these are its arguments. -/
structure Requeue.InHand (q : Requeue) (t k : Nat) (w : World) : Prop where
  free : (w.threads t).handlers = []
  request : (w.wakes k).request = q.request

section
variable (hand : q.InHand t k w)
include hand

theorem Requeue.InHand.settle (woken moved : List Nat) :
    q.InHand t k (w.settle k q.second woken moved) := by
  refine ⟨hand.free, ?_⟩
  simp only [World.settle, Function.update_self]
  exact hand.request

/-- One step of a requeue at a stage of it. -/
theorem Requeue.InHand.step {stage next : WakeStage}
    (move : WakeMove (w.goto t (.waking k stage)) k stage e (some next)) :
    StepsOf t (w.goto t (.waking k stage)) ((w.apply t e).goto t (.waking k next)) :=
  .single hand.free (.wake move)

/-- From a waiter that sleeps on the address to the test at the end of the loop body. -/
theorem Requeue.InHand.visit (rest : List Nat) (woken requeued : Nat)
    (sleeps : ¬ ((w.waits c).address ≠ q.address ∨ (w.waits c).woken = true)) :
    let visited := q.visit t k c woken requeued w
    q.InHand t k visited.2.2 ∧
    StepsOf t (w.goto t (.waking k (.scan (c :: rest) woken requeued)))
      (visited.2.2.goto t (.waking k (.next rest visited.1 visited.2.1))) := by
  obtain ⟨on, unmarked⟩ : (w.waits c).address = q.address ∧ (w.waits c).woken = false := by
    simpa using sleeps
  unfold Requeue.visit
  split
  · rename_i more
    refine ⟨wake_eq_settle (w := w) ▸ hand.settle [c] [], ?_⟩
    have marked : q.InHand t k (w.apply t (.mark k c)) := by
      refine ⟨hand.free, ?_⟩
      simpa [World.apply, World.setWait, World.setWake] using hand.request
    exact (hand.step (.markFirst hand.request on unmarked more)).trans
      (marked.step (.postedFirst marked.request))
  · rename_i enough
    split
    · rename_i more
      refine ⟨move_eq_settle (w := w) ▸ hand.settle [] [c], ?_⟩
      exact hand.step (.requeue hand.request on unmarked enough more)
    · rename_i full
      exact ⟨hand, hand.step (.leave hand.request on unmarked enough full)⟩

/-- The steps of the loop come to what the function computes. -/
theorem Requeue.InHand.loop (rest : List Nat) (woken requeued : Nat) :
    let done := q.loop t k rest woken requeued w
    q.InHand t k done.2 ∧ StepsOf t (w.goto t (.waking k (.scan rest woken requeued)))
      (done.2.goto t (.waking k (.unlock done.1))) := by
  induction rest generalizing woken requeued w with
  | nil => exact ⟨hand, hand.step (.visited hand.request)⟩
  | cons c rest ih =>
    rw [Requeue.loop]
    split
    · rename_i skip
      obtain ⟨still, steps⟩ := ih hand woken requeued
      exact ⟨still, (hand.step (.other hand.request skip)).trans steps⟩
    · rename_i sleeps
      obtain ⟨after, visit⟩ := hand.visit rest woken requeued sleeps
      dsimp only
      split
      · rename_i done
        exact ⟨after, visit.trans (after.step (.stop after.request done))⟩
      · rename_i more
        obtain ⟨still, steps⟩ := ih after (q.visit t k c woken requeued w).1
          (q.visit t k c woken requeued w).2.1
        exact ⟨still, visit.trans ((after.step (.goOn after.request more)).trans steps)⟩

/-- From the check of the value to the release of the lock, the steps of a call are those of
the function. -/
theorem requeue_steps (valid : q.request.Valid) : let done := futexRequeue q t k none w
    StepsOf t (w.goto t (.waking k .check))
      ((done.2.apply t .release).goto t (.waking k (.finish done.1))) := by
  have good : ¬ (q.wakeCount < 0 ∨ q.requeueCount < 0 ∨ q.second = 0) := valid
  unfold futexRequeue
  rw [if_neg good]
  dsimp only
  split
  · rename_i other
    obtain ⟨compares, differs⟩ := other
    have request : (w.wakes k).request = .requeue q.address q.wakeCount q.requeueCount q.second
        true q.expected := by
      rw [← compares]
      exact hand.request
    exact (hand.step (.compareFailed request differs)).trans (hand.step .mismatch)
  · rename_i same
    obtain ⟨still, steps⟩ := hand.loop w.waiters 0 0
    exact ((hand.step (.compared hand.request same)).trans steps).trans (still.step (.unlock _))

end

end

/-- A requeue under the lock wakes the first sleepers on its address, as many as it may, moves
the next ones, as many as it may, and leaves every other record, the list and all else as they
are; it returns the number of both. With another value in memory it changes nothing, and
neither does one that names no second address. -/
theorem requeue_exact (q : Requeue) (t k : Nat) (w : World) (distinct : w.waiters.Nodup)
    (wakes : 0 ≤ q.wakeCount) (moves : 0 ≤ q.requeueCount) :
    let n := (w.sleepers q.address w.waiters).length
    let woken := (w.sleepers q.address w.waiters).take q.wakeCount.toNat
    let moved := ((w.sleepers q.address w.waiters).drop q.wakeCount.toNat).take
      q.requeueCount.toNat
    woken.length = min q.wakeCount.toNat n ∧
    moved.length = min q.requeueCount.toNat (n - woken.length) ∧
    (q.second ≠ 0 → ¬ (q.compare = true ∧ w.words q.address ≠ q.expected) →
      futexRequeue q t k none w =
        (((woken.length + moved.length : Nat) : Int), w.settle k q.second woken moved)) ∧
    (q.second ≠ 0 → q.compare = true ∧ w.words q.address ≠ q.expected →
      futexRequeue q t k none w = (-11, w)) ∧
    (q.second = 0 → futexRequeue q t k none w = (-22, w)) := by
  intro n woken moved
  refine ⟨List.length_take, ?_, ?_, ?_, ?_⟩
  · simp only [moved, woken, n, List.length_take, List.length_drop]
    omega
  · intro second same
    have valid : ¬ (q.wakeCount < 0 ∨ q.requeueCount < 0 ∨ q.second = 0) := by omega
    unfold futexRequeue
    rw [if_neg valid]
    dsimp only
    rw [if_neg same, q.loop_eq t k distinct (show q.wakeCount = (0 : Nat) + q.wakeCount.toNat by omega)
      (show q.requeueCount = (0 : Nat) + q.requeueCount.toNat by omega)]
    simp only [Requeue.outcome, Nat.add_zero, Nat.zero_add]
    rfl
  · intro second other
    unfold futexRequeue
    rw [if_neg (by omega)]
    exact if_pos other
  · intro none
    exact if_pos (.inr (.inr none))

/-! ### Four waiters -/

/-- Waiters 0, 1 and 2 sleep on one address, 3 on another, and 1 has been woken. -/
def fourWaiters : World :=
  { start (fun _ => 7) with
    waiters := [3, 2, 1, 0]
    nextWait := 4
    waits := fun c => { newWait c (if c = 3 then 0x2000 else 0x1000) 7 false bitsetMatchAny
      (0x7000 + 64 * c) none with woken := decide (c = 1), enqueued := true } }

/-- One is woken and one moved; the woken and the foreign one are passed by. -/
theorem one_woken_one_moved :
    let q : Requeue := ⟨0x1000, 1, 5, 0x3000, true, 7⟩
    futexRequeue q 9 0 none fourWaiters = (2, fourWaiters.settle 0 0x3000 [2] [0]) := by
  intro q
  obtain ⟨-, -, done, -⟩ := requeue_exact q 9 0 fourWaiters (by decide) (by decide) (by decide)
  exact done (by decide) (by decide)

/-- Without a second address nobody is woken, although two sleep and one may be. -/
theorem no_second_address_wakes_nobody :
    let q : Requeue := ⟨0x1000, 1, 0, 0, false, 0⟩
    fourWaiters.waiters.Nodup ∧ (fourWaiters.sleepers q.address fourWaiters.waiters).length = 2 ∧
    (futexRequeue q 9 0 none fourWaiters).1 = -22 ∧
    (futexRequeue q 9 0 none fourWaiters).2.waits 2 = fourWaiters.waits 2 ∧
    (fourWaiters.waits 2).woken = false :=
  ⟨by decide, by decide, by decide, rfl, by decide⟩

end Linuxemu.Futex
