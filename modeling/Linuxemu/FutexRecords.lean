import Linuxemu.FutexControl

/-! What the record of a `futex_wait` says at each of its steps: its semaphore is
posted only after it was marked or its thread interrupted. -/
namespace Linuxemu.Futex
variable {stage : WaitStage} {c k : Nat} {x : Wait} {i : Bool} {p : Pc}

/-- The call read the value it expected and entered the list. -/
def Passed (x : Wait) : Prop := x.seen = some x.expected ∧ x.enqueued = true

def StageOk (x : Wait) (interrupted : Bool) : WaitStage → Prop
  | .lock | .check => x.seen = none ∧ x.enqueued = false ∧ x.semaphore = 0
  | .mismatch | .again => (∃ v, x.seen = some v ∧ v ≠ x.expected) ∧ x.enqueued = false
  | .link => x.seen = some x.expected ∧ x.enqueued = false ∧ x.semaphore = 0
  | .reset | .arm => Passed x ∧ (0 < x.semaphore → x.woken = true)
  | .unlock | .sleep => Passed x ∧ (0 < x.semaphore → x.woken = true ∨ interrupted = true)
  | .disarm error | .read error =>
    Passed x ∧ (error = none → x.woken = true ∨ interrupted = true)
  | .clear error i => Passed x ∧ (error = none → x.woken = true ∨ i = true)
  | .relock error | .remove error | .release error | .finish error =>
    Passed x ∧ (error = none → x.woken = true)

/-- A handler past its test has a semaphore, and sets the flag before it posts. -/
def HandlerOk (th : Thread) : HandlerStage → Prop
  | .test => True
  | .interrupt => th.futexSemaphore ≠ none
  | .post => th.futexSemaphore ≠ none ∧ th.futexInterrupted = true

structure CallOk (x : Wait) : Prop where
  marked : x.woken = true ↔ x.markedBy ≠ []
  once : x.markedBy.length ≤ 1
  listed : x.markedBy ≠ [] → x.enqueued = true
  settled : ∀ r, x.result = some r → (r = 0 ↔ x.markedBy ≠ [])
  turnedAway : ∀ v, x.seen = some v → v ≠ x.expected →
    x.enqueued = false ∧ ∀ r, x.result = some r → r = -11

structure Records (w : World) : Prop where
  stage : ∀ t c stage, (w.threads t).pc = .waiting c stage →
    StageOk (w.waits c) (w.threads t).futexInterrupted stage
  handlers : ∀ t, ∀ h ∈ (w.threads t).handlers, HandlerOk (w.threads t) h
  posting : ∀ t k c rest n m, (w.threads t).pc = .waking k (.post c rest n m) →
    (w.waits c).woken = true
  call : ∀ c, CallOk (w.waits c)

/-! ## What others may do to a record -/

section
variable (h : StageOk x i stage)
include h

theorem StageOk.mark (linked : stage.linked = true) (k : Nat) :
    StageOk { x with woken := true, markedBy := x.markedBy ++ [k] } i stage := by
  cases stage <;> first
    | exact ⟨h.1, fun _ => rfl⟩
    | exact ⟨h.1, fun _ => Or.inl rfl⟩
    | cases linked

theorem StageOk.post (linked : stage.linked = true) (woken : x.woken = true) :
    StageOk { x with semaphore := x.semaphore + 1 } i stage := by
  cases stage <;> first
    | exact ⟨h.1, fun _ => woken⟩
    | exact ⟨h.1, fun _ => Or.inl woken⟩
    | cases linked

theorem StageOk.requeue (a : Nat) (moves : List (Nat × Nat)) :
    StageOk { x with address := a, moves := moves } i stage := by
  cases stage <;> exact h

/-- A handler's post, after it set the flag. -/
theorem StageOk.handler (armed : stage.armed = true) (n : Nat) :
    StageOk { x with semaphore := n } true stage := by
  cases stage <;> first
    | exact ⟨h.1, fun _ => Or.inr rfl⟩
    | cases armed

theorem StageOk.interrupt : StageOk x true stage := by
  cases stage <;> first
    | exact h
    | exact ⟨h.1, fun _ => Or.inr rfl⟩

theorem StageOk.passed_of_linked (linked : stage.linked = true) : Passed x := by
  cases stage <;> first
    | exact h.1
    | cases linked

end

theorem Pc.waiting_of_linked (h : p.linked = some c) :
    ∃ stage, p = .waiting c stage ∧ stage.linked = true := by
  cases p with
  | idle | waking => cases h
  | waiting d stage =>
    simp only [Pc.linked] at h
    split at h
    · rename_i linked
      cases h
      exact ⟨stage, rfl, linked⟩
    · cases h

theorem Pc.waiting_of_wait (h : p.wait = some c) :
    ∃ stage, p = .waiting c stage := by
  cases p with
  | idle | waking => cases h
  | waiting d stage => cases h; exact ⟨stage, rfl⟩

/-! ## Whose record a step changes -/

/-- The call whose own step this is. -/
def Effect.own : Effect → Option Nat
  | .see c _ | .link c | .unlink c _ | .take c | .finishWait c _ => some c
  | _ => none

/-- The waiter that a loop changes. -/
def Effect.visits : Effect → Option Nat
  | .mark _ c | .post c | .requeue c _ => some c
  | _ => none

section
variable {w : World} {t : Nat} {p q : Pc} {e : Effect}

theorem Move.own (h : Move w t p e q) (own : e.own = some c) : p.wait = some c := by
  cases h with
  | refuseWait | beginWait | refuseWake | beginWake => cases own
  | wait move => cases move <;> first | exact own | cases own
  | waitEnd move => cases move <;> exact own
  | wake move => cases move <;> cases own
  | wakeEnd move => cases move <;> cases own

theorem Move.visits (h : Move w t p e q) (visits : e.visits = some c) : c ∈ p.rest := by
  cases h with
  | refuseWait | beginWait | refuseWake | beginWake => cases visits
  | wait move => cases move <;> cases visits
  | waitEnd move => cases move <;> cases visits
  | wake move => cases move <;> first | (cases visits; exact List.mem_cons_self) | cases visits
  | wakeEnd move => cases move <;> cases visits

/-- A waiter is marked at most once, and posted after it was marked. -/
theorem Move.mark (h : Move w t p (.mark k c) q) : (w.waits c).woken = false := by
  cases h with
  | wait move => cases move
  | waitEnd move => cases move
  | wake move => cases move <;> assumption
  | wakeEnd move => cases move

theorem Move.post (h : Move w t p (.post c) q) :
    ∃ k rest n m, p = .waking k (.post c rest n m) := by
  cases h with
  | wait move => cases move
  | waitEnd move => cases move
  | wake move => cases move <;> exact ⟨_, _, _, _, rfl⟩
  | wakeEnd move => cases move

end

/-! ## Steps -/

namespace Records
variable {w : World} {t : Nat} {e : Effect} {q : Pc}

/-- A step of another thread keeps what a record says. -/
theorem move_other (h : Records w) (control : Control w) (move : Move w t (w.threads t).pc e q)
    {u : Nat} (ne : u ≠ t) (pc : (w.threads u).pc = .waiting c stage) :
    StageOk (e.onWait w c (w.waits c)) (w.threads u).futexInterrupted stage := by
  have ok := h.stage u c stage pc
  have waits : (w.threads u).pc.wait = some c := by rw [pc]; rfl
  have notOwn : e.own ≠ some c := fun own => ne (control.owner_unique (move.own own) waits)
  -- a waiter that a loop visits is linked
  have linked : e.visits = some c → stage.linked = true := by
    intro visits
    have mem := (control.rest t).subset (move.visits visits)
    obtain ⟨v, linked⟩ := (control.linked c).mp mem
    have same := control.owner_unique waits (Pc.wait_of_linked linked)
    rw [same, pc] at linked
    obtain ⟨stage', eq, yes⟩ := Pc.waiting_of_linked linked
    cases eq
    exact yes
  cases e <;> dsimp only [Effect.onWait, Effect.own, Effect.visits] at notOwn linked ⊢
  case beginWait call =>
    rw [if_neg (Nat.ne_of_lt (control.owner u c waits).1)]
    exact ok
  case mark k d =>
    split
    · rename_i same
      exact ok.mark (linked (by rw [same])) k
    · exact ok
  case post d =>
    split
    · rename_i same
      obtain ⟨k, rest, n, m, pcT⟩ := move.post
      subst same
      exact ok.post (linked rfl) (h.posting t k c rest n m pcT)
    · exact ok
  case requeue d second =>
    split
    · exact ok.requeue _ _
    · exact ok
  case see d | link d | unlink d | take d | finishWait d =>
    rw [if_neg (fun same => notOwn (by rw [same]))]
    exact ok
  all_goals exact ok

theorem goto_interrupted (p : Pc) :
    ((w.goto t p).threads t).futexInterrupted = (w.threads t).futexInterrupted := by
  simp [World.goto, World.setThread]

theorem apply_interrupted :
    ((w.apply t e).threads t).futexInterrupted = match e with
      | .clearInterrupted => false
      | _ => (w.threads t).futexInterrupted := by
  cases e <;> simp [World.apply, World.setThread, World.setWait, World.setWake]

/-- The step of a `futex_wait` leads from what its record says to what it says
next. -/
theorem move_own (h : Records w) (move : Move w t (w.threads t).pc e (.waiting c stage)) :
    StageOk ((w.apply t e).waits c) ((w.apply t e).threads t).futexInterrupted stage := by
  rw [apply_waits, apply_interrupted]
  generalize pc : (w.threads t).pc = p at move
  cases move with
  | beginWait address expected timeout bitset pointer valid place =>
    simp [Effect.onWait, StageOk, newWait]
  | wait move =>
    have ok := h.stage t c _ pc
    cases move <;> simp only [Effect.onWait, if_true] <;> dsimp only [StageOk] at ok ⊢
    case lock => exact ok
    case agrees same => exact ⟨by rw [same], ok.2⟩
    case differs other => exact ⟨⟨_, rfl, other⟩, ok.2.1⟩
    case mismatch => exact ok
    case link => exact ⟨⟨ok.1, rfl⟩, fun pos => by rw [ok.2.2] at pos; cases pos⟩
    case reset => exact ok
    case arm => exact ⟨ok.1, fun pos => Or.inl (ok.2 pos)⟩
    case unlock => exact ok
    case posted pos => exact ⟨ok.1, fun _ => ok.2 pos⟩
    case failed e why => exact ⟨ok.1, fun none => by cases none⟩
    case disarm => exact ok
    case read error => exact ok
    case clear error interrupted =>
      refine ⟨ok.1, ?_⟩
      intro none
      split at none
      · cases none
      · rename_i quiet
        obtain woken | i := ok.2 none
        · exact woken
        · exact absurd ⟨i, none⟩ quiet
    case relock => exact ok
    case remove => exact ok
    case release => exact ok

theorem waitResult_eq_zero {woken : Bool} {error : Option Errno} (h : error = none → woken = true) :
    waitResult woken error = 0 ↔ woken = true := by
  unfold waitResult
  cases woken with
  | true => simp
  | false =>
    have pos := linuxErrnoNumber_pos
    split
    · contradiction
    · split
      · simp
      · exact absurd (h rfl) (by decide)
      · rename_i e _
        have := pos e
        simp only [Bool.false_eq_true, iff_false]
        omega

theorem newWait_ok {thread address pointer : Nat} {expected bitset : BitVec 32} {deadline : Bool}
    {result : Option Int} (nonzero : result ≠ some 0) :
    CallOk (newWait thread address expected deadline bitset pointer result) where
  marked := by simp [newWait]
  once := by simp [newWait]
  listed := by simp [newWait]
  settled r h := by
    have : r ≠ 0 := fun zero => nonzero (zero ▸ h)
    simp [newWait, this]
  turnedAway v seen := by cases seen

theorem begun_ok {call : Wait} (move : Move w t p (.beginWait call) q) : CallOk call := by
  have pos := linuxErrnoNumber_pos
  cases move with
  | refuseWait address expected timeout bitset pointer result why =>
    apply newWait_ok
    intro zero
    cases zero
    rcases why with ⟨_, r⟩ | ⟨_, _, r⟩ | ⟨_, e, r⟩
    · cases r
    · cases r
    · have := pos e
      omega
  | beginWait => exact newWait_ok (by simp)
  | wait move => cases move
  | waitEnd move => cases move
  | wake move => cases move
  | wakeEnd move => cases move

theorem finished_ok (h : Records w) {r : Int}
    (move : Move w t (w.threads t).pc (.finishWait c r) q) :
    CallOk { w.waits c with result := some r } := by
  have call := h.call c
  have pos := linuxErrnoNumber_pos
  generalize pc : (w.threads t).pc = p at move
  -- a call that never entered the list was not marked
  have unlisted : (w.waits c).enqueued = false → r ≠ 0 → ∀ r', some r = some r' →
      (r' = 0 ↔ (w.waits c).markedBy ≠ []) := by
    rintro out nonzero _ ⟨⟩
    apply iff_of_false nonzero
    intro marked
    rw [call.listed marked] at out
    cases out
  cases move with
  | wait move => cases move
  | wake move => cases move
  | wakeEnd move => cases move
  | waitEnd move =>
    have ok := h.stage t _ _ pc
    cases move with
    | lockFailed e =>
      have := pos e
      refine ⟨call.marked, call.once, call.listed, unlisted ok.2.1 (by omega), ?_⟩
      intro v seen
      rw [show (w.waits c).seen = none from ok.1] at seen
      cases seen
    | again =>
      refine ⟨call.marked, call.once, call.listed, unlisted ok.2 (by decide), ?_⟩
      intro v seen differs
      exact ⟨ok.2, fun r' same => (Option.some.inj same).symm⟩
    | finish error =>
      refine ⟨call.marked, call.once, call.listed, ?_, ?_⟩
      · rintro _ ⟨⟩
        rw [waitResult_eq_zero ok.2]
        exact call.marked
      · intro v seen differs
        rw [show (w.waits c).seen = _ from ok.1.1] at seen
        exact absurd (Option.some.inj seen).symm differs

theorem marked_ok (h : Records w) (control : Control w)
    (move : Move w t (w.threads t).pc (.mark k c) q) :
    CallOk { w.waits c with woken := true, markedBy := (w.waits c).markedBy ++ [k] } := by
  have call := h.call c
  have unmarked : (w.waits c).markedBy = [] := by
    by_contra some
    rw [← ne_eq, ← call.marked, move.mark] at some
    cases some
  have mem := (control.rest t).subset (move.visits rfl)
  obtain ⟨u, linked, _, running⟩ := control.linked_owner mem
  obtain ⟨stage, pc, yes⟩ := Pc.waiting_of_linked linked
  have passed := (h.stage u c stage pc).passed_of_linked yes
  refine ⟨by simp, by simp [unmarked], fun _ => passed.2, ?_, ?_⟩
  · intro r result
    rw [show (w.waits c).result = none from running] at result
    cases result
  · intro v seen differs
    rw [show (w.waits c).seen = _ from passed.1] at seen
    exact absurd (Option.some.inj seen).symm differs

theorem move_call (h : Records w) (control : Control w) (move : Move w t (w.threads t).pc e q)
    (c : Nat) : CallOk (e.onWait w c (w.waits c)) := by
  have call := h.call c
  cases e <;> dsimp only [Effect.onWait]
  case beginWait new =>
    split
    · exact begun_ok move
    · exact call
  case see d value =>
    split
    · rename_i same
      subst same
      obtain ⟨stage, pc⟩ := Pc.waiting_of_wait (move.own rfl)
      have running := (control.owner t c (move.own rfl)).2.2
      have ok := h.stage t c stage pc
      refine ⟨call.marked, call.once, call.listed, call.settled, ?_⟩
      intro v _ _
      constructor
      · rw [pc] at move
        cases move with
        | wait move => cases move <;> exact ok.2.1
        | waitEnd move => cases move
      · intro r result
        rw [show (w.waits c).result = none from running] at result
        cases result
    · exact call
  case link d =>
    split
    · rename_i same
      subst same
      have ok := h.stage t c _ move.link.1
      refine ⟨call.marked, call.once, fun _ => rfl, call.settled, ?_⟩
      intro v seen differs
      rw [show (w.waits c).seen = _ from ok.1] at seen
      exact absurd (Option.some.inj seen).symm differs
    · exact call
  case mark k d =>
    split
    · rename_i same
      subst same
      exact h.marked_ok control move
    · exact call
  case finishWait d r =>
    split
    · rename_i same
      subst same
      exact h.finished_ok move
    · exact call
  case unlink d error | take d | post d | requeue d second =>
    split
    · exact ⟨call.marked, call.once, call.listed, call.settled, call.turnedAway⟩
    · exact call
  all_goals exact call

theorem onWait_woken (lt : c < w.nextWait) (woken : x.woken = true) :
    (e.onWait w c x).woken = true := by
  cases e <;> dsimp only [Effect.onWait]
  case beginWait call => rw [if_neg (Nat.ne_of_lt lt)]; exact woken
  all_goals first
    | exact woken
    | (split <;> first | exact woken | rfl)

theorem move_posting (h : Records w) (control : Control w) (move : Move w t (w.threads t).pc e q)
    {u n m : Nat} {rest : List Nat}
    (now : (((w.apply t e).goto t q).threads u).pc = .waking k (.post c rest n m)) :
    ((w.apply t e).waits c).woken = true := by
  rw [apply_waits]
  by_cases same : u = t
  · subst same
    rw [goto_pc] at now
    subst now
    generalize (w.threads u).pc = p at move
    cases move with
    | wake move => cases move <;> simp [Effect.onWait]
  · rw [moved_threads_ne _ _ _ _ _ same] at now
    have mem : c ∈ w.waiters := by
      apply (control.rest u).subset
      rw [now]
      exact List.mem_cons_self
    obtain ⟨_, _, lt, _⟩ := control.linked_owner mem
    exact onWait_woken lt (h.posting u k c rest n m now)

theorem apply_handlers : ((w.apply t e).threads t).handlers = (w.threads t).handlers := by
  cases e <;> simp [World.apply, World.setThread, World.setWait, World.setWake]

section
variable (h : Records w)
include h

theorem move (control : Control w) (free : (w.threads t).handlers = [])
    (m : Move w t (w.threads t).pc e q) : Records ((w.apply t e).goto t q) where
  stage u c stage now := by
    show StageOk ((w.apply t e).waits c) _ stage
    by_cases same : u = t
    · subst same
      rw [goto_pc] at now
      subst now
      rw [goto_interrupted]
      exact h.move_own m
    · rw [moved_threads_ne _ _ _ _ _ same] at now ⊢
      rw [apply_waits]
      exact h.move_other control m same now
  handlers u := by
    by_cases same : u = t
    · subst same
      have none : (((w.apply u e).goto u q).threads u).handlers = [] := by
        simp [World.goto, World.setThread, apply_handlers, free]
      simp [none]
    · rw [moved_threads_ne _ _ _ _ _ same]
      exact h.handlers u
  posting u k c rest n m' now := h.move_posting control m now
  call c := by
    show CallOk ((w.apply t e).waits c)
    rw [apply_waits]
    exact h.move_call control m c

/-! ## Handlers -/

/-- A step of a handler that only moves it on, or sets the flag. -/
theorem setThread {f : Thread → Thread} (pc : (f (w.threads t)).pc = (w.threads t).pc)
    (flag : (f (w.threads t)).futexInterrupted = (w.threads t).futexInterrupted ∨
      (f (w.threads t)).futexInterrupted = true)
    (handlers : ∀ x ∈ (f (w.threads t)).handlers, HandlerOk (f (w.threads t)) x) :
    Records (w.setThread t f) where
  stage u c stage now := by
    by_cases same : u = t
    · subst same
      simp only [World.setThread, Function.update_self, pc] at now ⊢
      have ok := h.stage u c stage now
      obtain kept | raised := flag
      · rw [kept]
        exact ok
      · rw [raised]
        exact ok.interrupt
    · simp only [World.setThread, Function.update_of_ne same] at now ⊢
      exact h.stage u c stage now
  handlers u := by
    by_cases same : u = t
    · subst same
      simpa [World.setThread] using handlers
    · simpa [World.setThread, same] using h.handlers u
  posting u k c rest n m now := by
    apply h.posting u k c rest n m
    by_cases same : u = t
    · subst same
      simpa [World.setThread, pc] using now
    · simpa [World.setThread, same] using now
  call := h.call

/-- The post of a handler comes after it set the flag. -/
theorem post (control : Control w) (semaphore : (w.threads t).futexSemaphore = some c)
    (flag : (w.threads t).futexInterrupted = true) : Records (w.apply t (.post c)) := by
  have armed : (w.threads t).pc.armed = some c := (control.armed t).symm.trans semaphore
  have waits := Pc.wait_of_armed armed
  refine ⟨?_, h.handlers, ?_, ?_⟩
  · intro u d stage now
    replace now : (w.threads u).pc = .waiting d stage := now
    have ok := h.stage u d stage now
    rw [apply_waits]
    show StageOk _ (w.threads u).futexInterrupted stage
    by_cases same : d = c
    · subst same
      have mine := control.owner_unique (u := u) waits (by rw [now]; rfl)
      subst mine
      have yes : stage.armed = true := by
        rw [now] at armed
        by_contra no
        simp [Pc.armed, no] at armed
      have posted := ok.handler yes ((w.waits d).semaphore + 1)
      rw [← flag] at posted
      simpa [Effect.onWait] using posted
    · simpa [Effect.onWait, same] using ok
  · intro u k d rest n m now
    have woken := h.posting u k d rest n m now
    rw [apply_waits]
    by_cases same : d = c
    · simpa [Effect.onWait, same] using same ▸ woken
    · simpa [Effect.onWait, same] using woken
  · intro d
    have call := h.call d
    rw [apply_waits]
    by_cases same : d = c
    · rw [Effect.onWait, if_pos same]
      exact ⟨call.marked, call.once, call.listed, call.settled, call.turnedAway⟩
    · rw [Effect.onWait, if_neg same]
      exact call

theorem handler (control : Control w) (t : Nat) : Records (stepHandler w t) := by
  have handlers := h.handlers t
  unfold stepHandler
  split
  · exact h
  · rename_i rest eq
    rw [eq] at handlers
    have later : ∀ x ∈ rest, HandlerOk (w.threads t) x :=
      fun x mem => handlers x (List.mem_cons_of_mem _ mem)
    split
    · exact h.setThread rfl (Or.inl rfl) later
    · rename_i some
      apply h.setThread rfl (Or.inl rfl)
      intro x mem
      rcases List.mem_cons.mp mem with rfl | mem
      · exact some
      · exact later x mem
  · rename_i rest eq
    rw [eq] at handlers
    apply h.setThread rfl (Or.inr rfl)
    intro x mem
    rcases List.mem_cons.mp mem with rfl | mem
    · exact ⟨handlers .interrupt List.mem_cons_self, rfl⟩
    · have ok := handlers x (List.mem_cons_of_mem _ mem)
      cases x with
      | test => trivial
      | interrupt => exact ok
      | post => exact ⟨ok.1, rfl⟩
  · rename_i rest eq
    rw [eq] at handlers
    obtain ⟨some, flag⟩ := handlers .post List.mem_cons_self
    have later : ∀ x ∈ rest, HandlerOk (w.threads t) x :=
      fun x mem => handlers x (List.mem_cons_of_mem _ mem)
    obtain ⟨c, semaphore⟩ := Option.ne_none_iff_exists'.mp some
    simp only [semaphore]
    exact (h.post control semaphore flag).setThread rfl (Or.inl rfl) later

theorem signal (t : Nat) :
    Records (w.setThread t fun x => { x with handlers := .test :: x.handlers }) := by
  apply h.setThread rfl (Or.inl rfl)
  intro x mem
  rcases List.mem_cons.mp mem with rfl | mem
  · trivial
  · exact h.handlers t x mem

theorem step {v : World} (control : Control w) (step : Step w v) : Records v := by
  cases step with
  | move t free m => exact h.move control free m
  | signal t => exact h.signal t
  | handler t => exact h.handler control t
  | store a value => exact ⟨h.stage, h.handlers, h.posting, h.call⟩

end

end Records

theorem start_records (words : Nat → BitVec 32) : Records (start words) where
  stage t c stage now := by cases now
  handlers t := by simp [start]
  posting t k c rest n m now := by cases now
  call c := Records.newWait_ok (by simp)

end Linuxemu.Futex
