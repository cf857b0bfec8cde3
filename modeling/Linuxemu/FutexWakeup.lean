import Linuxemu.FutexRunning

/-! No wakeup is lost: a wake that begins after a waiter's read finds the waiter in
the list, or gone for one of three reasons. -/
namespace Linuxemu.Futex
variable {w v : World} {stage : WakeStage} {k c : Nat}

/-- Marked, gone with an error, or moved to another word. -/
def Settled (x : Wait) : Prop :=
  x.markedBy ≠ [] ∨ x.left ≠ none ∨ ∃ b, b ≠ x.asked ∧ (x.asked, b) ∈ x.moves

/-- Call `c` read its value before the wake-all `k` of the same word began. -/
def ReadBefore (w : World) (c k : Nat) : Prop :=
  (w.waits c).seen = some (w.waits c).expected ∧ (w.waits c).readAt ≤ k ∧
    (w.wakes k).request = .wake (w.waits c).asked intMax bitsetMatchAny

/-- The loop has not passed `c` without settling it. -/
def Swept (x : Wait) (c : Nat) : WakeStage → Prop
  | .scan rest _ _ | .post _ rest _ _ => Settled x ∨ c ∈ rest
  | .unlock _ => Settled x
  | .finish r => 0 ≤ r → Settled x
  | _ => True

/-- The loop counts no waiter twice. -/
def Bounded (waiters : List Nat) : WakeStage → Prop
  | .scan rest n _ | .next rest n _ => n + rest.length ≤ waiters.length
  | .post _ rest n _ => n + 1 + rest.length ≤ waiters.length
  | _ => True

structure Sweep (w : World) : Prop where
  home : ∀ c < w.nextWait, Settled (w.waits c) ∨ (w.waits c).address = (w.waits c).asked
  listed : ∀ c, (w.waits c).seen = some (w.waits c).expected →
    Settled (w.waits c) ∨ c ∈ w.waiters ∨ ∃ t, (w.threads t).pc = .waiting c .link
  bounded : ∀ t k stage, (w.threads t).pc = .waking k stage → Bounded w.waiters stage
  swept : ∀ c k, ReadBefore w c k → ∀ t stage, (w.threads t).pc = .waking k stage →
    Swept (w.waits c) c stage
  done : ∀ c k, ReadBefore w c k → ∀ r, (w.wakes k).result = some r → 0 ≤ r →
    Settled (w.waits c)

section
variable {w : World} {t : Nat} {e : Effect} {q : Pc} {c : Nat}

theorem unlink_settled (records : Records w) {error : Option Errno}
    (move : Move w t (w.threads t).pc (.unlink c error) q) :
    Settled { w.waits c with left := error } := by
  have ok := records.stage t c _ move.unlink.1
  cases error with
  | none => exact Or.inl ((records.call c).marked.mp (ok.2 rfl))
  | some e => exact Or.inr (Or.inl (by simp))

theorem Settled.move (records : Records w) (move : Move w t (w.threads t).pc e q)
    (lt : c < w.nextWait) (h : Settled (w.waits c)) : Settled (e.onWait w c (w.waits c)) := by
  cases e <;> dsimp only [Effect.onWait]
  case beginWait call =>
    rw [if_neg (Nat.ne_of_lt lt)]
    exact h
  case unlink d error =>
    split
    · rename_i same
      subst same
      exact unlink_settled records move
    · exact h
  case mark k d =>
    split
    · exact Or.inl (by simp)
    · exact h
  case requeue d second =>
    split
    · obtain marked | left | ⟨b, ne, mem⟩ := h
      · exact Or.inl marked
      · exact Or.inr (Or.inl left)
      · exact Or.inr (Or.inr ⟨b, ne, List.mem_append_left _ mem⟩)
    · exact h
  all_goals first
    | exact h
    | (split <;> exact h)

theorem Swept.mono {x y : Wait} (h : Swept x c stage) (settled : Settled x → Settled y) :
    Swept y c stage := by
  cases stage with
  | scan | post => exact h.imp_left settled
  | unlock => exact settled h
  | finish => exact fun nonneg => settled (h nonneg)
  | lock | check | mismatch | next => trivial

namespace Sweep

theorem move_home (h : Sweep w) (records : Records w) (move : Move w t (w.threads t).pc e q)
    (lt : c < (w.apply t e).nextWait) :
    Settled ((w.apply t e).waits c) ∨
      ((w.apply t e).waits c).address = ((w.apply t e).waits c).asked := by
  rw [apply_nextWait] at lt
  rw [apply_waits]
  by_cases old : c < w.nextWait
  · obtain settled | same := h.home c old
    · exact Or.inl (settled.move records move old)
    · cases e <;> dsimp only [Effect.onWait]
      case requeue d second =>
        split
        · by_cases back : second = (w.waits c).asked
          · exact Or.inr back
          · refine Or.inl (Or.inr (Or.inr ⟨second, back, ?_⟩))
            rw [same]
            exact List.mem_append_right _ List.mem_cons_self
        · exact Or.inr same
      case beginWait call =>
        rw [if_neg (Nat.ne_of_lt old)]
        exact Or.inr same
      all_goals first
        | exact Or.inr same
        | (split <;> exact Or.inr same)
  · cases e
    case beginWait call =>
      have new : c = w.nextWait := by
        simp only at lt
        omega
      dsimp only [Effect.onWait]
      rw [if_pos new]
      exact Or.inr move.begun.2.2.2.1
    all_goals exact absurd lt old

/-- The read and the link are under one lock: nobody sees the list between them. -/
theorem move_listed (h : Sweep w) (control : Control w) (records : Records w)
    (running : Running w) (move : Move w t (w.threads t).pc e q)
    (seen : ((w.apply t e).waits c).seen = some ((w.apply t e).waits c).expected) :
    Settled ((w.apply t e).waits c) ∨ c ∈ (w.apply t e).waiters ∨
      ∃ u, (((w.apply t e).goto t q).threads u).pc = .waiting c .link := by
  have lt := running.seen_lt control move (by rw [seen]; simp)
  rw [apply_waits] at seen ⊢
  obtain ⟨kept, -⟩ | ⟨value, rfl⟩ := onWait_seen (e := e) (x := w.waits c) lt
  · rw [kept, (onWait_fixed lt).2.1] at seen
    clear kept
    obtain settled | mem | ⟨u, pc⟩ := h.listed c seen
    · exact Or.inl (settled.move records move lt)
    · rw [apply_waiters]
      cases e <;> dsimp only
      case link d => exact Or.inr (Or.inl (List.mem_cons_of_mem d mem))
      case unlink d error =>
        by_cases same : c = d
        · subst same
          left
          simpa [Effect.onWait] using unlink_settled records move
        · exact Or.inr (Or.inl ((List.mem_erase_of_ne same).mpr mem))
      all_goals exact Or.inr (Or.inl mem)
    · by_cases same : u = t
      · subst same
        rw [pc] at move
        cases move with
        | wait move => cases move; exact Or.inr (Or.inl List.mem_cons_self)
        | waitEnd move => cases move
      · refine Or.inr (Or.inr ⟨u, ?_⟩)
        rw [moved_threads_ne _ _ _ _ _ same, pc]
  · have own := move.own rfl
    obtain ⟨stage, pc⟩ := Pc.waiting_of_wait own
    rw [pc] at move
    simp only [Effect.onWait, if_true] at seen
    cases move with
    | wait move =>
      cases move with
      | agrees same => exact Or.inr (Or.inr ⟨t, goto_pc _ _ _⟩)
      | differs other => exact absurd (Option.some.inj seen) other
    | waitEnd move => cases move

theorem move_bounded (h : Sweep w) (control : Control w) (move : Move w t (w.threads t).pc e q)
    {u : Nat} (now : (((w.apply t e).goto t q).threads u).pc = .waking k stage) :
    Bounded (w.apply t e).waiters stage := by
  by_cases same : u = t
  · subst same
    rw [goto_pc] at now
    subst now
    generalize pc : (w.threads u).pc = p at move
    cases move with
    | beginWake => trivial
    | wake move =>
      have ok := h.bounded u k _ pc
      cases move <;> simp only [Bounded, World.apply, World.setWait, World.setWake,
        List.length_cons] at ok ⊢ <;> omega
  · rw [moved_threads_ne _ _ _ _ _ same] at now
    have ok := h.bounded u k stage now
    by_cases held : stage.locked = true
    · have apart : ∀ d, e = .link d ∨ (∃ error, e = .unlink d error) → False := by
        have locked : (w.threads u).pc.locked = true := by rw [now]; exact held
        rintro d (rfl | ⟨error, rfl⟩)
        · exact same (control.holder_unique (move.critical rfl) locked)
        · exact same (control.holder_unique (move.critical rfl) locked)
      rw [apply_waiters]
      cases e
      case link d => exact (apart d (Or.inl rfl)).elim
      case unlink d error => exact (apart d (Or.inr ⟨error, rfl⟩)).elim
      all_goals exact ok
    · cases stage <;> trivial

end Sweep

theorem onWake_request {x : Wake} (lt : k < w.nextWake) :
    (e.onWake w t k x).request = x.request := by
  cases e <;> dsimp only [Effect.onWake]
  case beginWake | refuseWake => rw [if_neg (Nat.ne_of_lt lt)]
  all_goals first
    | rfl
    | (split <;> rfl)

/-- A wake that has begun began after the reads it is later than. -/
theorem ReadBefore.back (control : Control w) (running : Running w)
    (move : Move w t (w.threads t).pc e q) (lt : k < w.nextWake)
    (h : ReadBefore ((w.apply t e).goto t q) c k) : ReadBefore w c k ∧ c < w.nextWait := by
  obtain ⟨seen, early, request⟩ := h
  replace seen : ((w.apply t e).waits c).seen = some ((w.apply t e).waits c).expected := seen
  replace early : ((w.apply t e).waits c).readAt ≤ k := early
  replace request : ((w.apply t e).wakes k).request = .wake ((w.apply t e).waits c).asked _ _ :=
    request
  have old := running.seen_lt control move (by rw [seen]; simp)
  rw [apply_waits] at seen early request
  rw [apply_wakes, onWake_request lt, (onWait_fixed old).1] at request
  rw [(onWait_fixed old).2.1] at seen
  obtain ⟨kept, keptAt⟩ | ⟨value, rfl⟩ := onWait_seen (e := e) (x := w.waits c) old
  · rw [kept] at seen
    rw [keptAt] at early
    exact ⟨⟨seen, early, request⟩, old⟩
  · simp only [Effect.onWait, if_true] at early
    omega

/-- The scan of a wake-all settles the waiter it visits, and does not stop before
the end of the list. -/
theorem scan_swept {next : WakeStage} (control : Control w) (running : Running w) (sweep : Sweep w)
    (records : Records w) (read : ReadBefore w c k) (pc : (w.threads t).pc = .waking k stage)
    (move : WakeMove w k stage e (some next)) :
    Swept (e.onWait w c (w.waits c)) c next := by
  have seen := read.1
  have wake := read.2.2
  have lt : c < w.nextWait := by
    by_contra beyond
    rw [running.blank c (by omega)] at seen
    cases seen
  have ok := sweep.swept c k read t stage pc
  have bound := sweep.bounded t k stage pc
  have few := waiters_length control running
  have step : Move w t (w.threads t).pc e (.waking k next) := pc ▸ .wake move
  have stays : Settled (w.waits c) → Settled (e.onWait w c (w.waits c)) :=
    fun settled => settled.move records step lt
  cases move with
  | lock | compareFailed => trivial
  | mismatch => exact fun nonneg => absurd nonneg (by decide)
  | begin =>
    obtain settled | mem | ⟨u, link⟩ := sweep.listed c seen
    · exact Or.inl settled
    · exact Or.inr mem
    · -- the waiter between its read and its link has the lock
      have same := control.holder_unique (u := u) (t := t) (by rw [pc]; rfl) (by rw [link]; rfl)
      rw [same, pc] at link
      cases link
  | enough request stop =>
    obtain settled | mem := ok
    · exact settled
    · obtain rfl | many := stop
      · cases mem
      · rw [wake] at request
        cases request
        simp only [Bounded] at bound
        unfold intMax at many
        omega
  | @pass a n bitset d rest woken requeued request more skip =>
    rw [wake] at request
    cases request
    obtain settled | mem := ok
    · exact Or.inl settled
    · obtain rfl | mem := List.mem_cons.mp mem
      · left
        obtain settled | home := sweep.home c lt
        · exact settled
        · obtain moved | clear | marked := skip
          · exact absurd home moved
          · have bits := running.bits c lt (Or.inr (by rw [seen]; simp))
            rw [show bitsetMatchAny = BitVec.allOnes 32 from rfl, BitVec.and_allOnes] at clear
            exact absurd clear bits
          · exact Or.inl ((records.call c).marked.mp marked)
      · exact Or.inr mem
  | @mark a n bitset d rest woken requeued =>
    obtain settled | mem := ok
    · exact Or.inl (stays settled)
    · obtain rfl | mem := List.mem_cons.mp mem
      · left
        simp [Effect.onWait, Settled]
      · exact Or.inr mem
  | posted => exact ok.imp_left stays
  | unlock => exact fun _ => stays ok
  | compared request | visited request | other request | markFirst request
  | postedFirst request | requeue request | leave request | stop request | goOn request =>
    rw [wake] at request
    cases request

namespace Sweep

section
variable (h : Sweep w) (control : Control w) (records : Records w) (running : Running w)
include h control records running

theorem move_swept (move : Move w t (w.threads t).pc e q) {u : Nat}
    (read : ReadBefore ((w.apply t e).goto t q) c k)
    (now : (((w.apply t e).goto t q).threads u).pc = .waking k stage) :
    Swept ((w.apply t e).waits c) c stage := by
  rw [apply_waits]
  by_cases same : u = t
  · subst same
    rw [goto_pc] at now
    subst now
    generalize pc : (w.threads u).pc = p at move
    cases move with
    | beginWake => trivial
    | wake wakeMove =>
      have lt := (control.waker u k (by rw [pc]; rfl)).1
      have before := read.back control running (pc ▸ .wake wakeMove) lt
      exact scan_swept control running h records before.1 pc wakeMove
  · rw [moved_threads_ne _ _ _ _ _ same] at now
    have lt := (control.waker u k (by rw [now]; rfl)).1
    have before := read.back control running move lt
    exact (h.swept c k before.1 u stage now).mono fun settled => settled.move records move before.2

theorem move_done (move : Move w t (w.threads t).pc e q) {r : Int}
    (read : ReadBefore ((w.apply t e).goto t q) c k)
    (result : ((w.apply t e).wakes k).result = some r) (nonneg : 0 ≤ r) :
    Settled ((w.apply t e).waits c) := by
  have stays : k < w.nextWake → (w.wakes k).result = some r →
      Settled ((w.apply t e).waits c) := by
    intro lt before
    have old := read.back control running move lt
    rw [apply_waits]
    exact (h.done c k old.1 r before nonneg).move records move old.2
  have known : (w.wakes k).result = some r → k < w.nextWake := by
    intro before
    by_contra beyond
    rw [running.silent k (by omega)] at before
    cases before
  rw [apply_wakes] at result
  cases e <;> dsimp only [Effect.onWake] at result
  case beginWake request =>
    split at result
    · cases result
    · exact stays (known result) result
  case refuseWake request =>
    split at result
    · cases result
      omega
    · exact stays (known result) result
  case mark j d =>
    have kept : (w.wakes k).result = some r := by
      split at result <;> exact result
    exact stays (known kept) kept
  case finishWake j r' =>
    split at result
    · rename_i same
      subst same
      cases result
      have lt := (control.waker t k (move.waker rfl)).1
      have old := read.back control running move lt
      generalize pc : (w.threads t).pc = p at move
      cases move with
      | wait move => cases move
      | waitEnd move => cases move
      | wake move => cases move
      | wakeEnd move =>
        cases move with
        | lockFailed e =>
          have := linuxErrnoNumber_pos e
          omega
        | finish => exact h.swept c k old.1 t _ pc nonneg
    · exact stays (known result) result
  all_goals exact stays (known result) result

theorem move (m : Move w t (w.threads t).pc e q) : Sweep ((w.apply t e).goto t q) where
  home _ lt := h.move_home records m lt
  listed _ seen := h.move_listed control records running m seen
  bounded _ _ _ now := h.move_bounded control m now
  swept _ _ read _ _ now := h.move_swept control records running m read now
  done _ _ read _ result nonneg := h.move_done control records running m read result nonneg

end

theorem aside (h : Sweep w) (a : Aside w v) : Sweep v := by
  have same : ∀ c, Settled (v.waits c) = Settled (w.waits c) ∧
      (v.waits c).seen = (w.waits c).seen ∧ (v.waits c).expected = (w.waits c).expected ∧
      (v.waits c).asked = (w.waits c).asked ∧ (v.waits c).address = (w.waits c).address ∧
      (v.waits c).readAt = (w.waits c).readAt := by
    intro c
    obtain ⟨n, eq⟩ := a.waits c
    rw [eq]
    exact ⟨rfl, rfl, rfl, rfl, rfl, rfl⟩
  have back : ∀ c k, ReadBefore v c k → ReadBefore w c k := by
    intro c k
    unfold ReadBefore
    rw [(same c).2.1, (same c).2.2.1, (same c).2.2.2.1, (same c).2.2.2.2.2, a.wakes]
    exact id
  constructor
  · intro c lt
    rw [a.nextWait] at lt
    rw [(same c).1, (same c).2.2.2.1, (same c).2.2.2.2.1]
    exact h.home c lt
  · intro c seen
    rw [(same c).2.1, (same c).2.2.1] at seen
    rw [(same c).1, a.waiters]
    obtain settled | mem | ⟨t, pc⟩ := h.listed c seen
    · exact Or.inl settled
    · exact Or.inr (Or.inl mem)
    · exact Or.inr (Or.inr ⟨t, by rw [a.pc, pc]⟩)
  · intro t k stage now
    rw [a.pc] at now
    rw [a.waiters]
    exact h.bounded t k stage now
  · intro c k read t stage now
    rw [a.pc] at now
    exact (h.swept c k (back c k read) t stage now).mono (by rw [(same c).1]; exact id)
  · intro c k read r result nonneg
    rw [a.wakes] at result
    rw [(same c).1]
    exact h.done c k (back c k read) r result nonneg

theorem step (h : Sweep w) (control : Control w) (records : Records w) (running : Running w)
    (step : Step w v) : Sweep v := by
  cases step with
  | move t free m => exact h.move control records running m
  | signal t => exact h.aside (setThread_aside w t rfl rfl)
  | handler t => exact h.aside (stepHandler_aside w t)
  | store a value => exact h.aside (store_aside w a value)

end Sweep

end

theorem start_sweep (words : Nat → BitVec 32) : Sweep (start words) where
  home _ lt := by cases lt
  listed _ seen := by cases seen
  bounded _ _ _ now := by cases now
  swept _ _ read := by cases read.1
  done _ _ read := by cases read.1

/-! ## Runs -/

structure WakeupInv (w : World) : Prop where
  inv : Inv w
  running : Running w
  sweep : Sweep w

theorem WakeupInv.step (h : WakeupInv w) (step : Step w v) : WakeupInv v :=
  ⟨h.inv.step step, h.running.step h.inv.control step,
    h.sweep.step h.inv.control h.inv.records h.running step⟩

theorem WakeupInv.runs (h : WakeupInv w) (runs : Runs w v) : WakeupInv v := by
  induction runs with
  | refl => exact h
  | next _ step ih => exact ih.step step

theorem reachable_wakeup (h : Reachable w) : WakeupInv w := by
  obtain ⟨words, runs⟩ := h
  exact WakeupInv.runs ⟨⟨start_control words, start_records words, start_tally words⟩,
    start_running words, start_sweep words⟩ runs

/-- What a call has read, and when, stays. -/
structure SameRead (x y : Wait) : Prop where
  seen : y.seen = x.seen
  readAt : y.readAt = x.readAt
  asked : y.asked = x.asked
  expected : y.expected = x.expected

theorem Aside.sameRead (a : Aside w v) (c : Nat) :
    SameRead (w.waits c) (v.waits c) := by
  obtain ⟨n, eq⟩ := a.waits c
  rw [eq]
  exact ⟨rfl, rfl, rfl, rfl⟩

theorem step_sameRead (h : WakeupInv w) (step : Step w v) (seen : (w.waits c).seen ≠ none) :
    SameRead (w.waits c) (v.waits c) := by
  cases step with
  | signal t => exact (setThread_aside w t rfl rfl).sameRead c
  | handler t => exact (stepHandler_aside w t).sameRead c
  | store a value => exact (store_aside w a value).sameRead c
  | @move t e p free m =>
    have lt : c < w.nextWait := by
      by_contra beyond
      exact seen (h.running.blank c (by omega))
    show SameRead (w.waits c) ((w.apply t e).waits c)
    rw [apply_waits]
    have fixed := onWait_fixed (e := e) (x := w.waits c) lt
    obtain ⟨same, sameAt⟩ | ⟨value, rfl⟩ := onWait_seen (e := e) (x := w.waits c) lt
    · exact ⟨same, sameAt, fixed.1, fixed.2.1⟩
    · -- a call reads once, at its check
      obtain ⟨stage, pc⟩ := Pc.waiting_of_wait (m.own rfl)
      have ok := h.inv.records.stage t c stage pc
      rw [pc] at m
      cases m with
      | wait m => cases m <;> exact absurd ok.1 seen
      | waitEnd m => cases m

theorem runs_sameRead (h : WakeupInv w) (runs : Runs w v) (seen : (w.waits c).seen ≠ none) :
    SameRead (w.waits c) (v.waits c) := by
  induction runs with
  | refl => exact ⟨rfl, rfl, rfl, rfl⟩
  | next before step ih =>
    have same := step_sameRead (h.runs before) step (by rw [ih.seen]; exact seen)
    exact ⟨same.seen.trans ih.seen, same.readAt.trans ih.readAt, same.asked.trans ih.asked,
      same.expected.trans ih.expected⟩

/-! ## A read of another value -/

theorem Runs.trans {u : World} (h : Runs u v) (h' : Runs v w) : Runs u w := by
  induction h' with
  | refl => exact h
  | next _ step ih => exact ih.next step

/-- How many steps a handler has before it. -/
def HandlerStage.weight : HandlerStage → Nat
  | .test => 3
  | .interrupt => 2
  | .post => 1

theorem stepHandler_weight {t : Nat} (busy : (w.threads t).handlers ≠ []) :
    (((stepHandler w t).threads t).handlers.map HandlerStage.weight).sum <
      ((w.threads t).handlers.map HandlerStage.weight).sum := by
  unfold stepHandler
  split
  · contradiction
  · rename_i rest eq
    split <;> simp [World.setThread, eq, HandlerStage.weight]
  · rename_i rest eq
    simp [World.setThread, eq, HandlerStage.weight]
  · rename_i rest eq
    dsimp only
    split <;> simp [World.setThread, eq, HandlerStage.weight]

/-- The handlers of a thread run to their end. -/
theorem handlers_end (w : World) (t : Nat) :
    ∃ v, Runs w v ∧ Aside w v ∧ (v.threads t).handlers = [] := by
  generalize size : ((w.threads t).handlers.map HandlerStage.weight).sum = n
  induction n using Nat.strongRecOn generalizing w with
  | ind n ih =>
    by_cases done : (w.threads t).handlers = []
    · exact ⟨w, .refl, .refl w, done⟩
    · have less := stepHandler_weight done
      obtain ⟨v, runs, aside, ended⟩ := ih _ (size ▸ less) (stepHandler w t) rfl
      exact ⟨v, (Runs.refl.next (.handler w t)).trans runs,
        (stepHandler_aside w t).trans aside, ended⟩

/-- The call that read another value unlocks and returns, whatever the others do. -/
theorem mismatch_returns {t : Nat}
    (pc : (w.threads t).pc = .waiting c .mismatch ∨ (w.threads t).pc = .waiting c .again) :
    ∃ v, Runs w v ∧ (v.waits c).result = some (-11) := by
  have last : ∀ w : World, (w.threads t).pc = .waiting c .again →
      ∃ v, Runs w v ∧ (v.waits c).result = some (-11) := by
    intro w pc
    obtain ⟨v, runs, aside, free⟩ := handlers_end w t
    refine ⟨_, runs.move ((aside.pc t).trans pc) free (.waitEnd .again), ?_⟩
    simp [World.apply, World.goto, World.setThread, World.setWait]
  obtain pc | pc := pc
  · obtain ⟨v, runs, aside, free⟩ := handlers_end w t
    obtain ⟨z, rest, result⟩ := last _ (goto_pc (v.apply t .release) t (.waiting c .again))
    exact ⟨z, (runs.move ((aside.pc t).trans pc) free (.wait .mismatch)).trans rest, result⟩
  · exact last w pc

theorem turnedAway (h : WakeupInv w) {value : BitVec 32} (seen : (w.waits c).seen = some value)
    (differs : value ≠ (w.waits c).expected) :
    (w.waits c).enqueued = false ∧ c ∉ w.waiters ∧
      (∀ r, (w.waits c).result = some r → r = -11) ∧
      ∃ v, Runs w v ∧ (v.waits c).result = some (-11) := by
  obtain ⟨out, only⟩ := (h.inv.records.call c).turnedAway value seen differs
  have stage := h.inv.records.stage
  -- a call past its check has seen what it expected
  have passed : ¬ Passed (w.waits c) := by
    intro passed
    rw [passed.2] at out
    cases out
  refine ⟨out, ?_, only, ?_⟩
  · intro mem
    obtain ⟨t, linked⟩ := (h.inv.control.linked c).mp mem
    obtain ⟨st, pc, yes⟩ := Pc.waiting_of_linked linked
    exact passed ((stage t c st pc).passed_of_linked yes)
  · cases result : (w.waits c).result with
    | some r => exact ⟨w, .refl, by rw [result, only r result]⟩
    | none =>
      have lt : c < w.nextWait := by
        by_contra beyond
        rw [h.running.blank c (by omega)] at seen
        cases seen
      obtain ⟨t, owner⟩ := h.running.alive c lt result
      obtain ⟨st, pc⟩ := Pc.waiting_of_wait owner
      have ok := stage t c st pc
      cases st with
      | mismatch => exact mismatch_returns (Or.inl pc)
      | again => exact mismatch_returns (Or.inr pc)
      | lock | check =>
        rw [show (w.waits c).seen = none from ok.1] at seen
        cases seen
      | link =>
        rw [show (w.waits c).seen = _ from ok.1] at seen
        exact absurd (Option.some.inj seen).symm differs
      | reset | arm | unlock | sleep | disarm | read | clear | relock | remove | release
      | finish => exact absurd ok.1 passed

/-- Over every interleaving around a store to word `a`. When a wake-all of `a` that
began after the store has returned, each `futex_wait` on `a` that had read the value
it expected before the store was marked, left with a timeout or a signal, or was
moved to another word. A call that reads another value is never in the list, and
returns `-EAGAIN`. -/
theorem no_lost_wakeup {w₁ w₂ : World} {a : Nat} {value : BitVec 32} (before : Reachable w₁)
    (run : Runs (w₁.store a value) w₂) :
    (∀ c k n, (w₁.waits c).asked = a → (w₁.waits c).seen = some (w₁.waits c).expected →
      w₁.nextWake ≤ k → (w₂.wakes k).request = .wake a intMax bitsetMatchAny →
      (w₂.wakes k).result = some n → 0 ≤ n →
      (w₂.waits c).markedBy ≠ [] ∨ (w₂.waits c).left = some .etimedout ∨
        (w₂.waits c).left = some .eintr ∨ ∃ b, b ≠ a ∧ (a, b) ∈ (w₂.waits c).moves) ∧
    (∀ c other, (w₂.waits c).seen = some other → other ≠ (w₂.waits c).expected →
      (w₂.waits c).enqueued = false ∧ c ∉ w₂.waiters ∧
      (∀ r, (w₂.waits c).result = some r → r = -11) ∧
      ∃ w₃, Runs w₂ w₃ ∧ (w₃.waits c).result = some (-11)) := by
  have inv₁ := reachable_wakeup before
  have stored := inv₁.step (.store w₁ a value)
  have inv₂ := stored.runs run
  constructor
  · intro c k n asked read later wake done nonneg
    have kept := runs_sameRead stored run (c := c) (by
      show (w₁.waits c).seen ≠ none
      rw [read]
      simp)
    replace kept : SameRead (w₁.waits c) (w₂.waits c) := kept
    have readBefore : ReadBefore w₂ c k := by
      refine ⟨?_, ?_, ?_⟩
      · rw [kept.seen, kept.expected, read]
      · rw [kept.readAt]
        exact Nat.le_trans (inv₁.running.early c) later
      · rw [kept.asked, asked, wake]
    have lt : c < w₂.nextWait := by
      by_contra beyond
      have blank := inv₂.running.blank c (by omega)
      rw [kept.seen, read] at blank
      cases blank
    obtain marked | left | ⟨b, ne, mem⟩ := inv₂.sweep.done c k readBefore n done nonneg
    · exact Or.inl marked
    · obtain none | interrupted | timeout := inv₂.running.left c lt
      · exact absurd none left
      · exact Or.inr (Or.inr (Or.inl interrupted))
      · exact Or.inr (Or.inl timeout)
    · rw [kept.asked, asked] at ne mem
      exact Or.inr (Or.inr (Or.inr ⟨b, ne, mem⟩))
  · intro c other seen differs
    exact turnedAway inv₂ seen differs

/-- Thread 1 stores 1 to the word thread 0 sleeps on, and wakes all. -/
def storedAndWoken : World := played
  [(1, .beginWake (.wake 100 intMax bitsetMatchAny), .waking 0 .lock),
    (1, .acquire, .waking 0 .check), (1, .silent, .waking 0 (.scan [0] 0 0)),
    (1, .mark 0 0, .waking 0 (.post 0 [] 0 0)), (1, .post 0, .waking 0 (.scan [] 1 0)),
    (1, .silent, .waking 0 (.unlock 1)), (1, .release, .waking 0 (.finish 1)),
    (1, .finishWake 0 1, .idle)] (asleep.store 100 1)

theorem storedAndWoken_runs : Runs (asleep.store 100 1) storedAndWoken := by
  have called := Runs.refl.move (w := asleep.store 100 1) (t := 1) rfl rfl
    (.beginWake (.wake 100 intMax bitsetMatchAny) (by simp [Request.Valid, intMax, bitsetMatchAny]))
  have locked := called.move (t := 1) rfl rfl (.wake (.lock rfl))
  have scans := locked.move (t := 1) rfl rfl (.wake (.begin rfl))
  have marks := scans.move (t := 1) rfl rfl
    (.wake (.mark (c := 0) rfl (by decide) rfl (by decide) rfl))
  have posts := marks.move (t := 1) rfl rfl (.wake (.posted rfl))
  have ends := posts.move (t := 1) rfl rfl (.wake (.enough rfl (Or.inl rfl)))
  have unlocks := ends.move (t := 1) rfl rfl (.wake (.unlock 1))
  exact unlocks.move (t := 1) rfl rfl (.wakeEnd (.finish 1))

theorem stored_word_wakes_sleeper :
    (storedAndWoken.wakes 0).result = some 1 ∧
      ((storedAndWoken.waits 0).markedBy ≠ [] ∨
        (storedAndWoken.waits 0).left = some .etimedout ∨
        (storedAndWoken.waits 0).left = some .eintr ∨
        ∃ b, b ≠ 100 ∧ (100, b) ∈ (storedAndWoken.waits 0).moves) :=
  ⟨rfl, (no_lost_wakeup ⟨_, asleep_runs⟩ storedAndWoken_runs).1 0 0 1 rfl rfl (Nat.zero_le _) rfl
    rfl (by decide)⟩

end Linuxemu.Futex
