import Linuxemu.PendingSteps

/-! Which signals the pending queues hold, for any number of posts: handlers only add
to them, however they nest, and a take that begins while one is unmasked returns one. -/
namespace Linuxemu.Pending
variable {size : Nat}
variable {s t : Thread size} {n : Nat} {tail head : Int}
variable {selected taken : Siginfo size} {stage : Stage} {r : Request}

/-- The queues hold the signal. -/
def Thread.holds (s : Thread size) (n : Nat) : Bool :=
  if firstRealtimeSignal ≤ n ∧ n ≤ lastRealtimeSignal then
    decide (s.realtimeHead (index n) ≠ s.realtimeTail (index n))
  else s.pending n

def inMask (mask : Nat → BitVec 32) (n : Nat) : Bool :=
  (mask (signalWord n)).getLsbD ((n - 1) % 32)

/-- The queues hold a signal outside the mask. -/
def Thread.Offers (s : Thread size) (mask : Nat → BitVec 32) : Prop :=
  ∃ n, 1 ≤ n ∧ n ≤ 64 ∧ s.holds n = true ∧ inMask mask n = false

instance (s : Thread size) (mask : Nat → BitVec 32) : Decidable (s.Offers mask) :=
  decidable_of_iff (∃ n ∈ List.range 65, 1 ≤ n ∧ s.holds n = true ∧ inMask mask n = false) (by
    constructor
    · rintro ⟨n, range, pos, held, free⟩
      exact ⟨n, pos, Nat.le_of_lt_succ (List.mem_range.mp range), held, free⟩
    · rintro ⟨n, pos, le, held, free⟩
      exact ⟨n, List.mem_range.mpr (Nat.lt_succ_of_le le), pos, held, free⟩)

theorem holds_realtime (rt : IsRealtime n) :
    s.holds n = true ↔ s.realtimeHead (index n) ≠ s.realtimeTail (index n) := by
  rw [Thread.holds, if_pos (show _ ∧ _ from rt)]
  exact decide_eq_true_iff

theorem holds_other (rt : ¬ IsRealtime n) : s.holds n = s.pending n := by
  rw [Thread.holds, if_neg (show ¬ (_ ∧ _) from rt)]

/-! ## Counters -/

def InRange (x : Int) : Prop := -2 ^ 31 ≤ x ∧ x < 2 ^ 31

/-- How many are waiting between two counters that wrap around. -/
def waiting (tail head : Int) : Int := (tail - head) % 2 ^ 32

theorem wrap_inRange (x : Int) : InRange (wrap x) := by
  unfold InRange wrap
  omega

theorem waiting_nonneg (tail head : Int) : 0 ≤ waiting tail head := by
  unfold waiting
  omega

theorem waiting_eq_zero (ht : InRange tail) (hh : InRange head) :
    waiting tail head = 0 ↔ head = tail := by
  unfold InRange at ht hh
  unfold waiting
  omega

/-- The test before an enqueue. -/
theorem wrap_sub_lt (few : waiting tail head ≤ 64) :
    wrap (tail - head) = waiting tail head := by
  unfold waiting at few ⊢
  unfold wrap
  omega

theorem waiting_enqueue (room : waiting tail head < 64) :
    waiting (wrap (tail + 1)) head = waiting tail head + 1 := by
  unfold waiting at room ⊢
  unfold wrap
  omega

theorem waiting_dequeue (some : 0 < waiting tail head) (few : waiting tail head ≤ 64) :
    waiting tail (wrap (head + 1)) = waiting tail head - 1 := by
  unfold waiting at some few ⊢
  unfold wrap
  omega

/-! ## What is kept between any two steps -/

section
variable (s : Thread size)

/-- What a handler in progress knows. Its tail may be an old one, if a handler of the
same signal has run inside it. -/
def PostHolds (p : Post size) : Prop :=
  match p.stage with
  | .start => True
  | .tailRead tail =>
    IsRealtime p.signal ∧ InRange tail ∧ waiting tail (s.realtimeHead (index p.signal)) ≤ 64 ∧
      (tail ≠ s.realtimeHead (index p.signal) → s.holds p.signal = true)
  | .fill tail _ | .publish tail =>
    IsRealtime p.signal ∧ InRange tail ∧ waiting tail (s.realtimeHead (index p.signal)) < 64
  | .wordRead _ | .write _ | .merge => IsStandard p.signal
  | .wake => s.holds p.signal = true

def TakeHolds : Prop :=
  match s.take with
  | .idle | .load _ => True
  | .choose _ old =>
    old.getLsbD 31 = false ∧ ∀ n, IsStandard n → old.getLsbD (n - 1) = true → s.holds n = true
  | .copy _ _ n _ _ | .swap _ _ n _ => IsStandard n ∧ s.masked n = false
  | .scan _ n => firstRealtimeSignal ≤ n
  | .head _ n => IsRealtime n ∧ s.masked n = false
  | .tail _ n head => IsRealtime n ∧ s.masked n = false ∧ head = s.realtimeHead (index n)
  | .read _ n head _ _ | .advance _ n head _ =>
    IsRealtime n ∧ s.masked n = false ∧ head = s.realtimeHead (index n) ∧ s.holds n = true
  | .give _ n _ _ => (1 ≤ n ∧ n ≤ 47) ∧ s.masked n = false

/-- No post sets a bit in the second word or that of the first real-time signal. -/
def BitsOk : Prop := s.pendingSignals 1 = 0 ∧ (s.pendingSignals 0).getLsbD 31 = false

structure QueueOk : Prop where
  bits : BitsOk s
  head : ∀ i, InRange (s.realtimeHead i)
  tail : ∀ i, InRange (s.realtimeTail i)
  few : ∀ i, waiting (s.realtimeTail i) (s.realtimeHead i) ≤ 64
  posts : ∀ p ∈ s.handlers, PostHolds s p
  take : TakeHolds s

end

/-- What a handler leaves to what it interrupts. -/
structure Grows (s t : Thread size) : Prop where
  take : t.take = s.take
  mask : t.signalMask = s.signalMask
  head : t.realtimeHead = s.realtimeHead
  holds : ∀ n, 1 ≤ n → s.holds n = true → t.holds n = true

theorem Grows.same (take : t.take = s.take) (mask : t.signalMask = s.signalMask)
    (head : t.realtimeHead = s.realtimeHead) (tail : t.realtimeTail = s.realtimeTail)
    (pending : t.pendingSignals = s.pendingSignals) : Grows s t := by
  refine ⟨take, mask, head, fun n _ held => ?_⟩
  rw [← held]
  unfold Thread.holds Thread.pending
  rw [head, tail, pending]

theorem Grows.trans {u : Thread size} (h : Grows s t) (h' : Grows t u) : Grows s u :=
  ⟨h'.take.trans h.take, h'.mask.trans h.mask, h'.head.trans h.head,
    fun n pos held => h'.holds n pos (h.holds n pos held)⟩

theorem Grows.offers (h : Grows s t) {mask : Nat → BitVec 32} (offers : s.Offers mask) :
    t.Offers mask := by
  obtain ⟨n, pos, le, held, free⟩ := offers
  exact ⟨n, pos, le, h.holds n pos held, free⟩

theorem PostHolds.grows {p : Post size} (h : PostHolds s p) (pos : 1 ≤ p.signal)
    (grows : Grows s t) : PostHolds t p := by
  unfold PostHolds at h ⊢
  rw [grows.head]
  split at h
  · trivial
  · exact ⟨h.1, h.2.1, h.2.2.1, fun ne => grows.holds _ pos (h.2.2.2 ne)⟩
  · exact h
  · exact h
  · exact h
  · exact h
  · exact h
  · exact grows.holds _ pos h

theorem IsRealtime.pos (h : IsRealtime n) : 1 ≤ n := by
  have := h.bounds
  omega

theorem TakeHolds.grows (h : TakeHolds s) (grows : Grows s t) :
    TakeHolds t := by
  have masked : ∀ n, t.masked n = s.masked n := fun n => by unfold Thread.masked; rw [grows.mask]
  unfold TakeHolds at h ⊢
  rw [grows.take]
  cases taking : s.take with
  | idle | load => trivial
  | choose =>
    simp only [taking] at h
    exact ⟨h.1, fun n std bit => grows.holds n std.1 (h.2 n std bit)⟩
  | copy | swap | give | head => simpa only [taking, masked] using h
  | scan => simpa only [taking] using h
  | tail => simpa only [taking, masked, grows.head] using h
  | read | advance =>
    simp only [taking] at h
    simp only [masked, grows.head]
    exact ⟨h.1, h.2.1, h.2.2.1, grows.holds _ h.1.pos h.2.2.2⟩

/-! ## Handlers -/

section
variable {s : Thread size} {p : Post size} {rest : List (Post size)}

section
variable (ok : QueueOk s)
include ok

theorem QueueOk.post (top : s.handlers = p :: rest) : PostHolds s p :=
  ok.posts p (by rw [top]; exact List.mem_cons_self)

/-- A handler goes on, having added at most to the queues. -/
theorem QueueOk.goto (pos : ∀ q ∈ s.handlers, 1 ≤ q.signal)
    (top : s.handlers = p :: rest) (grows : Grows s t) (bits : BitsOk t)
    (tails : ∀ i, InRange (t.realtimeTail i) ∧ waiting (t.realtimeTail i) (s.realtimeHead i) ≤ 64)
    (post : PostHolds t { p with stage := stage }) :
    QueueOk (t.goto p rest stage) ∧ Grows s (t.goto p rest stage) := by
  have same : Grows t (t.goto p rest stage) := Grows.same rfl rfl rfl rfl rfl
  have after := grows.trans same
  refine ⟨⟨bits, ?_, fun i => (tails i).1, ?_, ?_, ok.take.grows after⟩, after⟩
  · rw [after.head]
    exact ok.head
  · intro i
    rw [after.head]
    exact (tails i).2
  · intro q member
    rcases List.mem_cons.mp member with rfl | member
    · exact post
    · have mem : q ∈ s.handlers := by
        rw [top]
        exact List.mem_cons_of_mem p member
      exact (ok.posts q mem).grows (pos q mem) after

/-- A handler goes on without a change to the queues. -/
theorem QueueOk.moved (pos : ∀ q ∈ s.handlers, 1 ≤ q.signal)
    (top : s.handlers = p :: rest) (grows : Grows s t) (tails : t.realtimeTail = s.realtimeTail)
    (pending : t.pendingSignals = s.pendingSignals) (post : PostHolds t { p with stage := stage }) :
    QueueOk (t.goto p rest stage) ∧ Grows s (t.goto p rest stage) :=
  ok.goto pos top grows (by rw [BitsOk, pending]; exact ok.bits) (fun i => by rw [tails]; exact ⟨ok.tail i, ok.few i⟩) post

theorem QueueOk.left (top : s.handlers = p :: rest) :
    QueueOk { s with handlers := rest } ∧ Grows s { s with handlers := rest } := by
  have grows : Grows s { s with handlers := rest } := Grows.same rfl rfl rfl rfl rfl
  refine ⟨⟨ok.bits, ok.head, ok.tail, ok.few, ?_, ok.take.grows grows⟩, grows⟩
  intro q member
  have mem : q ∈ s.handlers := by
    rw [top]
    exact List.mem_cons_of_mem p member
  exact ok.posts q mem

/-- An enqueue leaves its queue with something in it, and the others as they were. -/
theorem QueueOk.publish (rt : IsRealtime p.signal)
    (room : waiting tail (s.realtimeHead (index p.signal)) < 64) (e : Event size) :
    let t := (s.storeTail (index p.signal) (wrap (tail + 1))).log e
    Grows s t ∧ t.holds p.signal = true ∧
      ∀ i, InRange (t.realtimeTail i) ∧ waiting (t.realtimeTail i) (s.realtimeHead i) ≤ 64 := by
  intro t
  have enqueued := waiting_enqueue room
  have nonneg := waiting_nonneg tail (s.realtimeHead (index p.signal))
  have own : t.realtimeTail (index p.signal) = wrap (tail + 1) := Function.update_self _ _ _
  have other {i : Nat} (ne : i ≠ index p.signal) : t.realtimeTail i = s.realtimeTail i :=
    Function.update_of_ne ne _ _
  have held : s.realtimeHead (index p.signal) ≠ wrap (tail + 1) := by
    intro same
    have := (waiting_eq_zero (wrap_inRange _) (ok.head _)).mpr same
    omega
  have holds : t.holds p.signal = true := by
    rw [holds_realtime rt, own]
    exact held
  refine ⟨⟨rfl, rfl, rfl, fun n _ already => ?_⟩, holds, fun i => ?_⟩
  · by_cases realtime : IsRealtime n
    · by_cases same : index n = index p.signal
      · rw [holds_realtime realtime, same, own]
        exact held
      · rw [holds_realtime realtime, other same]
        exact (holds_realtime realtime).mp already
    · rw [holds_other realtime] at already ⊢
      exact already
  · by_cases same : i = index p.signal
    · subst same
      rw [own]
      exact ⟨wrap_inRange _, by omega⟩
    · rw [other same]
      exact ⟨ok.tail i, ok.few i⟩

theorem QueueOk.raise (std : IsStandard p.signal) (e : Event size) :
    let t := (s.raise p.signal).log e
    Grows s t ∧ t.holds p.signal = true ∧ BitsOk t := by
  intro t
  have raised (n : Nat) (one : 1 ≤ n) : t.pending n = (s.pending n || decide (n = p.signal)) :=
    pending_raise s std.1 one
  have word : signalWord p.signal = 0 := by
    have := std.2
    unfold signalWord
    omega
  refine ⟨⟨rfl, rfl, rfl, fun n one already => ?_⟩, ?_, ?_, ?_⟩
  · by_cases realtime : IsRealtime n
    · rw [holds_realtime realtime] at already ⊢
      exact already
    · rw [holds_other realtime] at already ⊢
      rw [raised n one, already, Bool.true_or]
  · rw [holds_other std.not_realtime, raised _ std.1, decide_eq_true rfl, Bool.or_true]
  · show Function.update s.pendingSignals (signalWord p.signal) _ 1 = 0
    rw [word, Function.update_of_ne (by decide)]
    exact ok.bits.1
  · have bit := raised 32 (by decide)
    have other : (32 = p.signal) = False := eq_false (by have := std.2; omega)
    simp only [other, decide_false, Bool.or_false] at bit
    exact bit.trans ok.bits.2

/-- One step of the innermost handler only adds to the queues. -/
theorem stepHandler_queue (valid : ∀ q ∈ s.handlers, 1 ≤ q.signal ∧ q.signal ≤ 47) :
    QueueOk (stepHandler s) ∧ Grows s (stepHandler s) := by
  have pos : ∀ q ∈ s.handlers, 1 ≤ q.signal := fun q member => (valid q member).1
  unfold stepHandler
  split
  · exact ⟨ok, Grows.same rfl rfl rfl rfl rfl⟩
  · rename_i p rest top
    have post := ok.post top
    have number := valid p (by rw [top]; exact List.mem_cons_self)
    unfold PostHolds at post
    have untouched : Grows s s := Grows.same rfl rfl rfl rfl rfl
    cases stage : p.stage with
    | start =>
      dsimp only
      rw [if_pos (by omega)]
      split
      · rename_i rt
        refine ok.moved pos top untouched rfl rfl ⟨rt, ok.tail _, ok.few _, ?_⟩
        intro ne
        exact (holds_realtime rt).mpr ne.symm
      · rename_i rt
        have standard : IsStandard p.signal := by
          simp only [firstRealtimeSignal, lastRealtimeSignal] at rt
          exact ⟨number.1, by omega⟩
        exact ok.moved pos top untouched rfl rfl standard
    | tailRead tail =>
      simp only [stage] at post ⊢
      obtain ⟨rt, range, few, nonempty⟩ := post
      simp only [wrap_sub_lt few]
      split
      · rename_i room
        exact ok.moved pos top untouched rfl rfl ⟨rt, range, room⟩
      · rename_i full
        refine ok.moved pos top (Grows.same rfl rfl rfl rfl rfl) rfl rfl (nonempty ?_)
        intro same
        have := (waiting_eq_zero range (ok.head _)).mpr same.symm
        simp only [realtimeQueueLength] at full
        omega
    | fill tail k =>
      simp only [stage] at post ⊢
      split
      · exact ok.moved pos top (Grows.same rfl rfl rfl rfl rfl) rfl rfl post
      · exact ok.moved pos top untouched rfl rfl post
    | publish tail =>
      simp only [stage] at post ⊢
      obtain ⟨grows, holds, tails⟩ := ok.publish post.1 post.2.2 (.accepted p.signal p.info)
      exact ok.goto pos top grows ok.bits tails holds
    | wordRead old =>
      simp only [stage] at post ⊢
      split <;> exact ok.moved pos top untouched rfl rfl post
    | write k =>
      simp only [stage] at post ⊢
      split
      · exact ok.moved pos top (Grows.same rfl rfl rfl rfl rfl) rfl rfl post
      · exact ok.moved pos top untouched rfl rfl post
    | merge =>
      simp only [stage] at post ⊢
      obtain ⟨grows, holds, bits⟩ := ok.raise post (.posted p.signal p.info (s.pending p.signal))
      exact ok.goto pos top grows bits (fun i => ⟨ok.tail i, ok.few i⟩) holds
    | wake => exact ok.left top

end

end

/-! ## Takes -/

theorem IsStandard.pending (std : IsStandard n) :
    s.pending n = (s.pendingSignals 0).getLsbD (n - 1) := by
  have := std.1
  have := std.2
  have word : signalWord n = 0 := by unfold signalWord; omega
  have mod : (n - 1) % 32 = n - 1 := by omega
  rw [Thread.pending, word, mod]

/-- A take goes on without a change to the queues. -/
theorem QueueOk.walked {pc : Take size} (ok : QueueOk s) (take : TakeHolds { s with take := pc }) :
    QueueOk { s with take := pc } :=
  ⟨ok.bits, ok.head, ok.tail, ok.few, fun p member => ok.posts p member, take⟩

/-- A take leaves; what it returned is in the history only. -/
theorem QueueOk.ended (ok : QueueOk s) (e : Event size) :
    QueueOk ({ s with take := .idle }.log e) :=
  ⟨ok.bits, ok.head, ok.tail, ok.few, fun p member => ok.posts p member, trivial⟩

section
variable (ok : QueueOk s) (free : s.handlers = [])
include ok free

theorem QueueOk.cleared (std : IsStandard n) (open' : s.masked n = false) :
    QueueOk { s.clear (s.pendingSignals 0) n with take := .give r n selected taken } := by
  refine ⟨⟨?_, ?_⟩, ok.head, ok.tail, ok.few, fun p member => ?_, ⟨std.1, ?_⟩, open'⟩
  · exact ok.bits.1
  · show (s.pendingSignals 0 &&& ~~~ signalBit n).getLsbD 31 = false
    rw [BitVec.getLsbD_and, ok.bits.2, Bool.false_and]
  · exact absurd (show p ∈ s.handlers from member) (by simp [free])
  · have := std.2
    omega

theorem QueueOk.dequeued (rt : IsRealtime n) (open' : s.masked n = false)
    (some : s.holds n = true) :
    QueueOk { s.storeHead (index n) (wrap (s.realtimeHead (index n) + 1)) with
      take := .give r n selected taken } := by
  have few := ok.few (index n)
  have positive : 0 < waiting (s.realtimeTail (index n)) (s.realtimeHead (index n)) := by
    have nonneg := waiting_nonneg (s.realtimeTail (index n)) (s.realtimeHead (index n))
    have zero := waiting_eq_zero (ok.tail (index n)) (ok.head (index n))
    have := mt zero.mp ((holds_realtime rt).mp some)
    omega
  refine ⟨ok.bits, fun i => ?_, ok.tail, fun i => ?_, fun p member => ?_, ⟨rt.pos, rt.bounds.2⟩,
    open'⟩
  · show InRange (Function.update s.realtimeHead (index n) _ i)
    by_cases same : i = index n
    · rw [same, Function.update_self]
      exact wrap_inRange _
    · rw [Function.update_of_ne same]
      exact ok.head i
  · show waiting _ (Function.update s.realtimeHead (index n) _ i) ≤ 64
    by_cases same : i = index n
    · rw [same, Function.update_self]
      show waiting (s.realtimeTail (index n)) _ ≤ 64
      rw [waiting_dequeue positive few]
      omega
    · rw [Function.update_of_ne same]
      exact ok.few i
  · exact absurd (show p ∈ s.handlers from member) (by simp [free])

theorem stepTake_queue : QueueOk (stepTake s) := by
  have take := ok.take
  unfold TakeHolds at take
  unfold stepTake
  cases taking : s.take with
  | idle => exact ok
  | load r =>
    refine ok.walked ⟨ok.bits.2, fun n std bit => ?_⟩
    show s.holds n = true
    rw [holds_other std.not_realtime, std.pending]
    exact bit
  | choose r old =>
    simp only [taking] at take ⊢
    split
    · exact ok.walked (Nat.le_refl _)
    · rename_i some
      obtain ⟨n, lowest, std, -, open'⟩ := lowest_candidate take.1 some
      rw [lowest]
      exact ok.walked ⟨std, std.masked.trans open'⟩
  | copy r old n k selected =>
    simp only [taking] at take ⊢
    split <;> exact ok.walked take
  | swap r old n selected =>
    simp only [taking] at take ⊢
    split
    · rename_i same
      rw [← same]
      exact ok.cleared free take.1 take.2
    · exact ok.walked trivial
  | scan r n =>
    simp only [taking] at take ⊢
    split
    · exact ok.ended _
    · rename_i small
      split
      · exact ok.walked (Nat.le_succ_of_le take)
      · rename_i open'
        exact ok.walked ⟨⟨take, by omega⟩, Bool.eq_false_iff.mpr open'⟩
  | head r n =>
    simp only [taking] at take ⊢
    exact ok.walked ⟨take.1, take.2, rfl⟩
  | tail r n head =>
    simp only [taking] at take ⊢
    split
    · exact ok.walked (Nat.le_succ_of_le take.1.1)
    · rename_i some
      refine ok.walked ⟨take.1, take.2.1, take.2.2, ?_⟩
      show s.holds n = true
      rw [holds_realtime take.1, ← take.2.2]
      exact some
  | read r n head k selected =>
    simp only [taking] at take ⊢
    split <;> exact ok.walked take
  | advance r n head selected =>
    simp only [taking] at take ⊢
    obtain ⟨rt, open', rfl, some⟩ := take
    exact ok.dequeued free rt open' some
  | give r n selected taken => exact ok.ended _

end

/-- The queues hold an unmasked real-time signal from `n` on. -/
def Thread.OffersFrom (s : Thread size) (n : Nat) : Prop :=
  ∃ m, n ≤ m ∧ IsRealtime m ∧ s.holds m = true ∧ s.masked m = false

/-- The take in progress will not come back with nothing. -/
def WillTake (s : Thread size) : Prop :=
  match s.take with
  | .idle => False
  | .load _ | .copy _ _ _ _ _ | .swap _ _ _ _ => s.Offers s.signalMask
  | .choose _ old => ¬ old &&& ~~~ s.signalMask 0 = 0 ∨ s.OffersFrom firstRealtimeSignal
  | .scan _ n | .head _ n | .tail _ n _ => s.OffersFrom n
  | .read _ _ _ _ _ | .advance _ _ _ _ | .give _ _ _ _ => True

theorem Grows.offersFrom (grows : Grows s t) (h : s.OffersFrom n) :
    t.OffersFrom n := by
  obtain ⟨m, le, rt, held, free⟩ := h
  refine ⟨m, le, rt, grows.holds m rt.pos held, ?_⟩
  rw [← free]
  unfold Thread.masked
  rw [grows.mask]

theorem WillTake.grows (h : WillTake s) (grows : Grows s t) : WillTake t := by
  unfold WillTake at h ⊢
  rw [grows.take, grows.mask]
  cases taking : s.take with
  | idle =>
    rw [taking] at h
    exact h
  | load | copy | swap =>
    simp only [taking] at h
    exact grows.offers h
  | choose =>
    simp only [taking] at h
    exact h.imp id grows.offersFrom
  | scan | head | tail =>
    simp only [taking] at h
    exact grows.offersFrom h
  | read | advance | give => trivial

/-- Where the scan of the real-time queues passes a signal by. -/
theorem Thread.OffersFrom.next (h : s.OffersFrom n)
    (other : ¬ (s.holds n = true ∧ s.masked n = false)) : s.OffersFrom (n + 1) := by
  obtain ⟨m, le, rt, held, free⟩ := h
  refine ⟨m, ?_, rt, held, free⟩
  rcases Nat.lt_or_eq_of_le le with lt | rfl
  · exact lt
  · exact absurd ⟨held, free⟩ other

/-- What is offered is in the first word or a real-time queue. -/
theorem QueueOk.offers (ok : QueueOk s) (h : s.Offers s.signalMask) :
    ¬ s.pendingSignals 0 &&& ~~~ s.signalMask 0 = 0 ∨ s.OffersFrom firstRealtimeSignal := by
  obtain ⟨n, pos, le, held, free⟩ := h
  by_cases rt : IsRealtime n
  · exact .inr ⟨n, rt.1, rt, held, free⟩
  · left
    rw [holds_other rt] at held
    have std : IsStandard n := by
      refine ⟨pos, ?_⟩
      by_contra high
      have word : signalWord n = 1 := by
        simp only [IsRealtime, firstRealtimeSignal, lastRealtimeSignal] at rt
        unfold signalWord
        omega
      rw [Thread.pending, word, ok.bits.1] at held
      simp at held
    rw [std.pending] at held
    have free : (s.signalMask 0).getLsbD (n - 1) = false := std.masked (s := s) ▸ free
    intro zero
    have bit := congrArg (fun w => w.getLsbD (n - 1)) zero
    have small : n - 1 < 32 := by
      have := std.2
      omega
    rw [BitVec.getLsbD_and, BitVec.getLsbD_not, held, free, decide_eq_true small] at bit
    simp at bit

/-- Every step of a take that will not come back with nothing. -/
theorem stepTake_will (ok : QueueOk s) (will : WillTake s) :
    (∃ r n selected taken, s.take = .give r n selected taken) ∨ WillTake (stepTake s) := by
  have take := ok.take
  unfold TakeHolds at take
  unfold WillTake at will
  cases taking : s.take with
  | idle =>
    rw [taking] at will
    exact will.elim
  | load r =>
    simp only [taking] at will
    right
    simp only [stepTake, taking, WillTake]
    exact ok.offers will
  | choose r old =>
    simp only [taking] at will take
    right
    simp only [stepTake, taking]
    split
    · rename_i none
      exact will.resolve_left (fun some => some none)
    · rename_i some
      obtain ⟨n, -, std, bit, free⟩ := lowest_candidate take.1 some
      refine ⟨n, std.1, ?_, take.2 n std bit, ?_⟩
      · have := std.2
        omega
      · exact (std.masked (s := s)).trans free
  | copy r old n k selected =>
    simp only [taking] at will
    right
    simp only [stepTake, taking]
    split <;> exact will
  | swap r old n selected =>
    simp only [taking] at will
    right
    simp only [stepTake, taking]
    split
    · trivial
    · exact will
  | scan r n =>
    simp only [taking] at will
    right
    simp only [stepTake, taking]
    split
    · rename_i past
      obtain ⟨m, le, rt, -⟩ := will
      have := rt.2
      omega
    · split
      · rename_i masked
        exact will.next fun both => by simp [both.2] at masked
      · exact will
  | head r n =>
    simp only [taking] at will
    right
    simp only [stepTake, taking]
    exact will
  | tail r n head =>
    simp only [taking] at will take
    right
    simp only [stepTake, taking]
    split
    · rename_i empty
      refine will.next fun both => ?_
      rw [holds_realtime take.1, ← take.2.2] at both
      exact both.1 empty
    · trivial
  | read r n head k selected =>
    right
    simp only [stepTake, taking]
    split <;> trivial
  | advance r n head selected =>
    right
    simp only [stepTake, taking]
    trivial
  | give r n selected taken => exact .inl ⟨r, n, selected, taken, rfl⟩

end Linuxemu.Pending
