import Linuxemu.PendingExact

/-! The counters of the real-time rings over runs of any length. They are never reduced, so they
wrap; head and tail stay equal, modulo the width, to the numbers of instances taken and queued,
and a ring never holds more than it has slots. -/
namespace Linuxemu.Pending
variable {size : Nat}
variable {s t : Thread size} {rest : List (Post size)} {p : Post size} {selected : Siginfo size}
  {n : Nat} {r : Request}

/-! ## Counters modulo the width -/

theorem wrap_add (x y : Int) : wrap (wrap x + y) = wrap (x + y) := by
  unfold wrap
  omega

theorem wrap_sub_wrap (x y : Int) : wrap (wrap x - wrap y) = wrap (x - y) := by
  unfold wrap
  omega

/-- How many instances of `n` were accepted. -/
def Thread.count (s : Thread size) (n : Nat) : Nat := (s.accepted n).length

/-- The counters of one ring, and that it holds no more than it has slots. -/
structure QueueCounted (s : Thread size) (n : Nat) : Prop where
  tail : s.realtimeTail (index n) = wrap (s.count n)
  head : s.realtimeHead (index n) = wrap (s.gone n)
  taken : s.gone n ≤ s.count n
  room : s.count n ≤ s.gone n + 64

/-- What a handler knows of the counters. -/
def PostCounted (s : Thread size) (p : Post size) : Prop :=
  match p.stage with
  | .start | .wake => True
  | .tailRead tail => IsRealtime p.signal ∧ tail = wrap (s.count p.signal)
  | .fill tail _ | .publish tail =>
    IsRealtime p.signal ∧ tail = wrap (s.count p.signal) ∧
      s.count p.signal < s.gone p.signal + 64
  | .wordRead _ | .write _ | .merge => ¬ IsRealtime p.signal ∧ 1 ≤ p.signal

/-- What the take in progress knows of them. -/
def TakeCounted (s : Thread size) : Prop :=
  match s.take with
  | .idle | .load _ | .give _ _ _ _ => True
  | .choose _ old => old.getLsbD 31 = false
  | .copy _ _ n _ _ | .swap _ _ n _ => IsStandard n
  | .scan _ n => firstRealtimeSignal ≤ n
  | .head _ n => IsRealtime n
  | .tail _ n head => IsRealtime n ∧ head = wrap (s.gone n)
  | .read _ n head _ _ | .advance _ n head _ =>
    IsRealtime n ∧ head = wrap (s.gone n) ∧ s.gone n < s.count n

structure Counted (s : Thread size) : Prop where
  distinct : (s.handlers.map Post.signal).Nodup
  posts : ∀ p ∈ s.handlers, PostCounted s p
  take : TakeCounted s
  queues : ∀ n, IsRealtime n → QueueCounted s n
  top : s.pending firstRealtimeSignal = false

/-! ## What a step leaves alone -/

/-- Nothing about the ring of `n` changed. -/
theorem QueueCounted.same (queue : QueueCounted s n) (count : t.count n = s.count n)
    (gone : t.gone n = s.gone n) (head : t.realtimeHead (index n) = s.realtimeHead (index n))
    (tail : t.realtimeTail (index n) = s.realtimeTail (index n)) : QueueCounted t n := by
  obtain ⟨behind, before, taken, room⟩ := queue
  exact ⟨by rw [tail, count, behind], by rw [head, gone, before], by rwa [gone, count],
    by rwa [gone, count]⟩

/-- Nothing was accepted or taken, and no counter changed. -/
structure Uncounted (s t : Thread size) : Prop where
  accepted : t.accepted = s.accepted
  gone : t.gone = s.gone
  head : t.realtimeHead = s.realtimeHead
  tail : t.realtimeTail = s.realtimeTail

theorem Uncounted.count (same : Uncounted s t) : t.count = s.count := by
  funext n
  rw [Thread.count, same.accepted]
  rfl

theorem Uncounted.queue (same : Uncounted s t) (queue : QueueCounted s n) : QueueCounted t n :=
  queue.same (congrFun same.count n) (congrFun same.gone n) (congrFun same.head _)
    (congrFun same.tail _)

theorem PostCounted.same (h : PostCounted s p) (count : t.count p.signal = s.count p.signal)
    (gone : t.gone p.signal = s.gone p.signal) :
    PostCounted t p := by
  unfold PostCounted at h ⊢
  rw [count, gone]
  exact h

/-- A take that is interrupted only sees the ring it looks at grow. -/
theorem TakeCounted.grown (h : TakeCounted s) (take : t.take = s.take) (gone : t.gone = s.gone)
    (grown : ∀ n, s.count n ≤ t.count n) : TakeCounted t := by
  unfold TakeCounted at h ⊢
  rw [take, gone]
  split at h
  all_goals first
    | trivial
    | exact h
    | exact ⟨h.1, h.2.1, Nat.lt_of_lt_of_le h.2.2 (grown _)⟩

/-- A step of the innermost handler `p`, which goes on at another stage or is done. -/
theorem Counted.handled (inv : Counted s) (first : s.handlers = p :: rest) (take : t.take = s.take)
    (gone : t.gone = s.gone) (others : ∀ n, n ≠ p.signal → t.count n = s.count n)
    (grown : s.count p.signal ≤ t.count p.signal) (queues : ∀ n, IsRealtime n → QueueCounted t n)
    (top : t.pending firstRealtimeSignal = false) (handlers : t.handlers = rest ∨
      ∃ stage, t.handlers = { p with stage := stage } :: rest ∧
        PostCounted t { p with stage := stage }) : Counted t := by
  have distinct := inv.distinct
  rw [first, List.map_cons, List.nodup_cons] at distinct
  have outer : ∀ q ∈ rest, PostCounted t q := by
    intro q member
    have other : q.signal ≠ p.signal :=
      fun same => distinct.1 (same ▸ List.mem_map_of_mem member)
    exact (inv.posts q (first ▸ List.mem_cons_of_mem p member)).same (others _ other)
      (congrFun gone _)
  have taking : TakeCounted t := by
    apply inv.take.grown take gone
    intro n
    by_cases same : n = p.signal
    · exact same ▸ grown
    · exact (others n same).ge
  obtain done | ⟨stage, on, own⟩ := handlers
  · exact ⟨by rw [done]; exact distinct.2, by rwa [done], taking, queues, top⟩
  · refine ⟨?_, ?_, taking, queues, top⟩
    · rw [on, List.map_cons, List.nodup_cons]
      exact distinct
    · rw [on]
      exact List.forall_mem_cons.mpr ⟨own, outer⟩

/-- A step that counts nothing. -/
theorem Counted.moved (inv : Counted s) (first : s.handlers = p :: rest) (take : t.take = s.take)
    (same : Uncounted s t) (top : t.pending firstRealtimeSignal = false)
    (handlers : t.handlers = rest ∨
      ∃ stage, t.handlers = { p with stage := stage } :: rest ∧
        PostCounted t { p with stage := stage }) : Counted t :=
  inv.handled first take same.gone (fun n _ => congrFun same.count n)
    (congrFun same.count p.signal).ge (fun n rt => same.queue (inv.queues n rt)) top handlers

/-! ## Steps of a handler -/

theorem Uncounted.still (history : t.history = s.history) (take : t.take = s.take)
    (head : t.realtimeHead = s.realtimeHead) (tail : t.realtimeTail = s.realtimeTail) :
    Uncounted s t where
  accepted := by
    funext n
    rw [Thread.accepted, history]
    rfl
  gone := by
    funext n
    unfold Thread.gone Thread.returned Thread.inFlight
    rw [history, take]
  head := head
  tail := tail

/-- An event that is neither an acceptance nor a return. -/
theorem Uncounted.noted {e : Event size} (history : t.history = s.history ++ [e])
    (accepts : ∀ n, e.accepts n = none) (returns : ∀ n, e.returns n = none) (take : t.take = s.take)
    (head : t.realtimeHead = s.realtimeHead) (tail : t.realtimeTail = s.realtimeTail) :
    Uncounted s t where
  accepted := by
    funext n
    rw [accepted_concat history, accepts, Option.toList_none, List.append_nil]
  gone := by
    funext n
    unfold Thread.gone Thread.inFlight
    rw [returned_concat history, returns, Option.toList_none, List.append_nil, take]
  head := head
  tail := tail

/-- The room that the handler finds is the room there is, also across the wrap. -/
theorem QueueCounted.difference (queue : QueueCounted s n) :
    wrap (wrap (s.count n) - s.realtimeHead (index n)) = s.count n - s.gone n := by
  have := queue.taken
  have := queue.room
  rw [queue.head, wrap_sub_wrap, wrap_eq (by omega) (by omega)]

theorem Counted.published {tail : Int} (inv : Counted s) (first : s.handlers = p :: rest)
    (stage : p.stage = .publish tail) :
    Counted (((s.storeTail (index p.signal) (wrap (tail + 1))).log
      (.accepted p.signal p.info)).goto p rest .wake) := by
  have own := inv.posts p (first ▸ List.mem_cons_self)
  simp only [PostCounted, stage] at own
  obtain ⟨rt, read, room⟩ := own
  generalize ht : ((s.storeTail (index p.signal) (wrap (tail + 1))).log
    (.accepted p.signal p.info)).goto p rest .wake = t
  have history : t.history = s.history ++ [.accepted p.signal p.info] := ht ▸ rfl
  have take : t.take = s.take := ht ▸ rfl
  have heads : t.realtimeHead = s.realtimeHead := ht ▸ rfl
  have gone : t.gone = s.gone := by
    funext n
    unfold Thread.gone Thread.inFlight
    rw [returned_concat history, take]
    simp [Event.returns]
  have count (n : Nat) : t.count n = s.count n + if p.signal = n then 1 else 0 := by
    rw [Thread.count, accepted_concat history, List.length_append, Event.accepts]
    split <;> rfl
  have own : t.count p.signal = s.count p.signal + 1 := by rw [count, if_pos rfl]
  have others (n : Nat) (other : n ≠ p.signal) : t.count n = s.count n := by
    rw [count, if_neg (Ne.symm other), Nat.add_zero]
  refine inv.handled first take gone others (by omega) ?_ (ht ▸ inv.top)
    (.inr ⟨.wake, ht ▸ rfl, trivial⟩)
  intro n rt'
  obtain ⟨behind, before, taken, most⟩ := inv.queues n rt'
  by_cases same : n = p.signal
  · subst same
    refine ⟨?_, by rw [heads, gone, before], by rw [gone, own]; omega, by rw [gone, own]; omega⟩
    have stored : t.realtimeTail (index p.signal) = wrap (tail + 1) :=
      ht ▸ Function.update_self _ _ _
    rw [stored, read, wrap_add, own]
    rfl
  · have kept : t.realtimeTail (index n) = s.realtimeTail (index n) :=
      ht ▸ Function.update_of_ne (index_ne rt rt' same) _ _
    exact ⟨by rw [kept, others n same, behind], by rw [heads, gone, before],
      by rwa [gone, others n same], by rwa [gone, others n same]⟩

theorem Counted.merged (inv : Counted s) (first : s.handlers = p :: rest)
    (stage : p.stage = .merge) :
    Counted (((s.raise p.signal).log (.posted p.signal p.info (s.pending p.signal))).goto
      p rest .wake) := by
  have own := inv.posts p (first ▸ List.mem_cons_self)
  simp only [PostCounted, stage] at own
  obtain ⟨notRt, pos⟩ := own
  refine inv.moved first rfl (.noted rfl (fun _ => rfl) (fun _ => rfl) rfl rfl rfl) ?_
    (.inr ⟨.wake, rfl, trivial⟩)
  have ne : firstRealtimeSignal ≠ p.signal := fun same => notRt (same ▸ ⟨le_rfl, by decide⟩)
  show (s.raise p.signal).pending firstRealtimeSignal = false
  rw [pending_raise s pos (by decide), inv.top]
  simpa using ne

theorem stepHandler_counted (inv : Counted s) : Counted (stepHandler s) := by
  unfold stepHandler
  cases first : s.handlers with
  | nil => exact inv
  | cons p rest =>
    have own := inv.posts p (first ▸ List.mem_cons_self)
    have on {stage : Stage} (next : PostCounted s { p with stage := stage }) :
        Counted (s.goto p rest stage) :=
      inv.moved first rfl (.still rfl rfl rfl rfl) inv.top (.inr ⟨stage, rfl, next⟩)
    have leaves : Counted { s with handlers := rest } :=
      inv.moved first rfl (.still rfl rfl rfl rfl) inv.top (.inl rfl)
    cases stage : p.stage with
    | start =>
      by_cases valid : 0 < p.signal ∧ p.signal ≤ 64
      · by_cases rt : firstRealtimeSignal ≤ p.signal ∧ p.signal ≤ lastRealtimeSignal
        · simp only [stage, if_pos valid, if_pos rt]
          exact on ⟨rt, (inv.queues _ rt).tail⟩
        · simp only [stage, if_pos valid, if_neg rt]
          exact on ⟨rt, valid.1⟩
      · simp only [stage, if_neg valid]
        exact leaves
    | tailRead tail =>
      simp only [PostCounted, stage] at own
      obtain ⟨rt, read⟩ := own
      by_cases room : wrap (tail - s.realtimeHead (index p.signal)) < realtimeQueueLength
      · simp only [stage, if_pos room]
        rw [read, (inv.queues _ rt).difference] at room
        have length : (realtimeQueueLength : Int) = 64 := rfl
        have free : s.count p.signal < s.gone p.signal + 64 := by omega
        exact on ⟨rt, read, free⟩
      · simp only [stage, if_neg room]
        exact inv.moved first rfl (.noted rfl (fun _ => rfl) (fun _ => rfl) rfl rfl rfl) inv.top
          (.inr ⟨.wake, rfl, trivial⟩)
    | fill tail k =>
      simp only [PostCounted, stage] at own
      by_cases lt : k < size
      · simp only [stage, dif_pos lt]
        exact inv.moved first rfl (.still rfl rfl rfl rfl) inv.top
          (.inr ⟨.fill tail (k + 1), rfl, own⟩)
      · simp only [stage, dif_neg lt]
        exact on own
    | publish tail =>
      simp only [stage]
      exact inv.published first stage
    | wordRead old =>
      simp only [PostCounted, stage] at own
      simp only [stage]
      split
      · exact on own
      · exact on own
    | write k =>
      simp only [PostCounted, stage] at own
      by_cases lt : k < size
      · simp only [stage, dif_pos lt]
        exact inv.moved first rfl (.still rfl rfl rfl rfl) inv.top
          (.inr ⟨.write (k + 1), rfl, own⟩)
      · simp only [stage, dif_neg lt]
        exact on own
    | merge =>
      simp only [stage]
      exact inv.merged first stage
    | wake =>
      simp only [stage]
      exact leaves

/-! ## Steps of the take -/

theorem Counted.taken (free : t.handlers = []) (take : TakeCounted t)
    (queues : ∀ n, IsRealtime n → QueueCounted t n) (top : t.pending firstRealtimeSignal = false) :
    Counted t := by
  refine ⟨?_, ?_, take, queues, top⟩
  · rw [free]
    exact List.nodup_nil
  · rw [free]
    exact fun p member => absurd member List.not_mem_nil

theorem gone_walked {pc : Take size} (before : s.take.Empty) (after : pc.Empty) (n : Nat) :
    ({ s with take := pc } : Thread size).gone n = s.gone n := by
  have later : ({ s with take := pc } : Thread size).inFlight n = [] := inFlight_empty after n
  unfold Thread.gone
  rw [inFlight_empty before n, later]
  rfl

section
variable (inv : Counted s) (free : s.handlers = [])
include inv free

/-- A step of the take that moves nothing off a ring. -/
theorem Counted.walked {pc : Take size}
    (before : s.take.Empty) (after : pc.Empty) (take : TakeCounted { s with take := pc }) :
    Counted { s with take := pc } :=
  .taken free take
    (fun n rt => (inv.queues n rt).same rfl (gone_walked before after n) rfl rfl) inv.top

theorem Counted.advanced {head : Int} (take : s.take = .advance r n head selected) :
    Counted { s.storeHead (index n) (wrap (head + 1)) with
      take := .give r n selected (s.realtimeInformation (index n) (slotOf head)) } := by
  have ok := inv.take
  simp only [TakeCounted, take] at ok
  obtain ⟨rt, read, some⟩ := ok
  generalize ht : { s.storeHead (index n) (wrap (head + 1)) with
      take := .give r n selected (s.realtimeInformation (index n) (slotOf head)) } = t
  have gone (m : Nat) : t.gone m = s.gone m + if n = m then 1 else 0 := by
    have after : t.inFlight m = if n = m then [s.realtimeInformation (index n) (slotOf head)] else [] :=
      ht ▸ rfl
    have before : s.inFlight m = [] := inFlight_empty (take ▸ trivial) m
    have returned : t.returned m = s.returned m := ht ▸ rfl
    rw [Thread.gone, Thread.gone, before, after, returned]
    split <;> simp
  refine .taken (ht ▸ free) (ht ▸ trivial) ?_ (ht ▸ inv.top)
  intro m rt'
  have count : t.count m = s.count m := ht ▸ rfl
  have tail : t.realtimeTail (index m) = s.realtimeTail (index m) := ht ▸ rfl
  by_cases same : m = n
  · subst same
    obtain ⟨behind, before, taken, room⟩ := inv.queues m rt
    have one : t.gone m = s.gone m + 1 := by rw [gone, if_pos rfl]
    have stored : t.realtimeHead (index m) = wrap (head + 1) := ht ▸ Function.update_self _ _ _
    refine ⟨by rw [tail, count, behind], ?_, by omega, by omega⟩
    rw [stored, read, wrap_add, one]
    rfl
  · apply (inv.queues m rt').same count _ _ tail
    · rw [gone, if_neg (Ne.symm same), Nat.add_zero]
    · exact ht ▸ Function.update_of_ne (index_ne rt rt' same) _ _

/-- A standard signal is no instance of a ring. -/
theorem Counted.swapped (take : s.take = .swap r (s.pendingSignals 0) n selected) :
    Counted { s.clear (s.pendingSignals 0) n with
      take := .give r n selected (s.pendingInformation (n - 1)) } := by
  have std := inv.take
  simp only [TakeCounted, take] at std
  refine .taken free trivial ?_ ?_
  · intro m rt
    refine (inv.queues m rt).same rfl ?_ rfl rfl
    have other : n ≠ m := fun same => std.not_realtime (same ▸ rt)
    show (s.returned m ++ if n = m then _ else _).length = _
    rw [if_neg other, Thread.gone, Thread.inFlight, take]
  · show (s.clear (s.pendingSignals 0) n).pending firstRealtimeSignal = false
    rw [pending_clear s std (by decide), inv.top, Bool.false_and]

/-- The return hands over what was already counted. -/
theorem Counted.given {taken : Siginfo size} (take : s.take = .give r n selected taken)
    (results : Results size) :
    Counted ({ s with take := .idle }.log (.returned r n results taken (s.masked n))) := by
  generalize ht : { s with take := .idle }.log (.returned r n results taken (s.masked n)) = t
  have history : t.history = s.history ++ [.returned r n results taken (s.masked n)] := ht ▸ rfl
  have gone (m : Nat) : t.gone m = s.gone m := by
    have after : t.inFlight m = [] := ht ▸ rfl
    have before : s.inFlight m = if n = m then [taken] else [] := by
      simp only [Thread.inFlight, take]
    rw [Thread.gone, Thread.gone, before, after, returned_concat history, Event.returns]
    split <;> simp
  have count (m : Nat) : t.count m = s.count m := by
    rw [Thread.count, accepted_concat history]
    simp [Event.accepts, Thread.count]
  refine .taken (ht ▸ free) (ht ▸ trivial) ?_ (ht ▸ inv.top)
  intro m rt
  exact (inv.queues m rt).same (count m) (gone m) (ht ▸ rfl) (ht ▸ rfl)

theorem stepTake_counted : Counted (stepTake s) := by
  have ok := inv.take
  unfold stepTake
  cases take : s.take with
  | idle => exact inv
  | load r => exact inv.walked free (take ▸ trivial) trivial inv.top
  | choose r old =>
    simp only [TakeCounted, take] at ok
    by_cases none : old &&& ~~~ s.signalMask 0 = 0
    · simp only [if_pos none]
      exact inv.walked free (take ▸ trivial) trivial (le_refl _)
    · simp only [if_neg none]
      obtain ⟨n, lowest, std, -⟩ := lowest_candidate ok none
      rw [lowest]
      exact inv.walked free (take ▸ trivial) trivial std
  | copy r old n k selected =>
    simp only [TakeCounted, take] at ok
    by_cases lt : k < size
    · simp only [dif_pos lt]
      exact inv.walked free (take ▸ trivial) trivial ok
    · simp only [dif_neg lt]
      exact inv.walked free (take ▸ trivial) trivial ok
  | swap r old n selected =>
    by_cases same : s.pendingSignals 0 = old
    · simp only [if_pos same]
      subst same
      exact inv.swapped free take
    · simp only [if_neg same]
      exact inv.walked free (take ▸ trivial) trivial trivial
  | scan r n =>
    simp only [TakeCounted, take] at ok
    by_cases past : lastRealtimeSignal < n
    · simp only [if_pos past]
      have idle : Counted { s with take := .idle } :=
        inv.walked free (take ▸ trivial) trivial trivial
      refine .taken free trivial (fun n rt => Uncounted.queue ?_ (idle.queues n rt)) inv.top
      exact .noted rfl (fun _ => rfl) (fun _ => rfl) rfl rfl rfl
    · simp only [if_neg past]
      cases masked : s.masked n with
      | true =>
        exact inv.walked free (take ▸ trivial) trivial (Nat.le_succ_of_le ok)
      | false =>
        exact inv.walked free (take ▸ trivial) trivial
          ⟨ok, Nat.le_of_not_lt past⟩
  | head r n =>
    simp only [TakeCounted, take] at ok
    have before : s.take.Empty := take ▸ trivial
    refine inv.walked free before trivial ⟨ok, ?_⟩
    rw [gone_walked before]
    · exact (inv.queues n ok).head
    · trivial
  | tail r n head =>
    simp only [TakeCounted, take] at ok
    obtain ⟨rt, read⟩ := ok
    have before : s.take.Empty := take ▸ trivial
    by_cases empty : head = s.realtimeTail (index n)
    · simp only [if_pos empty]
      exact inv.walked free before trivial (Nat.le_succ_of_le rt.1)
    · simp only [if_neg empty]
      obtain ⟨behind, -, taken, -⟩ := inv.queues n rt
      have other : s.gone n ≠ s.count n := by
        intro same
        rw [behind, read, same] at empty
        exact empty rfl
      refine inv.walked free before trivial ⟨rt, ?_⟩
      rw [gone_walked before]
      · exact ⟨read, Nat.lt_of_le_of_ne taken other⟩
      · trivial
  | read r n head k selected =>
    simp only [TakeCounted, take] at ok
    have before : s.take.Empty := take ▸ trivial
    by_cases lt : r.information ∧ k < size
    · simp only [dif_pos lt]
      refine inv.walked free before trivial ?_
      simp only [TakeCounted]
      rw [gone_walked before]
      · exact ok
      · trivial
    · simp only [dif_neg lt]
      refine inv.walked free before trivial ?_
      simp only [TakeCounted]
      rw [gone_walked before]
      · exact ok
      · trivial
  | advance r n head selected => exact inv.advanced free take
  | give r n selected taken => exact inv.given free take _

end

/-! ## Runs -/

theorem step_counted (h : Step s t) (inv : Counted s) : Counted t := by
  cases h with
  | signal n information other =>
    refine ⟨?_, ?_, inv.take, fun n rt => (inv.queues n rt).same rfl rfl rfl rfl, inv.top⟩
    · refine List.nodup_cons.mpr ⟨?_, inv.distinct⟩
      intro member
      obtain ⟨p, earlier, same⟩ := List.mem_map.mp member
      exact other p earlier same
    · exact List.forall_mem_cons.mpr ⟨trivial, inv.posts⟩
  | handler => exact stepHandler_counted inv
  | call r idle free => exact inv.walked free (idle ▸ trivial) trivial trivial
  | take free => exact stepTake_counted inv free
  | setMask mask idle free =>
    refine .taken free ?_ (fun n rt => (inv.queues n rt).same rfl rfl rfl rfl) inv.top
    simp only [TakeCounted, idle]

theorem fresh_counted (mask : Nat → BitVec 32) : Counted (fresh mask : Thread size) where
  distinct := List.nodup_nil
  posts := by simp [fresh]
  take := trivial
  queues n _ :=
    have zero : (0 : Int) = wrap (0 : Nat) := (wrap_eq (Int.le_refl 0) (by decide)).symm
    ⟨zero, zero, Nat.le_refl 0, Nat.zero_le _⟩
  top := by simp [Thread.pending, fresh]

/-- The counters are right for ever. -/
theorem reachable_counted (h : Reachable s) : Counted s := by
  induction h with
  | start mask => exact fresh_counted mask
  | next _ step ih => exact step_counted step ih

end Linuxemu.Pending
