import Linuxemu.PendingInvariant

/-! Each step of a handler and of a take keeps the invariant of the queues. -/
namespace Linuxemu.Pending
open Lib
variable {size : Nat}
variable {s : Thread size} {rest : List (Post size)} {p : Post size} {selected : Siginfo size}
  {n : Nat} {r : Request} {tail : Int}
variable {t : Thread size} {old : BitVec 32} {stage : Stage} {m k : Nat}

/-! ## Handler steps -/

section
variable {s t : Thread size} {e : Event size} (history : t.history = s.history ++ [e]) (n : Nat)
include history

theorem made_concat : t.made n = s.made n ++ (e.makes n).toList := by
  rw [Thread.made, history, List.filterMap_append, ← Thread.made]
  cases h : e.makes n <;> simp [h]

theorem accepted_concat : t.accepted n = s.accepted n ++ (e.accepts n).toList := by
  rw [Thread.accepted, history, List.filterMap_append, ← Thread.accepted]
  cases h : e.accepts n <;> simp [h]

theorem returned_concat : t.returned n = s.returned n ++ (e.returns n).toList := by
  rw [Thread.returned, history, List.filterMap_append, ← Thread.returned]
  cases h : e.returns n <;> simp [h]

theorem events_concat (old : ∀ e ∈ s.history, EventOk e) (new : EventOk e) :
    ∀ e ∈ t.history, EventOk e := by
  intro e' mem
  rw [history] at mem
  rcases List.mem_append.mp mem with mem | mem
  · exact old e' mem
  · rw [List.mem_singleton.mp mem]
    exact new

/-- An event about another signal. -/
theorem sameLists_concat (take : t.take = s.take) (makes : e.makes n = none)
    (accepts : e.accepts n = none) (returns : e.returns n = none) : SameLists s t n := by
  refine ⟨?_, ?_, ?_, by unfold Thread.inFlight; rw [take]⟩
  · rw [made_concat history, makes, Option.toList_none, List.append_nil]
  · rw [accepted_concat history, accepts, Option.toList_none, List.append_nil]
  · rw [returned_concat history, returns, Option.toList_none, List.append_nil]

end

theorem SameLists.refl (s : Thread size) (n : Nat) : SameLists s s n := ⟨rfl, rfl, rfl, rfl⟩

theorem SameAt.refl (s : Thread size) (n : Nat) : SameAt s s n :=
  ⟨fun _ => rfl, fun _ => rfl, fun _ => rfl, fun _ => rfl, fun _ => rfl⟩

theorem Stable.refl (s : Thread size) : Stable s s :=
  ⟨rfl, rfl, rfl, fun _ _ h => ⟨h, rfl⟩, fun _ _ h => ⟨h, rfl⟩⟩

/-- A step of the innermost handler `p` keeps the invariant when it keeps what
concerns `p`'s signal and leaves the other signals and the take alone. -/
theorem Inv.handled (inv : Inv s) (first : s.handlers = p :: rest)
    (others : ∀ n, n ≠ p.signal → SameAt s t n ∧ SameLists s t n) (stable : Stable s t)
    (own : PostOk t { p with stage := stage })
    (standard : IsStandard p.signal → StandardOk t p.signal)
    (realtime : IsRealtime p.signal → RealtimeOk t p.signal)
    (top : t.pending firstRealtimeSignal = false) (events : ∀ e ∈ t.history, EventOk e) :
    Inv (t.goto p rest stage) := by
  have distinct := inv.distinct
  have posts := inv.posts
  rw [first] at distinct posts
  refine ⟨distinct, ?_, show TakeOk t from inv.take.stable stable, ?_, ?_, top, events⟩
  · intro q mem
    show PostOk t q
    rcases List.mem_cons.mp mem with rfl | mem
    · exact own
    · have ne : q.signal ≠ p.signal := by
        intro e
        apply (List.nodup_cons.mp distinct).1
        exact e ▸ List.mem_map_of_mem mem
      exact (posts q (List.mem_cons_of_mem _ mem)).same (others _ ne).1
  · intro n std
    show StandardOk t n
    by_cases e : n = p.signal
    · exact e ▸ standard (e ▸ std)
    · exact (inv.standard n std).same std (others n e).1 (others n e).2
  · intro n rt
    show RealtimeOk t n
    by_cases e : n = p.signal
    · exact e ▸ realtime (e ▸ rt)
    · exact (inv.realtime n rt).same rt (others n e).1 (others n e).2

/-- A step that only moves the handler on. -/
theorem Inv.moved (inv : Inv s) (first : s.handlers = p :: rest)
    (own : PostOk s { p with stage := stage }) :
    Inv (s.goto p rest stage) :=
  inv.handled first (fun n _ => ⟨.refl s n, .refl s n⟩) (.refl s) own (inv.standard _)
    (inv.realtime _) inv.top inv.events

theorem Inv.left (inv : Inv s) (first : s.handlers = p :: rest) :
    Inv { s with handlers := rest } := by
  have distinct := inv.distinct
  have posts := inv.posts
  rw [first] at distinct posts
  exact ⟨(List.nodup_cons.mp distinct).2, fun q mem => posts q (List.mem_cons_of_mem _ mem),
    inv.take, inv.standard, inv.realtime, inv.top, inv.events⟩

/-- The counts of a real-time queue, once nothing has overflowed. -/
theorem RealtimeOk.counts (h : RealtimeOk s n) :
    ∃ waiting, s.accepted n = s.returned n ++ s.inFlight n ++ waiting ∧
      (s.accepted n).length = s.gone n + waiting.length ∧
      waiting.length ≤ realtimeQueueLength ∧
      s.realtimeTail (index n) - s.realtimeHead (index n) = waiting.length ∧
      s.outstanding n = waiting.length := by
  obtain ⟨waiting, split, head, tail, ring⟩ := h
  have length : (s.accepted n).length = s.gone n + waiting.length := by
    rw [split, List.length_append, Thread.gone]
  refine ⟨waiting, split, length, ring.fits, ?_, ?_⟩
  · rw [head, tail, length]
    omega
  · unfold Thread.outstanding
    unfold Thread.gone at length
    rw [List.length_append] at length
    omega

/-- An event that no list counts. -/
theorem Inv.logged {e : Event size} (inv : Inv s) (makes : ∀ n, e.makes n = none)
    (accepts : ∀ n, e.accepts n = none) (returns : ∀ n, e.returns n = none) (ok : EventOk e) :
    Inv (s.log e) := by
  have lists : ∀ n, SameLists s (s.log e) n :=
    fun n => sameLists_concat rfl n rfl (makes n) (accepts n) (returns n)
  have same : ∀ n, SameAt s (s.log e) n :=
    fun n => ⟨fun _ => rfl, fun _ => rfl, fun _ => rfl, fun _ => rfl, fun _ => rfl⟩
  exact ⟨inv.distinct, inv.posts, inv.take,
    fun n std => (inv.standard n std).same std (same n) (lists n),
    fun n rt => (inv.realtime n rt).same rt (same n) (lists n), inv.top,
    events_concat rfl inv.events ok⟩

theorem Inv.refused (inv : Inv s) (few : ∀ n, (s.accepted n).length < 2 ^ 31)
    (first : s.handlers = p :: rest) (rt : IsRealtime p.signal)
    (read : tail = s.realtimeTail (index p.signal))
    (full : ¬ wrap (tail - s.realtimeHead (index p.signal)) < realtimeQueueLength) :
    Inv ((s.log (.refused p.signal (s.outstanding p.signal))).goto p rest .wake) := by
  obtain ⟨waiting, _, length, fits, diff, outstanding⟩ := (inv.realtime _ rt).counts
  have bound := few p.signal
  rw [read, diff, wrap_eq (by omega) (by omega)] at full
  have ok : s.outstanding p.signal = realtimeQueueLength := by omega
  have logged : Inv (s.log (.refused p.signal (s.outstanding p.signal))) :=
    inv.logged (fun _ => rfl) (fun _ => rfl) (fun _ => rfl) ok
  exact logged.moved first trivial

theorem sameAt_storeRealtime (s : Thread size) (rt : IsRealtime m) (slot : Nat) (k : Fin size)
    (word : UInt32) (ne : n ≠ m) :
    SameAt s (s.storeRealtime (index m) slot k word) n := by
  refine ⟨fun _ => rfl, fun _ => rfl, fun _ => rfl, fun _ => rfl, fun rt' => ?_⟩
  exact Function.update_of_ne (index_ne rt rt' ne) _ _

/-- The slot at the tail of a queue with room lies behind all that wait. -/
theorem RealtimeOk.room (h : RealtimeOk s n) (read : tail = s.realtimeTail (index n))
    (room : tail - s.realtimeHead (index n) < realtimeQueueLength) :
    ∃ waiting, s.accepted n = s.returned n ++ s.inFlight n ++ waiting ∧
      s.realtimeHead (index n) = s.gone n ∧ tail = (s.gone n + waiting.length : Nat) ∧
      Ring.Holds (s.realtimeInformation (index n)) realtimeQueueLength (s.gone n) waiting ∧
      slotOf tail = (s.gone n + waiting.length) % realtimeQueueLength ∧
      waiting.length < realtimeQueueLength := by
  obtain ⟨waiting, split, head, count, ring⟩ := h
  have length : (s.accepted n).length = s.gone n + waiting.length := by
    rw [split, List.length_append, Thread.gone]
  have behind : tail = (s.gone n + waiting.length : Nat) := by rw [read, count, length]
  refine ⟨waiting, split, head, behind, ring, by rw [behind, slotOf_natCast], ?_⟩
  rw [behind, head] at room
  omega

section
variable (inv : Inv s) (first : s.handlers = p :: rest)
include inv first

theorem Inv.filled (stage : p.stage = .fill tail k) (lt : k < size) :
    Inv ((s.storeRealtime (index p.signal) (slotOf tail) ⟨k, lt⟩ (p.info ⟨k, lt⟩)).goto p rest
      (.fill tail (k + 1))) := by
  have own := inv.posts p (first ▸ List.mem_cons_self)
  simp only [PostOk, stage] at own
  obtain ⟨rt, read, room, copied⟩ := own
  have count := (inv.realtime _ rt).choose_spec.2.2.1
  obtain ⟨waiting, split, head, behind, ring, slot, free⟩ := (inv.realtime _ rt).room read room
  refine inv.handled first
    (fun n ne => ⟨sameAt_storeRealtime s rt _ _ _ ne, ⟨rfl, rfl, rfl, rfl⟩⟩) ?_ ?_
    (fun std => absurd rt std.not_realtime) (fun _ => ?_) inv.top inv.events
  · refine ⟨rfl, rfl, rfl, fun n _ bit => ⟨bit, rfl⟩, fun n rt' some => ⟨some, ?_⟩⟩
    by_cases e : n = p.signal
    · subst e
      have nonempty : 0 < waiting.length := by
        rw [head, ← read, behind] at some
        omega
      have apart : slotOf (s.realtimeHead (index p.signal)) ≠ slotOf tail := by
        rw [slot, head, slotOf_natCast]
        exact Ring.slot_ne nonempty free
      simp only [Thread.storeRealtime, Function.update_self]
      exact Function.update_of_ne apart _ _
    · exact congrFun ((sameAt_storeRealtime s rt _ _ _ e).ring rt') _
  · refine ⟨rt, read, room, ?_⟩
    simp only [Thread.storeRealtime, Function.update_self]
    exact copied.word lt
  · refine ⟨waiting, split, head, count, ?_⟩
    simp only [Thread.storeRealtime, Function.update_self]
    rw [slot]
    exact ring.fill free _

theorem Inv.published (stage : p.stage = .publish tail)
    (few : (s.accepted p.signal).length + 1 < 2 ^ 31) :
    Inv (((s.storeTail (index p.signal) (wrap (tail + 1))).log
      (.accepted p.signal p.info)).goto p rest .wake) := by
  have own := inv.posts p (first ▸ List.mem_cons_self)
  simp only [PostOk, stage] at own
  obtain ⟨rt, read, room, filled⟩ := own
  obtain ⟨waiting, split, head, behind, ring, slot, free⟩ := (inv.realtime _ rt).room read room
  have length : (s.accepted p.signal).length = s.gone p.signal + waiting.length := by
    rw [split, List.length_append, Thread.gone]
  have next : wrap (tail + 1) = ((s.accepted p.signal).length + 1 : Nat) := by
    rw [behind, wrap_eq (by omega) (by omega)]
    omega
  generalize ht : (s.storeTail (index p.signal) (wrap (tail + 1))).log
    (.accepted p.signal p.info) = t
  have history : t.history = s.history ++ [.accepted p.signal p.info] := ht ▸ rfl
  have accepted : t.accepted p.signal = s.accepted p.signal ++ [p.info] := by
    simp [accepted_concat history, Event.accepts]
  have returned : t.returned p.signal = s.returned p.signal := by
    simp [returned_concat history, Event.returns]
  have inFlight : t.inFlight p.signal = s.inFlight p.signal := ht ▸ rfl
  have tails : ∀ n, IsRealtime n → n ≠ p.signal →
      t.realtimeTail (index n) = s.realtimeTail (index n) :=
    fun n rt' ne => ht ▸ Function.update_of_ne (index_ne rt rt' ne) _ _
  have newTail : t.realtimeTail (index p.signal) = ((s.accepted p.signal).length + 1 : Nat) := by
    rw [← next, ← ht]
    exact Function.update_self _ _ _
  have rings : t.realtimeInformation = s.realtimeInformation := ht ▸ rfl
  have heads : t.realtimeHead = s.realtimeHead := ht ▸ rfl
  refine inv.handled first (fun n ne => ⟨?_, ?_⟩) ?_ trivial
    (fun std => absurd rt std.not_realtime) (fun _ => ?_) (ht ▸ inv.top)
    (events_concat history inv.events trivial)
  · exact ⟨fun _ => ht ▸ rfl, fun _ => ht ▸ rfl, fun _ => ht ▸ rfl, fun rt' => tails n rt' ne,
      fun _ => ht ▸ rfl⟩
  · exact sameLists_concat history n (ht ▸ rfl) rfl (if_neg (Ne.symm ne)) rfl
  · refine ⟨ht ▸ rfl, ht ▸ rfl, heads, fun n _ bit => ht ▸ ⟨bit, rfl⟩, fun n rt' some => ⟨?_, ?_⟩⟩
    · by_cases e : n = p.signal
      · rw [e, newTail, head]
        omega
      · rwa [tails n rt' e]
    · rw [rings]
  · refine ⟨waiting ++ [p.info], ?_, ?_, ?_, ?_⟩
    · rw [accepted, returned, inFlight, split, List.append_assoc]
    · rw [heads, head, Thread.gone, Thread.gone, returned, inFlight]
    · rw [newTail, accepted, List.length_append, List.length_singleton]
    · rw [rings, Thread.gone, returned, inFlight, ← Thread.gone, ← filled, slot]
      exact ring.publish free

/-! ### Standard signals -/

theorem Inv.written (stage : p.stage = .write k) (lt : k < size) :
    Inv ((s.storePending (p.signal - 1) ⟨k, lt⟩ (p.info ⟨k, lt⟩)).goto p rest
      (.write (k + 1))) := by
  have own := inv.posts p (first ▸ List.mem_cons_self)
  simp only [PostOk, stage] at own
  obtain ⟨std, clear, copied⟩ := own
  have others : ∀ n, IsStandard n → n ≠ p.signal →
      (s.storePending (p.signal - 1) ⟨k, lt⟩ (p.info ⟨k, lt⟩)).pendingInformation (n - 1) =
        s.pendingInformation (n - 1) := by
    intro n std' ne
    have := std.1
    have := std'.1
    exact Function.update_of_ne (by omega) _ _
  refine inv.handled first (fun n ne => ⟨⟨fun _ => rfl, fun std' => others n std' ne,
    fun _ => rfl, fun _ => rfl, fun _ => rfl⟩, ⟨rfl, rfl, rfl, rfl⟩⟩) ?_ ?_ (fun _ => ?_)
    (fun rt => absurd rt std.not_realtime) inv.top inv.events
  · refine ⟨rfl, rfl, rfl, fun n std' bit => ⟨bit, others n std' ?_⟩, fun n _ some => ⟨some, rfl⟩⟩
    rintro rfl
    rw [clear] at bit
    contradiction
  · refine ⟨std, clear, ?_⟩
    simp only [Thread.storePending, Function.update_self]
    exact copied.word lt
  · have before := inv.standard _ std
    unfold StandardOk at before ⊢
    rw [clear] at before
    rw [show (s.storePending _ _ _).pending p.signal = false from clear]
    exact before

theorem Inv.merged (stage : p.stage = .merge) :
    Inv (((s.raise p.signal).log (.posted p.signal p.info (s.pending p.signal))).goto
      p rest .wake) := by
  have own := inv.posts p (first ▸ List.mem_cons_self)
  simp only [PostOk, stage] at own
  obtain ⟨notRt, pos, written⟩ := own
  generalize ht : (s.raise p.signal).log (.posted p.signal p.info (s.pending p.signal)) = t
  have history : t.history = s.history ++ [.posted p.signal p.info (s.pending p.signal)] :=
    ht ▸ rfl
  have pending : ∀ n, 1 ≤ n → t.pending n = (s.pending n || decide (n = p.signal)) :=
    fun n hn => ht ▸ pending_raise s pos hn
  refine inv.handled first (fun n ne => ⟨?_, ?_⟩) ?_ trivial (fun std => ?_)
    (fun rt => absurd rt notRt) ?_ (events_concat history inv.events trivial)
  · refine ⟨fun hn => ?_, fun _ => ht ▸ rfl, fun _ => ht ▸ rfl, fun _ => ht ▸ rfl,
      fun _ => ht ▸ rfl⟩
    simp [pending n hn, ne]
  · exact sameLists_concat history n (ht ▸ rfl) (if_neg (fun h => ne h.1.symm)) rfl rfl
  · refine ⟨ht ▸ rfl, ht ▸ rfl, ht ▸ rfl, fun n std bit => ⟨?_, ht ▸ rfl⟩,
      fun n _ some => ht ▸ ⟨some, rfl⟩⟩
    simp [pending n std.1, bit]
  · have before := inv.standard _ std
    have returned : t.returned p.signal = s.returned p.signal := by
      simp [returned_concat history, Event.returns]
    have inFlight : t.inFlight p.signal = s.inFlight p.signal := ht ▸ rfl
    have info : t.pendingInformation = s.pendingInformation := ht ▸ rfl
    unfold StandardOk at before ⊢
    rw [returned, inFlight, info, pending _ pos, made_concat history, before]
    -- a pending signal absorbs the post; otherwise its information is in place
    cases bit : s.pending p.signal with
    | true => simp [Event.makes]
    | false => simp [Event.makes, written std bit]
  · have ne : firstRealtimeSignal ≠ p.signal := fun e => notRt (e ▸ ⟨le_rfl, by decide⟩)
    simp [pending firstRealtimeSignal (by decide), inv.top, ne]

end

theorem stepHandler_inv (inv : Inv s) (few : ∀ n, (s.accepted n).length < 2 ^ 31)
    (still : ∀ n, ((stepHandler s).accepted n).length < 2 ^ 31) : Inv (stepHandler s) := by
  unfold stepHandler at still ⊢
  cases first : s.handlers with
  | nil => exact inv
  | cons p rest =>
    have own := inv.posts p (first ▸ List.mem_cons_self)
    simp only [first] at still
    cases stage : p.stage with
    | start =>
      by_cases valid : 0 < p.signal ∧ p.signal ≤ 64
      · by_cases rt : firstRealtimeSignal ≤ p.signal ∧ p.signal ≤ lastRealtimeSignal
        · simp only [stage, if_pos valid, if_pos rt]
          exact inv.moved first ⟨rt, rfl⟩
        · simp only [stage, if_pos valid, if_neg rt]
          exact inv.moved first ⟨rt, valid.1, rfl⟩
      · simp only [stage, if_neg valid]
        exact inv.left first
    | tailRead tail =>
      simp only [PostOk, stage] at own
      obtain ⟨rt, read⟩ := own
      by_cases room : wrap (tail - s.realtimeHead (index p.signal)) < realtimeQueueLength
      · simp only [stage, if_pos room]
        refine inv.moved first ⟨rt, read, ?_, Copied.zero _ _⟩
        obtain ⟨waiting, _, length, fits, diff, _⟩ := (inv.realtime _ rt).counts
        have bound := few p.signal
        rwa [read, diff, wrap_eq (by omega) (by omega), ← diff, ← read] at room
      · simp only [stage, if_neg room]
        exact inv.refused few first rt read room
    | fill tail k =>
      by_cases lt : k < size
      · simp only [stage, dif_pos lt]
        exact inv.filled first stage lt
      · simp only [stage, dif_neg lt]
        simp only [PostOk, stage] at own
        obtain ⟨rt, read, room, copied⟩ := own
        exact inv.moved first ⟨rt, read, room, copied.done lt⟩
    | publish tail =>
      simp only [stage] at still ⊢
      refine inv.published first stage ?_
      have bound := still p.signal
      change (Thread.accepted (Thread.log _ _) p.signal).length < 2 ^ 31 at bound
      rw [accepted_concat (s := s) (e := .accepted p.signal p.info) rfl] at bound
      simpa [Event.accepts] using bound
    | wordRead old =>
      simp only [PostOk, stage] at own
      obtain ⟨notRt, pos, read⟩ := own
      by_cases clear : old &&& signalBit p.signal = 0 ∧ p.signal ≤ 31
      · simp only [stage, if_pos clear]
        refine inv.moved first ⟨⟨pos, clear.2⟩, ?_, Copied.zero _ _⟩
        rw [← read]
        exact (and_signalBit _ _).mp clear.1
      · simp only [stage, if_neg clear]
        refine inv.moved first ⟨notRt, pos, fun std bit => absurd ⟨?_, std.2⟩ clear⟩
        rw [and_signalBit, read]
        exact bit
    | write k =>
      by_cases lt : k < size
      · simp only [stage, dif_pos lt]
        exact inv.written first stage lt
      · simp only [stage, dif_neg lt]
        simp only [PostOk, stage] at own
        obtain ⟨std, _, copied⟩ := own
        exact inv.moved first ⟨std.not_realtime, std.1, fun _ _ => copied.done lt⟩
    | merge =>
      simp only [stage]
      exact inv.merged first stage
    | wake =>
      simp only [stage]
      exact inv.left first

/-! ## Steps of the take -/

/-- A step of the take keeps the invariant when it keeps what concerns the signal
`m` and leaves the other signals alone. -/
theorem Inv.taken (inv : Inv s) (free : t.handlers = [])
    (others : ∀ n, n ≠ m → SameAt s t n ∧ SameLists s t n) (take : TakeOk t)
    (standard : IsStandard m → StandardOk t m) (realtime : IsRealtime m → RealtimeOk t m)
    (top : t.pending firstRealtimeSignal = false) (events : ∀ e ∈ t.history, EventOk e) :
    Inv t := by
  refine ⟨by simp [free], by simp [free], take, ?_, ?_, top, events⟩
  · intro n std
    by_cases e : n = m
    · exact e ▸ standard (e ▸ std)
    · exact (inv.standard n std).same std (others n e).1 (others n e).2
  · intro n rt
    by_cases e : n = m
    · exact e ▸ realtime (e ▸ rt)
    · exact (inv.realtime n rt).same rt (others n e).1 (others n e).2

/-- No instance is on its way to the caller. -/
def Take.Empty : Take size → Prop
  | .give _ _ _ _ => False
  | _ => True

theorem inFlight_empty (empty : s.take.Empty) (n : Nat) : s.inFlight n = [] := by
  unfold Thread.inFlight
  cases take : s.take with
  | give r m selected taken =>
    rw [take] at empty
    exact empty.elim
  | _ => rfl

/-- A step before the signal leaves its queue. -/
theorem Inv.walked {pc : Take size} (inv : Inv s) (free : s.handlers = []) (before : s.take.Empty)
    (after : pc.Empty) (take : TakeOk { s with take := pc }) : Inv { s with take := pc } := by
  have lists : ∀ n, SameLists s { s with take := pc } n := fun n =>
    ⟨rfl, rfl, rfl, (inFlight_empty (s := { s with take := pc }) after n).trans
      (inFlight_empty before n).symm⟩
  have same : ∀ n, SameAt s { s with take := pc } n :=
    fun n => ⟨fun _ => rfl, fun _ => rfl, fun _ => rfl, fun _ => rfl, fun _ => rfl⟩
  exact inv.taken (m := 0) free (fun n _ => ⟨same n, lists n⟩) take
    (fun std => (inv.standard _ std).same std (same _) (lists _))
    (fun rt => (inv.realtime _ rt).same rt (same _) (lists _)) inv.top inv.events

/-- The lowest bit of `candidates`, as a signal number. -/
theorem lowest_candidate {mask : BitVec 32} (top : old.getLsbD 31 = false)
    (some : ¬ old &&& ~~~ mask = 0) :
    ∃ n, (old &&& ~~~ mask).ctz.toNat + 1 = n ∧ IsStandard n ∧ old.getLsbD (n - 1) = true ∧
      mask.getLsbD (n - 1) = false := by
  have bit := BitVec.getLsbD_true_ctz_of_ne_zero some
  generalize (old &&& ~~~ mask).ctz.toNat = i at bit ⊢
  have lt : i < 32 := BitVec.lt_of_getLsbD bit
  rw [BitVec.getLsbD_and, BitVec.getLsbD_not, Bool.and_eq_true] at bit
  have small : i ≠ 31 := by
    rintro rfl
    rw [top] at bit
    exact absurd bit.1 (by decide)
  refine ⟨i + 1, rfl, ⟨by omega, by omega⟩, bit.1, ?_⟩
  simpa [lt] using bit.2

/-- A standard signal's bit is in the first word. -/
theorem IsStandard.masked (std : IsStandard n) :
    s.masked n = (s.signalMask 0).getLsbD (n - 1) := by
  have := std.1
  have := std.2
  have word : signalWord n = 0 := by unfold signalWord; omega
  have mod : (n - 1) % 32 = n - 1 := by omega
  rw [Thread.masked, word, mod]

/-- `signal_number` of the lowest candidate. -/
theorem choose_ok (ok : TakeOk s) (take : s.take = .choose r old)
    (some : ¬ old &&& ~~~ s.signalMask 0 = 0) :
    IsStandard ((old &&& ~~~ s.signalMask 0).ctz.toNat + 1) ∧
      s.masked ((old &&& ~~~ s.signalMask 0).ctz.toNat + 1) = false ∧
      s.pending ((old &&& ~~~ s.signalMask 0).ctz.toNat + 1) = true := by
  simp only [TakeOk, take] at ok
  obtain ⟨n, lowest, std, bit, free⟩ := lowest_candidate ok.1 some
  rw [lowest]
  exact ⟨std, std.masked.trans free, ok.2 n std bit⟩

/-- The compare-and-swap takes the post that is pending off the queue. -/
theorem Inv.swapped (inv : Inv s) (free : s.handlers = [])
    (take : s.take = .swap r (s.pendingSignals 0) n selected) :
    Inv { s.clear (s.pendingSignals 0) n with
      take := .give r n selected (s.pendingInformation (n - 1)) } := by
  have ok := inv.take
  simp only [TakeOk, take] at ok
  obtain ⟨std, unmasked, bit, copied⟩ := ok
  generalize ht : { s.clear (s.pendingSignals 0) n with
      take := .give r n selected (s.pendingInformation (n - 1)) } = t
  have pending : ∀ m, 1 ≤ m → t.pending m = (s.pending m && !decide (m = n)) :=
    fun m hm => ht ▸ pending_clear s std hm
  have before := inFlight_empty (s := s) (take ▸ trivial)
  have after : ∀ m, t.inFlight m = if n = m then [s.pendingInformation (n - 1)] else [] :=
    fun m => ht ▸ rfl
  refine inv.taken (m := n) (ht ▸ free) (fun m ne => ⟨?_, ?_⟩) ?_ (fun _ => ?_)
    (fun rt => absurd rt std.not_realtime) ?_ (ht ▸ inv.events)
  · refine ⟨fun hm => ?_, fun _ => ht ▸ rfl, fun _ => ht ▸ rfl, fun _ => ht ▸ rfl,
      fun _ => ht ▸ rfl⟩
    simp [pending m hm, ne]
  · refine ⟨ht ▸ rfl, ht ▸ rfl, ht ▸ rfl, ?_⟩
    rw [after, before, if_neg (Ne.symm ne)]
  · rw [← ht]
    exact ⟨unmasked, fun _ => copied⟩
  · have exact := inv.standard n std
    have made : t.made n = s.made n := ht ▸ rfl
    have returned : t.returned n = s.returned n := ht ▸ rfl
    unfold StandardOk at exact ⊢
    rw [made, returned, exact, before, after, pending n std.1]
    simp [bit]
  · simp [pending firstRealtimeSignal (by decide), inv.top]

/-- Storing the head takes the first waiting information off the ring. -/
theorem Inv.advanced {head : Int} (inv : Inv s) (few : (s.accepted n).length < 2 ^ 31)
    (free : s.handlers = []) (take : s.take = .advance r n head selected) :
    Inv { s.storeHead (index n) (wrap (head + 1)) with
      take := .give r n selected (s.realtimeInformation (index n) (slotOf head)) } := by
  have ok := inv.take
  simp only [TakeOk, take] at ok
  obtain ⟨rt, unmasked, read, some, copied⟩ := ok
  obtain ⟨waiting, split, count, tail, ring⟩ := inv.realtime n rt
  have before := inFlight_empty (s := s) (take ▸ trivial)
  have gone : s.gone n = (s.returned n).length := by simp [Thread.gone, before]
  rw [before, List.append_nil] at split
  have length : (s.accepted n).length = s.gone n + waiting.length := by
    rw [split, List.length_append, gone]
  cases waiting with
  | nil =>
    rw [read, count, tail, length] at some
    exact absurd rfl some
  | cons x rest =>
    have first : s.realtimeInformation (index n) (slotOf head) = x := by
      rw [read, count, slotOf_natCast]
      exact ring.first
    have next : wrap (head + 1) = (s.gone n + 1 : Nat) := by
      rw [List.length_cons] at length
      rw [read, count, wrap_eq (by omega) (by omega)]
      rfl
    rw [first, next]
    generalize ht : { s.storeHead (index n) (s.gone n + 1 : Nat) with
        take := .give r n selected x } = t
    have after : ∀ m, t.inFlight m = if n = m then [x] else [] := fun m => ht ▸ rfl
    have accepted : t.accepted n = s.accepted n := ht ▸ rfl
    have returned : t.returned n = s.returned n := ht ▸ rfl
    have gone' : t.gone n = s.gone n + 1 := by
      rw [Thread.gone, after, if_pos rfl, returned, gone, List.length_append,
        List.length_singleton]
    refine inv.taken (m := n) (ht ▸ free) (fun m ne => ⟨?_, ?_⟩) ?_
      (fun std => absurd rt std.not_realtime) (fun _ => ?_) (ht ▸ inv.top) (ht ▸ inv.events)
    · refine ⟨fun _ => ht ▸ rfl, fun _ => ht ▸ rfl, fun rt' => ?_, fun _ => ht ▸ rfl,
        fun _ => ht ▸ rfl⟩
      rw [← ht]
      exact Function.update_of_ne (index_ne rt rt' ne) _ _
    · refine ⟨ht ▸ rfl, ht ▸ rfl, ht ▸ rfl, ?_⟩
      rw [after, before, if_neg (Ne.symm ne)]
    · rw [← ht]
      exact ⟨unmasked, fun asked => (copied asked).trans first⟩
    · refine ⟨rest, ?_, ?_, ?_, ?_⟩
      · rw [accepted, returned, after, if_pos rfl, split, List.append_assoc,
          List.singleton_append]
      · rw [gone', ← ht]
        exact Function.update_self _ _ _
      · rw [accepted, ← ht]
        exact tail
      · rw [gone', ← ht]
        exact ring.pop

/-- The return hands over what was on its way. -/
theorem Inv.given {taken : Siginfo size} (inv : Inv s) (take : s.take = .give r n selected taken)
    (results : Results size)
    (information : results.information = if r.information then some selected else none) :
    Inv ({ s with take := .idle }.log (.returned r n results taken (s.masked n))) := by
  have ok := inv.take
  simp only [TakeOk, take] at ok
  obtain ⟨unmasked, copied⟩ := ok
  generalize ht : { s with take := .idle }.log (.returned r n results taken (s.masked n)) = t
  have history : t.history = s.history ++ [.returned r n results taken (s.masked n)] := ht ▸ rfl
  have before : ∀ m, s.inFlight m = if n = m then [taken] else [] :=
    fun m => by simp only [Thread.inFlight, take]
  have after : ∀ m, t.inFlight m = [] := fun m => ht ▸ rfl
  -- what was in flight is now returned
  have passed : ∀ m, t.returned m ++ t.inFlight m = s.returned m ++ s.inFlight m := by
    intro m
    rw [after, before, returned_concat history, List.append_nil]
    by_cases e : n = m <;> simp [Event.returns, e]
  have made : ∀ m, t.made m = s.made m := fun m => by simp [made_concat history, Event.makes]
  have accepted : ∀ m, t.accepted m = s.accepted m :=
    fun m => by simp [accepted_concat history, Event.accepts]
  refine ⟨ht ▸ inv.distinct, ht ▸ inv.posts, ht ▸ trivial, ?_, ?_, ht ▸ inv.top,
    events_concat history inv.events ⟨unmasked, ?_⟩⟩
  · intro m std
    have exact := inv.standard m std
    unfold StandardOk at exact ⊢
    rw [made, passed, exact, ← ht]
    rfl
  · intro m rt
    have exact := inv.realtime m rt
    unfold RealtimeOk Thread.gone at exact ⊢
    rw [accepted, passed, ← ht]
    exact exact
  · rw [information]
    cases asked : r.information with
    | true => simp [copied asked]
    | false => rfl

theorem stepTake_inv (inv : Inv s) (few : ∀ n, (s.accepted n).length < 2 ^ 31)
    (free : s.handlers = []) : Inv (stepTake s) := by
  have ok := inv.take
  unfold stepTake
  cases take : s.take with
  | idle => exact inv
  | load r =>
    refine inv.walked free (take ▸ trivial) trivial ⟨inv.top, ?_⟩
    intro n std bit
    have word : signalWord n = 0 := by
      have := std.2
      unfold signalWord
      omega
    have mod : (n - 1) % 32 = n - 1 := by
      have := std.2
      omega
    show s.pending n = true
    rw [Thread.pending, word, mod]
    exact bit
  | choose r old =>
    by_cases none : old &&& ~~~ s.signalMask 0 = 0
    · simp only [if_pos none]
      exact inv.walked free (take ▸ trivial) trivial (le_refl _)
    · simp only [if_neg none]
      obtain ⟨std, unmasked, bit⟩ := choose_ok ok take none
      exact inv.walked free (take ▸ trivial) trivial ⟨std, unmasked, bit, Copied.zero _ _⟩
  | copy r old n k selected =>
    simp only [TakeOk, take] at ok
    obtain ⟨std, unmasked, bit, copied⟩ := ok
    by_cases lt : k < size
    · simp only [dif_pos lt]
      exact inv.walked free (take ▸ trivial) trivial ⟨std, unmasked, bit, copied.word lt⟩
    · simp only [dif_neg lt]
      exact inv.walked free (take ▸ trivial) trivial ⟨std, unmasked, bit, copied.done lt⟩
  | swap r old n selected =>
    by_cases same : s.pendingSignals 0 = old
    · simp only [if_pos same]
      subst same
      exact inv.swapped free take
    · simp only [if_neg same]
      exact inv.walked free (take ▸ trivial) trivial trivial
  | scan r n =>
    simp only [TakeOk, take] at ok
    by_cases past : lastRealtimeSignal < n
    · simp only [if_pos past]
      have idle : Inv { s with take := .idle } := inv.walked free (take ▸ trivial) trivial trivial
      exact idle.logged (fun _ => rfl) (fun _ => rfl) (fun _ => rfl) trivial
    · simp only [if_neg past]
      cases masked : s.masked n with
      | true =>
        exact inv.walked free (take ▸ trivial) trivial (Nat.le_succ_of_le ok)
      | false =>
        exact inv.walked free (take ▸ trivial) trivial ⟨⟨ok, Nat.le_of_not_lt past⟩, masked⟩
  | head r n =>
    simp only [TakeOk, take] at ok
    exact inv.walked free (take ▸ trivial) trivial ⟨ok.1, ok.2, rfl⟩
  | tail r n head =>
    simp only [TakeOk, take] at ok
    by_cases empty : head = s.realtimeTail (index n)
    · simp only [if_pos empty]
      exact inv.walked free (take ▸ trivial) trivial (Nat.le_succ_of_le ok.1.1)
    · simp only [if_neg empty]
      exact inv.walked free (take ▸ trivial) trivial
        ⟨ok.1, ok.2.1, ok.2.2, empty, fun _ => Copied.zero _ _⟩
  | read r n head k selected =>
    simp only [TakeOk, take] at ok
    obtain ⟨rt, unmasked, read, some, copied⟩ := ok
    by_cases lt : r.information ∧ k < size
    · simp only [dif_pos lt]
      exact inv.walked free (take ▸ trivial) trivial
        ⟨rt, unmasked, read, some, fun asked => (copied asked).word lt.2⟩
    · simp only [dif_neg lt]
      exact inv.walked free (take ▸ trivial) trivial
        ⟨rt, unmasked, read, some, fun asked => (copied asked).done fun h => lt ⟨asked, h⟩⟩
  | advance r n head selected => exact inv.advanced (few n) free take
  | give r n selected taken => exact inv.given take _ rfl

end Linuxemu.Pending
