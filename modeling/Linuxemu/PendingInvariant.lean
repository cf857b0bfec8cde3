import Linuxemu.Pending

/-! What the pending-signal queues keep true between any two steps. -/
namespace Linuxemu.Pending
open Lib
variable {size : Nat}
variable {n m : Nat} {s t : Thread size}

def IsStandard (n : Nat) : Prop := 1 ≤ n ∧ n ≤ 31

def IsRealtime (n : Nat) : Prop := firstRealtimeSignal ≤ n ∧ n ≤ lastRealtimeSignal

theorem IsRealtime.bounds (h : IsRealtime n) : 32 ≤ n ∧ n ≤ 47 := h

theorem IsStandard.not_realtime (h : IsStandard n) : ¬ IsRealtime n := by
  intro rt
  have := rt.bounds
  have := h.2
  omega

/-! ## Bits and counts -/

theorem getLsbD_signalBit (n i : Nat) :
    (signalBit n).getLsbD i = decide (i = (n - 1) % 32) := by
  rw [signalBit, ← BitVec.twoPow_eq, BitVec.getLsbD_twoPow]
  have : (n - 1) % 32 < 32 := Nat.mod_lt _ (by decide)
  simp [this, eq_comm]

theorem and_signalBit (word : BitVec 32) (n : Nat) :
    word &&& signalBit n = 0 ↔ word.getLsbD ((n - 1) % 32) = false := by
  constructor
  · intro h
    have bit := congrArg (fun v => v.getLsbD ((n - 1) % 32)) h
    simpa [BitVec.getLsbD_and, getLsbD_signalBit] using bit
  · intro h
    apply BitVec.eq_of_getLsbD_eq
    intro i _
    rw [BitVec.getLsbD_and, getLsbD_signalBit]
    by_cases e : i = (n - 1) % 32
    · simp [e, h]
    · simp [e]

theorem wrap_eq {x : Int} (low : 0 ≤ x) (high : x < 2 ^ 31) : wrap x = x := by
  unfold wrap
  omega

theorem slotOf_natCast (m : Nat) : slotOf m = m % realtimeQueueLength := by
  rw [slotOf, ← Int.ofNat_tmod, Int.toNat_natCast]

theorem index_ne (hm : IsRealtime m) (hn : IsRealtime n) (ne : n ≠ m) :
    index n ≠ index m := by
  have := hm.bounds
  have := hn.bounds
  unfold index firstRealtimeSignal
  omega

/-- Two signals with one word and one bit are one signal. -/
theorem signal_ext (hm : 1 ≤ m) (hn : 1 ≤ n) (word : signalWord n = signalWord m)
    (bit : (n - 1) % 32 = (m - 1) % 32) : n = m := by
  unfold signalWord at word
  omega

theorem pending_raise (s : Thread size) (hm : 1 ≤ m) (hn : 1 ≤ n) :
    (s.raise m).pending n = (s.pending n || decide (n = m)) := by
  unfold Thread.pending Thread.raise
  by_cases word : signalWord n = signalWord m
  · have same : (n - 1) % 32 = (m - 1) % 32 ↔ n = m :=
      ⟨signal_ext hm hn word, fun e => by rw [e]⟩
    simp only [word, Function.update_self, BitVec.getLsbD_or, getLsbD_signalBit, same]
  · have ne : n ≠ m := fun e => word (by rw [e])
    simp [Function.update_of_ne word, ne]

theorem pending_clear (s : Thread size) (std : IsStandard m) (hn : 1 ≤ n) :
    (s.clear (s.pendingSignals 0) m).pending n = (s.pending n && !decide (n = m)) := by
  have zero : signalWord m = 0 := by
    have := std.2
    unfold signalWord
    omega
  unfold Thread.pending Thread.clear
  by_cases word : signalWord n = 0
  · have same : (n - 1) % 32 = (m - 1) % 32 ↔ n = m :=
      ⟨signal_ext std.1 hn (word.trans zero.symm), fun e => by rw [e]⟩
    have lt : (n - 1) % 32 < 32 := Nat.mod_lt _ (by decide)
    simp only [word, Function.update_self, BitVec.getLsbD_and, BitVec.getLsbD_not,
      getLsbD_signalBit, same, lt, decide_true, Bool.true_and]
  · have ne : n ≠ m := fun e => word (e ▸ zero)
    simp [Function.update_of_ne word, ne]

/-! ## The invariant -/

section
variable (s : Thread size)

/-- What a handler in progress knows about its own signal. -/
def PostOk (p : Post size) : Prop :=
  match p.stage with
  | .start | .wake => True
  | .tailRead tail => IsRealtime p.signal ∧ tail = s.realtimeTail (index p.signal)
  | .fill tail k =>
    IsRealtime p.signal ∧ tail = s.realtimeTail (index p.signal) ∧
      tail - s.realtimeHead (index p.signal) < realtimeQueueLength ∧
      Copied (s.realtimeInformation (index p.signal) (slotOf tail)) p.info k
  | .publish tail =>
    IsRealtime p.signal ∧ tail = s.realtimeTail (index p.signal) ∧
      tail - s.realtimeHead (index p.signal) < realtimeQueueLength ∧
      s.realtimeInformation (index p.signal) (slotOf tail) = p.info
  | .wordRead old =>
    ¬ IsRealtime p.signal ∧ 1 ≤ p.signal ∧ old.getLsbD ((p.signal - 1) % 32) = s.pending p.signal
  | .write k =>
    IsStandard p.signal ∧ s.pending p.signal = false ∧
      Copied (s.pendingInformation (p.signal - 1)) p.info k
  | .merge =>
    ¬ IsRealtime p.signal ∧ 1 ≤ p.signal ∧
      (IsStandard p.signal → s.pending p.signal = false →
        s.pendingInformation (p.signal - 1) = p.info)

/-- What the take in progress knows. -/
def TakeOk : Prop :=
  match s.take with
  | .idle | .load _ => True
  | .choose _ old =>
    old.getLsbD 31 = false ∧
      ∀ n, IsStandard n → old.getLsbD (n - 1) = true → s.pending n = true
  | .copy _ _ n k selected =>
    IsStandard n ∧ s.masked n = false ∧ s.pending n = true ∧
      Copied selected (s.pendingInformation (n - 1)) k
  | .swap _ _ n selected =>
    IsStandard n ∧ s.masked n = false ∧ s.pending n = true ∧
      selected = s.pendingInformation (n - 1)
  | .scan _ n => firstRealtimeSignal ≤ n
  | .head _ n => IsRealtime n ∧ s.masked n = false
  | .tail _ n head => IsRealtime n ∧ s.masked n = false ∧ head = s.realtimeHead (index n)
  | .read r n head k selected =>
    IsRealtime n ∧ s.masked n = false ∧ head = s.realtimeHead (index n) ∧
      head ≠ s.realtimeTail (index n) ∧
      (r.information = true →
        Copied selected (s.realtimeInformation (index n) (slotOf head)) k)
  | .advance r n head selected =>
    IsRealtime n ∧ s.masked n = false ∧ head = s.realtimeHead (index n) ∧
      head ≠ s.realtimeTail (index n) ∧
      (r.information = true → selected = s.realtimeInformation (index n) (slotOf head))
  | .give r n selected taken =>
    s.masked n = false ∧ (r.information = true → selected = taken)

/-- Every post that made `n` pending was returned, is on its way or is pending. -/
def StandardOk (n : Nat) : Prop :=
  s.made n = s.returned n ++ s.inFlight n ++
    if s.pending n then [s.pendingInformation (n - 1)] else []

/-- How many informations of `n` were taken off its ring. -/
def Thread.gone (n : Nat) : Nat := (s.returned n ++ s.inFlight n).length

def RealtimeOk (n : Nat) : Prop :=
  ∃ waiting, s.accepted n = s.returned n ++ s.inFlight n ++ waiting ∧
    s.realtimeHead (index n) = s.gone n ∧
    s.realtimeTail (index n) = (s.accepted n).length ∧
    Ring.Holds (s.realtimeInformation (index n)) realtimeQueueLength (s.gone n) waiting

def EventOk : Event size → Prop
  | .refused _ outstanding => outstanding = realtimeQueueLength
  | .returned r _ results taken masked =>
    masked = false ∧ results.information = if r.information then some taken else none
  | _ => True

structure Inv : Prop where
  distinct : (s.handlers.map Post.signal).Nodup
  posts : ∀ p ∈ s.handlers, PostOk s p
  take : TakeOk s
  standard : ∀ n, IsStandard n → StandardOk s n
  realtime : ∀ n, IsRealtime n → RealtimeOk s n
  top : s.pending firstRealtimeSignal = false
  events : ∀ e ∈ s.history, EventOk e

end

/-! ## What a step leaves alone -/

/-- Nothing about signal `n` changed. -/
structure SameAt (s t : Thread size) (n : Nat) : Prop where
  pending : 1 ≤ n → t.pending n = s.pending n
  information : IsStandard n → t.pendingInformation (n - 1) = s.pendingInformation (n - 1)
  head : IsRealtime n → t.realtimeHead (index n) = s.realtimeHead (index n)
  tail : IsRealtime n → t.realtimeTail (index n) = s.realtimeTail (index n)
  ring : IsRealtime n → t.realtimeInformation (index n) = s.realtimeInformation (index n)

structure SameLists (s t : Thread size) (n : Nat) : Prop where
  made : t.made n = s.made n
  accepted : t.accepted n = s.accepted n
  returned : t.returned n = s.returned n
  inFlight : t.inFlight n = s.inFlight n

theorem PostOk.same {p : Post size} (h : PostOk s p) (same : SameAt s t p.signal) : PostOk t p := by
  obtain ⟨pending, information, head, tail, ring⟩ := same
  unfold PostOk at h ⊢
  split at h
  · trivial
  · trivial
  · obtain ⟨rt, rfl⟩ := h
    exact ⟨rt, (tail rt).symm⟩
  · obtain ⟨rt, rfl, room, copied⟩ := h
    rw [tail rt, head rt, ring rt]
    exact ⟨rt, rfl, room, copied⟩
  · obtain ⟨rt, rfl, room, copied⟩ := h
    rw [tail rt, head rt, ring rt]
    exact ⟨rt, rfl, room, copied⟩
  · obtain ⟨rt, pos, old⟩ := h
    exact ⟨rt, pos, old.trans (pending pos).symm⟩
  · obtain ⟨std, clear, copied⟩ := h
    exact ⟨std, (pending std.1).trans clear, (information std).symm ▸ copied⟩
  · obtain ⟨rt, pos, written⟩ := h
    refine ⟨rt, pos, fun std clear => ?_⟩
    rw [information std]
    exact written std ((pending pos).symm.trans clear)

theorem StandardOk.same (h : StandardOk s n) (std : IsStandard n) (same : SameAt s t n)
    (lists : SameLists s t n) : StandardOk t n := by
  unfold StandardOk
  rw [lists.made, lists.returned, lists.inFlight, same.pending std.1, same.information std]
  exact h

theorem RealtimeOk.same (h : RealtimeOk s n) (rt : IsRealtime n) (same : SameAt s t n)
    (lists : SameLists s t n) : RealtimeOk t n := by
  unfold RealtimeOk Thread.gone
  rw [lists.accepted, lists.returned, lists.inFlight, same.head rt, same.tail rt, same.ring rt]
  exact h

/-- What a handler leaves to the take it interrupts. -/
structure Stable (s t : Thread size) : Prop where
  take : t.take = s.take
  mask : t.signalMask = s.signalMask
  head : t.realtimeHead = s.realtimeHead
  pending : ∀ n, IsStandard n → s.pending n = true →
    t.pending n = true ∧ t.pendingInformation (n - 1) = s.pendingInformation (n - 1)
  waiting : ∀ n, IsRealtime n → s.realtimeHead (index n) ≠ s.realtimeTail (index n) →
    s.realtimeHead (index n) ≠ t.realtimeTail (index n) ∧
    t.realtimeInformation (index n) (slotOf (s.realtimeHead (index n))) =
      s.realtimeInformation (index n) (slotOf (s.realtimeHead (index n)))

theorem TakeOk.stable (h : TakeOk s) (stable : Stable s t) : TakeOk t := by
  obtain ⟨take, mask, head, pending, waiting⟩ := stable
  have masked : ∀ n, t.masked n = s.masked n := fun n => by unfold Thread.masked; rw [mask]
  unfold TakeOk at h ⊢
  rw [take]
  split at h
  · trivial
  · trivial
  · exact ⟨h.1, fun n std bit => (pending n std (h.2 n std bit)).1⟩
  · rename_i n k selected _
    obtain ⟨std, free, bit, copied⟩ := h
    obtain ⟨bit', same⟩ := pending n std bit
    exact ⟨std, (masked n).trans free, bit', same.symm ▸ copied⟩
  · rename_i n selected _
    obtain ⟨std, free, bit, copied⟩ := h
    obtain ⟨bit', same⟩ := pending n std bit
    exact ⟨std, (masked n).trans free, bit', same.symm ▸ copied⟩
  · exact h
  · exact ⟨h.1, (masked _).trans h.2⟩
  · rw [head]
    exact ⟨h.1, (masked _).trans h.2.1, h.2.2⟩
  · rename_i r n _ k selected _
    obtain ⟨rt, free, rfl, some, copied⟩ := h
    obtain ⟨some', same⟩ := waiting n rt some
    rw [head, same]
    exact ⟨rt, (masked n).trans free, rfl, some', copied⟩
  · rename_i r n _ selected _
    obtain ⟨rt, free, rfl, some, copied⟩ := h
    obtain ⟨some', same⟩ := waiting n rt some
    rw [head, same]
    exact ⟨rt, (masked n).trans free, rfl, some', copied⟩
  · exact ⟨(masked _).trans h.1, h.2⟩

end Linuxemu.Pending
