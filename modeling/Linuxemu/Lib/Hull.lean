import Mathlib.Data.Nat.Find
import Mathlib.Order.MinMax
import Mathlib.Tactic.Push

/-! Half-open spans of numbers and their hull. A hull holds no more than its spans exactly
when they leave no gap. -/
namespace Linuxemu.Lib

structure Span where
  start : Nat
  stop : Nat
  deriving DecidableEq, Repr

def Span.Has (s : Span) (x : Nat) : Prop := s.start ≤ x ∧ x < s.stop

/-- The least span that holds them all. -/
structure Hull (spans : List Span) (h : Span) : Prop where
  start : ∃ s ∈ spans, s.start = h.start
  least : ∀ s ∈ spans, h.start ≤ s.start
  stop : ∃ s ∈ spans, s.stop = h.stop
  most : ∀ s ∈ spans, s.stop ≤ h.stop

/-- Every span but the lowest is reached by one that starts below it. -/
def Gapless (spans : List Span) : Prop :=
  ∀ s ∈ spans, (∀ q ∈ spans, s.start ≤ q.start) ∨ ∃ q ∈ spans, q.start < s.start ∧ s.start ≤ q.stop

instance (spans : List Span) : Decidable (Gapless spans) :=
  inferInstanceAs (Decidable (∀ s ∈ spans, _ ∨ _))

namespace Hull

theorem single (s : Span) : Hull [s] s := by
  constructor <;> simp

/-- A further span moves the ends of the hull outwards, if at all. -/
theorem cons {spans : List Span} {h : Span} (hull : Hull spans h) (s : Span) :
    Hull (s :: spans) ⟨min s.start h.start, max s.stop h.stop⟩ := by
  obtain ⟨a, memberA, startA⟩ := hull.start
  obtain ⟨b, memberB, stopB⟩ := hull.stop
  constructor
  · obtain here | there := min_choice s.start h.start
    · exact ⟨s, List.mem_cons_self, here.symm⟩
    · exact ⟨a, List.mem_cons_of_mem s memberA, startA.trans there.symm⟩
  · intro q member
    obtain rfl | member := List.mem_cons.mp member
    · exact min_le_left _ _
    · exact (min_le_right _ _).trans (hull.least q member)
  · obtain here | there := max_choice s.stop h.stop
    · exact ⟨s, List.mem_cons_self, here.symm⟩
    · exact ⟨b, List.mem_cons_of_mem s memberB, stopB.trans there.symm⟩
  · intro q member
    obtain rfl | member := List.mem_cons.mp member
    · exact le_max_left _ _
    · exact (hull.most q member).trans (le_max_right _ _)

variable {spans : List Span} {h : Span}

/-- Above `x` there is a span that starts lowest. -/
theorem lowest_above {x : Nat} (above : ∃ s ∈ spans, x < s.start) :
    ∃ s ∈ spans, x < s.start ∧ ∀ q ∈ spans, x < q.start → s.start ≤ q.start := by
  classical
  obtain ⟨t, known, high⟩ := above
  have starts : ∃ n, x < n ∧ ∃ s ∈ spans, s.start = n := ⟨t.start, high, t, known, rfl⟩
  obtain ⟨above, s, member, start⟩ := Nat.find_spec starts
  refine ⟨s, member, start ▸ above, fun q there later => ?_⟩
  rw [start]
  exact Nat.find_min' starts ⟨later, q, there, rfl⟩

/-- The hull of spans holds what they hold, and nothing else, when they are gapless. -/
theorem has_iff (hull : Hull spans h) (gapless : Gapless spans) (x : Nat) :
    h.Has x ↔ ∃ s ∈ spans, s.Has x := by
  constructor
  · rintro ⟨low, high⟩
    obtain ⟨top, member, stop⟩ := hull.stop
    by_cases covered : top.start ≤ x
    · exact ⟨top, member, covered, stop ▸ high⟩
    -- the lowest span above `x` is reached from one that starts by `x`
    · obtain ⟨s, known, above, lowest⟩ := lowest_above ⟨top, member, Nat.lt_of_not_le covered⟩
      obtain least | ⟨q, there, below, reaches⟩ := gapless s known
      · obtain ⟨first, firstMember, start⟩ := hull.start
        have := least first firstMember
        omega
      · refine ⟨q, there, ?_, by omega⟩
        by_contra late
        have := lowest q there (Nat.lt_of_not_le late)
        omega
  · rintro ⟨s, member, low, high⟩
    exact ⟨(hull.least s member).trans low, Nat.lt_of_lt_of_le high (hull.most s member)⟩

theorem exact_iff (hull : Hull spans h) (full : ∀ s ∈ spans, s.start < s.stop) :
    (∀ x, h.Has x ↔ ∃ s ∈ spans, s.Has x) ↔ Gapless spans := by
  refine ⟨fun exactly s member => ?_, hull.has_iff⟩
  by_cases least : ∀ q ∈ spans, s.start ≤ q.start
  · exact .inl least
  · right
    push Not at least
    obtain ⟨lower, known, below⟩ := least
    -- the number before a span that is not the lowest lies in the hull
    have inside : h.Has (s.start - 1) := by
      have := hull.least lower known
      have := hull.most s member
      have := full s member
      exact ⟨by omega, by omega⟩
    obtain ⟨q, there, low, high⟩ := (exactly _).mp inside
    exact ⟨q, there, by omega, by omega⟩

end Hull

end Linuxemu.Lib
