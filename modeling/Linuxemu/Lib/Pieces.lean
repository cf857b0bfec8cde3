import Mathlib.Data.List.Chain
import Mathlib.Data.List.Pairwise
import Linuxemu.Lib.Cells

/-! Finite maps from numbers to flags, kept as a list of half-open pieces. The
map is what `flagAt` reads; carving a range out, sorting and joining neighbours
are compared with it. -/
namespace Linuxemu.Lib

structure Piece (β : Type) where
  start : Nat
  stop : Nat
  flag : β
  deriving DecidableEq, Repr

namespace Piece
variable {β : Type}
variable {ps qs kept rest : List (Piece β)} {p q : Piece β} {s e x : Nat} {f : β}

def Covers (p : Piece β) (x : Nat) : Prop := p.start ≤ x ∧ x < p.stop

instance (p : Piece β) (x : Nat) : Decidable (p.Covers x) :=
  inferInstanceAs (Decidable (p.start ≤ x ∧ x < p.stop))

/-- The flag of the first piece that covers `x`. -/
def flagAt (ps : List (Piece β)) (x : Nat) : Option β :=
  (ps.find? (fun p => decide (p.Covers x))).map Piece.flag

def Beside (p q : Piece β) : Prop := p.stop ≤ q.start ∨ q.stop ≤ p.start

/-- Pieces in any order, none empty, no two with a common number. -/
structure Apart (ps : List (Piece β)) : Prop where
  full : ∀ p ∈ ps, p.start < p.stop
  apart : ps.Pairwise Beside

theorem flagAt_eq_none :
    flagAt ps x = none ↔ ∀ p ∈ ps, ¬ p.Covers x := by
  simp [flagAt, List.find?_eq_none]

theorem flagAt_mem (h : flagAt ps x = some f) :
    ∃ p ∈ ps, p.Covers x ∧ p.flag = f := by
  obtain ⟨p, found, rfl⟩ := Option.map_eq_some_iff.mp h
  exact ⟨p, List.mem_of_find?_eq_some found, by simpa using List.find?_some found, rfl⟩

theorem Apart.tail (h : Apart (p :: ps)) : Apart ps :=
  ⟨fun q hq => h.full q (List.mem_cons_of_mem p hq), (List.pairwise_cons.mp h.apart).2⟩

theorem Apart.flagAt_eq_some (h : Apart ps) :
    flagAt ps x = some f ↔ ∃ p ∈ ps, p.Covers x ∧ p.flag = f := by
  refine ⟨flagAt_mem, ?_⟩
  rintro ⟨p, hp, px, rfl⟩
  induction ps with
  | nil => cases hp
  | cons q qs ih =>
    obtain ⟨beside, _⟩ := List.pairwise_cons.mp h.apart
    by_cases qx : q.Covers x
    · rcases List.mem_cons.mp hp with rfl | hp
      · simp [flagAt, qx]
      · have := beside p hp
        simp only [Beside, Covers] at this px qx
        omega
    · rcases List.mem_cons.mp hp with rfl | hp
      · exact absurd px qx
      · have := ih h.tail hp
        simpa [flagAt, List.find?_cons, qx] using this

theorem Apart.beside (h : Apart ps) (hp : p ∈ ps) (hq : q ∈ ps) (ne : p ≠ q) : p.Beside q := by
  have : Std.Symm (Beside (β := β)) := ⟨fun _ _ => Or.symm⟩
  exact h.apart.forall hp hq ne

/-- Two lists that cover the same numbers with the same flags are one map. -/
theorem Apart.flagAt_congr (hp : Apart ps) (hq : Apart qs)
    (same : ∀ f, (∃ p ∈ ps, p.Covers x ∧ p.flag = f) ↔ ∃ q ∈ qs, q.Covers x ∧ q.flag = f) :
    flagAt ps x = flagAt qs x := by
  apply Option.ext
  intro f
  rw [hp.flagAt_eq_some, hq.flagAt_eq_some]
  exact same f

theorem Apart.perm (h : Apart ps) (perm : ps.Perm qs) : Apart qs := by
  refine ⟨fun p hp => h.full p (perm.mem_iff.mpr hp), perm.pairwise h.apart ?_⟩
  intro p q beside
  exact beside.symm

theorem Apart.flagAt_perm (h : Apart ps) (perm : ps.Perm qs) (x : Nat) :
    flagAt qs x = flagAt ps x := by
  apply (h.perm perm).flagAt_congr h
  intro f
  simp only [perm.mem_iff]

/-! ## Taking a range out -/

/-- What is left of `p` outside `[s, e)`. -/
def carve (s e : Nat) (p : Piece β) : List (Piece β) :=
  if s < p.stop ∧ p.start < e then
    (if p.start < s then [⟨p.start, s, p.flag⟩] else []) ++
    (if e < p.stop then [⟨e, p.stop, p.flag⟩] else [])
  else [p]

theorem mem_carve (full : p.start < p.stop) (h : q ∈ carve s e p) :
    q.start < q.stop ∧ p.start ≤ q.start ∧ q.stop ≤ p.stop ∧ q.flag = p.flag ∧
      (q.stop ≤ s ∨ e ≤ q.start) := by
  unfold carve at h
  split at h
  · rcases List.mem_append.mp h with h | h
    · split at h
      · obtain rfl := List.mem_singleton.mp h
        exact ⟨by assumption, Nat.le_refl _, by dsimp; omega, rfl, Or.inl (Nat.le_refl _)⟩
      · cases h
    · split at h
      · obtain rfl := List.mem_singleton.mp h
        exact ⟨by assumption, by dsimp; omega, Nat.le_refl _, rfl, Or.inr (Nat.le_refl _)⟩
      · cases h
  · obtain rfl := List.mem_singleton.mp h
    exact ⟨full, Nat.le_refl _, Nat.le_refl _, rfl, by omega⟩

theorem carve_covers (lt : s < e) (p : Piece β) (x : Nat) :
    (∃ q ∈ carve s e p, q.Covers x) ↔ p.Covers x ∧ ¬ (s ≤ x ∧ x < e) := by
  unfold carve Covers
  by_cases overlap : s < p.stop ∧ p.start < e
  · rw [if_pos overlap]
    by_cases low : p.start < s <;> by_cases high : e < p.stop <;> simp [low, high] <;> omega
  · rw [if_neg overlap]
    simp only [List.mem_singleton, exists_eq_left]
    omega

theorem carve_apart (lt : s < e) (p : Piece β) : (carve s e p).Pairwise Beside := by
  unfold carve
  split
  · split <;> split <;> simp [Beside]
    omega
  · exact List.pairwise_singleton _ _

def carveAll (s e : Nat) (ps : List (Piece β)) : List (Piece β) := ps.flatMap (carve s e)

theorem mem_carveAll :
    q ∈ carveAll s e ps ↔ ∃ p ∈ ps, q ∈ carve s e p := List.mem_flatMap

theorem Apart.carveAll (lt : s < e) (h : Apart ps) :
    Apart (carveAll s e ps) := by
  refine ⟨?_, List.pairwise_flatMap.mpr ⟨fun p _ => carve_apart lt p, ?_⟩⟩
  · intro q hq
    obtain ⟨p, hp, hq⟩ := mem_carveAll.mp hq
    exact (mem_carve (h.full p hp) hq).1
  · -- parts of two pieces stay within them
    apply h.apart.imp_of_mem
    intro p q hp hq beside a ha b hb
    have ia := mem_carve (h.full p hp) ha
    have ib := mem_carve (h.full q hq) hb
    simp only [Beside] at beside ⊢
    omega

theorem Apart.flagAt_carveAll (lt : s < e) (h : Apart ps) (x : Nat) :
    flagAt (Piece.carveAll s e ps) x = if s ≤ x ∧ x < e then none else flagAt ps x := by
  by_cases inside : s ≤ x ∧ x < e
  · rw [if_pos inside, flagAt_eq_none]
    intro q hq cover
    obtain ⟨p, hp, hq⟩ := mem_carveAll.mp hq
    have := (carve_covers lt p x).mp ⟨q, hq, cover⟩
    exact this.2 inside
  · rw [if_neg inside]
    apply (h.carveAll lt).flagAt_congr h
    intro f
    constructor
    · rintro ⟨q, hq, cover, rfl⟩
      obtain ⟨p, hp, hq⟩ := mem_carveAll.mp hq
      exact ⟨p, hp, ((carve_covers lt p x).mp ⟨q, hq, cover⟩).1,
        (mem_carve (h.full p hp) hq).2.2.2.1.symm⟩
    · rintro ⟨p, hp, cover, rfl⟩
      obtain ⟨q, hq, qx⟩ := (carve_covers lt p x).mpr ⟨cover, inside⟩
      exact ⟨q, mem_carveAll.mpr ⟨p, hp, hq⟩, qx, (mem_carve (h.full p hp) hq).2.2.2.1⟩

theorem carve_outside (outside : p.stop ≤ s ∨ e ≤ p.start) :
    carve s e p = [p] := by
  unfold carve
  rw [if_neg (by omega)]

theorem length_carve_le_two (s e : Nat) (p : Piece β) : (carve s e p).length ≤ 2 := by
  unfold carve
  split
  · split <;> split <;> simp
  · simp

theorem length_carve_around (lt : s < e) (around : p.start < s ∧ e < p.stop) :
    (carve s e p).length = 2 := by
  unfold carve
  rw [if_pos (by omega), if_pos around.1, if_pos around.2]
  rfl

theorem length_carve_le (around : ¬ (p.start < s ∧ e < p.stop)) :
    (carve s e p).length ≤ 1 := by
  unfold carve
  split
  · split <;> split <;> simp
    omega
  · simp

/-- A piece beside one that goes beyond the range on both sides is left as it is. -/
theorem carve_beside (beside : p.Beside q) (around : p.start < s ∧ e < p.stop) :
    carve s e q = [q] := by
  apply carve_outside
  simp only [Beside] at beside
  omega

theorem flatMap_carve_beside (beside : ∀ q ∈ ps, p.Beside q) (around : p.start < s ∧ e < p.stop) :
    ps.flatMap (carve s e) = ps := by
  conv_rhs => rw [← List.flatMap_singleton' ps]
  exact List.flatMap_congr fun q hq => carve_beside (beside q hq) around

/-- Only a piece around the whole range leaves two parts, and then no other
piece meets the range; so at most one piece is added. -/
theorem Apart.length_carveAll (h : Apart ps) :
    (Piece.carveAll s e ps).length ≤ ps.length + 1 := by
  induction ps with
  | nil => simp [Piece.carveAll]
  | cons p ps ih =>
    obtain ⟨beside, _⟩ := List.pairwise_cons.mp h.apart
    simp only [Piece.carveAll, List.flatMap_cons, List.length_append, List.length_cons]
    by_cases around : p.start < s ∧ e < p.stop
    · rw [flatMap_carve_beside beside around]
      have := length_carve_le_two s e p
      omega
    · have one := length_carve_le around
      have := ih h.tail
      simp only [Piece.carveAll] at this
      omega

/-- One piece more is left exactly when one goes beyond the range on both sides. -/
theorem Apart.length_lt_carveAll (lt : s < e) (h : Apart ps) :
    ps.length < (Piece.carveAll s e ps).length ↔ ∃ p ∈ ps, p.start < s ∧ e < p.stop := by
  induction ps with
  | nil => simp [Piece.carveAll]
  | cons p ps ih =>
    obtain ⟨beside, _⟩ := List.pairwise_cons.mp h.apart
    have later := ih h.tail
    simp only [Piece.carveAll, List.flatMap_cons, List.length_append, List.length_cons,
      List.mem_cons, exists_eq_or_imp] at later ⊢
    by_cases around : p.start < s ∧ e < p.stop
    · rw [flatMap_carve_beside beside around, length_carve_around lt around]
      exact iff_of_true (by omega) (.inl around)
    · constructor
      · intro longer
        have := length_carve_le around
        exact .inr (later.mp (by omega))
      · rintro (around' | ⟨q, hq, around'⟩)
        · exact absurd around' around
        · rw [carve_beside (beside q hq).symm around']
          have := later.mpr ⟨q, hq, around'⟩
          simp only [List.length_singleton]
          omega

theorem Apart.append_range (lt : s < e) (h : Apart ps) (f : β) :
    Apart (Piece.carveAll s e ps ++ [⟨s, e, f⟩]) := by
  have carved := h.carveAll lt
  refine ⟨?_, List.pairwise_append.mpr ⟨carved.apart, List.pairwise_singleton _ _, ?_⟩⟩
  · intro q hq
    rcases List.mem_append.mp hq with hq | hq
    · exact carved.full q hq
    · obtain rfl := List.mem_singleton.mp hq
      exact lt
  · intro q hq r hr
    obtain rfl := List.mem_singleton.mp hr
    obtain ⟨p, hp, hq⟩ := mem_carveAll.mp hq
    exact (mem_carve (h.full p hp) hq).2.2.2.2

theorem Apart.flagAt_append_range (lt : s < e) (h : Apart ps) (f : β) (x : Nat) :
    flagAt (Piece.carveAll s e ps ++ [⟨s, e, f⟩]) x =
      if s ≤ x ∧ x < e then some f else flagAt ps x := by
  have carved := h.flagAt_carveAll lt x
  simp only [flagAt, List.find?_append, Option.map_or] at carved ⊢
  rw [carved]
  by_cases inside : s ≤ x ∧ x < e
  · simp [inside, Covers]
  · simp [inside, Covers]

/-! ## Sorted pieces, and neighbours joined -/

def Sorted (ps : List (Piece β)) : Prop :=
  (∀ p ∈ ps, p.start < p.stop) ∧ ps.Pairwise (fun p q => p.stop ≤ q.start)

theorem Sorted.apart (h : Sorted ps) : Apart ps :=
  ⟨h.1, h.2.imp Or.inl⟩

theorem Apart.sorted (h : Apart ps) (order : Cells.Ordered Piece.start ps) : Sorted ps := by
  refine ⟨h.full, ?_⟩
  have both := h.apart.and order
  apply both.imp_of_mem
  intro p q hp hq rel
  have := h.full p hp
  have := h.full q hq
  simp only [Beside] at rel
  omega

/-- Order decides the list. -/
theorem Sorted.eq_of_perm (hp : Sorted ps) (hq : Sorted qs) (perm : ps.Perm qs) : ps = qs := by
  refine perm.eq_of_pairwise ?_ hp.2 hq.2
  intro p q hp' hq' before after
  have := hp.1 p hp'
  have := hq.1 q hq'
  omega

section Joining
variable [DecidableEq β]

def touches (p q : Piece β) : Bool := decide (p.stop = q.start) && decide (p.flag = q.flag)

def join (p q : Piece β) : Piece β := { p with stop := q.stop }

/-- Sorted, and no two neighbours could be one piece. -/
structure Canonical (ps : List (Piece β)) : Prop where
  sorted : Sorted ps
  split : ps.IsChain (fun p q => touches p q = false)

theorem Canonical.apart (h : Canonical ps) : Apart ps := h.sorted.apart

theorem canonical_nil : Canonical ([] : List (Piece β)) :=
  ⟨⟨by simp, List.Pairwise.nil⟩, List.IsChain.nil⟩

theorem touches_iff : touches p q = true ↔ p.stop = q.start ∧ p.flag = q.flag := by
  simp [touches]

theorem join_covers (touch : touches p q = true) (hp : p.start < p.stop) (hq : q.start < q.stop)
    (x : Nat) : (join p q).Covers x ↔ p.Covers x ∨ q.Covers x := by
  have := (touches_iff.mp touch).1
  simp only [join, Covers]
  omega

theorem join_sorted (touch : touches p q = true) (h : Sorted (kept ++ [p] ++ q :: rest)) :
    Sorted (kept ++ [join p q] ++ rest) := by
  obtain ⟨full, pairs⟩ := h
  have end_eq := (touches_iff.mp touch).1
  simp only [List.append_assoc, List.cons_append, List.nil_append, List.pairwise_append,
    List.pairwise_cons, List.mem_cons] at pairs ⊢
  obtain ⟨hk, ⟨hpq, hq, hr⟩, across⟩ := pairs
  have fp := full p (by simp)
  have fq := full q (by simp)
  constructor
  · intro r hr
    simp only [List.mem_append, List.mem_cons] at hr
    rcases hr with hr | rfl | hr
    · exact full r (by simp [hr])
    · simp only [join]; omega
    · exact full r (by simp [hr])
  · rw [List.pairwise_append, List.pairwise_cons]
    refine ⟨hk, ⟨hq, hr⟩, ?_⟩
    intro a ha b hb
    rcases List.mem_cons.mp hb with rfl | hb
    · exact across a ha p (Or.inl rfl)
    · exact across a ha b (Or.inr (Or.inr hb))

theorem join_flagAt (touch : touches p q = true) (h : Sorted (kept ++ [p] ++ q :: rest)) (x : Nat) :
    flagAt (kept ++ [join p q] ++ rest) x = flagAt (kept ++ [p] ++ q :: rest) x := by
  apply (join_sorted touch h).apart.flagAt_congr h.apart
  intro f
  have cover := join_covers touch (h.1 p (by simp)) (h.1 q (by simp)) x
  have flag := (touches_iff.mp touch).2
  have joined : (join p q).flag = p.flag := rfl
  simp only [List.mem_append, List.mem_cons, List.not_mem_nil, or_false, or_and_right,
    exists_or, exists_eq_left, cover, joined]
  rw [← flag]
  simp only [or_assoc]

/-- One item of the joining fold. `kept` is the canonical front; the items still
to be read stand behind it. -/
theorem mergeOnto_canonical (front : kept.IsChain (fun p q => touches p q = false))
    (sorted : Sorted (kept ++ p :: rest)) :
    (Cells.mergeOnto touches join kept p).IsChain (fun p q => touches p q = false) ∧
    Sorted (Cells.mergeOnto touches join kept p ++ rest) ∧
    ∀ x, flagAt (Cells.mergeOnto touches join kept p ++ rest) x =
      flagAt (kept ++ p :: rest) x := by
  rcases List.eq_nil_or_concat kept with rfl | ⟨kept, last, rfl⟩
  · exact ⟨List.IsChain.singleton _, by simpa [Cells.mergeOnto] using sorted,
      fun _ => by simp [Cells.mergeOnto]⟩
  · rw [List.concat_eq_append] at front sorted ⊢
    rw [Cells.mergeOnto_concat]
    by_cases touch : touches last p = true
    · rw [if_pos touch]
      refine ⟨?_, join_sorted touch sorted, join_flagAt touch sorted⟩
      -- joining keeps the start and the flag, all that the piece before looks at
      rw [List.isChain_append] at front ⊢
      refine ⟨front.1, List.IsChain.singleton _, ?_⟩
      intro a ha b hb
      obtain rfl : join last p = b := by simpa using hb
      exact front.2.2 a ha last (by simp)
    · rw [if_neg touch]
      refine ⟨?_, by simpa using sorted, fun x => by simp⟩
      rw [List.isChain_append]
      refine ⟨front, List.IsChain.singleton _, ?_⟩
      intro a ha b hb
      obtain rfl : last = a := by simpa using ha
      obtain rfl : p = b := by simpa using hb
      simpa using touch

def coalesce (ps : List (Piece β)) : List (Piece β) := ps.foldl (Cells.mergeOnto touches join) []

/-- The joining fold keeps the map and ends in canonical form. -/
theorem coalesce_spec (h : Sorted ps) :
    Canonical (coalesce ps) ∧ ∀ x, flagAt (coalesce ps) x = flagAt ps x := by
  have run : ∀ (rest kept : List (Piece β)), kept.IsChain (fun p q => touches p q = false) →
      Sorted (kept ++ rest) →
      Canonical (rest.foldl (Cells.mergeOnto touches join) kept) ∧
      ∀ x, flagAt (rest.foldl (Cells.mergeOnto touches join) kept) x = flagAt (kept ++ rest) x := by
    intro rest
    induction rest with
    | nil =>
      intro kept front sorted
      simp only [List.append_nil] at sorted ⊢
      exact ⟨⟨sorted, front⟩, fun _ => rfl⟩
    | cons p rest ih =>
      intro kept front sorted
      obtain ⟨front', sorted', same⟩ := mergeOnto_canonical front sorted
      obtain ⟨canonical, flags⟩ := ih _ front' sorted'
      exact ⟨canonical, fun x => (flags x).trans (same x)⟩
  exact run ps [] List.IsChain.nil (by simpa using h)

theorem coalesce_length_le (ps : List (Piece β)) : (coalesce ps).length ≤ ps.length := by
  have run (rest kept : List (Piece β)) :
      (rest.foldl (Cells.mergeOnto touches join) kept).length ≤ kept.length + rest.length := by
    induction rest generalizing kept with
    | nil => exact Nat.le_refl _
    | cons p rest ih =>
      have one : (Cells.mergeOnto touches join kept p).length ≤ kept.length + 1 := by
        rcases List.eq_nil_or_concat kept with rfl | ⟨kept, last, rfl⟩
        · simp [Cells.mergeOnto]
        · rw [List.concat_eq_append, Cells.mergeOnto_concat]
          split <;> simp
      have := ih (Cells.mergeOnto touches join kept p)
      simp only [List.foldl_cons, List.length_cons]
      omega
  simpa [coalesce] using run ps []

/-- No two neighbours to join: the fold changes nothing. -/
theorem coalesce_self (split : ps.IsChain (fun p q => touches p q = false)) : coalesce ps = ps := by
  have run (rest kept : List (Piece β))
      (split : (kept ++ rest).IsChain (fun p q => touches p q = false)) :
      rest.foldl (Cells.mergeOnto touches join) kept = kept ++ rest := by
    induction rest generalizing kept with
    | nil => simp
    | cons p rest ih =>
      have one : Cells.mergeOnto touches join kept p = kept ++ [p] := by
        rcases List.eq_nil_or_concat kept with rfl | ⟨kept, last, rfl⟩
        · rfl
        · rw [List.concat_eq_append] at split ⊢
          have apart : touches last p = false :=
            (List.isChain_append.mp split).2.2 last (by simp) p (by simp)
          rw [Cells.mergeOnto_concat, if_neg (by simp [apart])]
      rw [List.foldl_cons, one, ih (kept ++ [p]) (by simpa using split)]
      simp
  exact run ps [] split

/-- Pieces further apart than neighbours do not touch either. -/
theorem Canonical.pairwise (h : Canonical ps) :
    ps.Pairwise (fun p q => p.stop ≤ q.start ∧ touches p q = false) := by
  obtain ⟨⟨full, sorted⟩, split⟩ := h
  induction ps with
  | nil => exact .nil
  | cons p ps ih =>
    obtain ⟨first, rest⟩ := List.pairwise_cons.mp sorted
    refine List.pairwise_cons.mpr ⟨?_, ih split.tail
      (fun q hq => full q (List.mem_cons_of_mem p hq)) rest⟩
    intro q hq
    refine ⟨first q hq, ?_⟩
    cases ps with
    | nil => cases hq
    | cons next ps =>
      rcases List.mem_cons.mp hq with rfl | hq
      · exact (List.isChain_cons_cons.mp split).1
      · have near := first next List.mem_cons_self
        have between := (List.pairwise_cons.mp rest).1 q hq
        have := full next (by simp)
        simp only [touches, Bool.and_eq_false_iff, decide_eq_false_iff_not]
        left
        omega

/-- Pieces that meet have different flags. -/
theorem Canonical.flag_ne (h : Canonical ps) (hp : p ∈ ps) (hq : q ∈ ps) (meet : p.stop = q.start) :
    p.flag ≠ q.flag := by
  intro same
  have fp := h.apart.full p hp
  have fq := h.apart.full q hq
  have either : ps.Pairwise (fun p q => (p.stop ≤ q.start ∧ touches p q = false) ∨
      (q.stop ≤ p.start ∧ touches q p = false)) := h.pairwise.imp Or.inl
  have ne : p ≠ q := by
    rintro rfl
    omega
  have : Std.Symm (fun p q : Piece β => (p.stop ≤ q.start ∧ touches p q = false) ∨
      (q.stop ≤ p.start ∧ touches q p = false)) := ⟨fun _ _ => Or.symm⟩
  obtain ⟨-, apart⟩ | ⟨before, -⟩ := either.forall hp hq ne
  · rw [touches_iff.mpr ⟨meet, same⟩] at apart
    cases apart
  · omega

/-- In canonical form, numbers in a row with one flag lie in one piece. -/
theorem Canonical.one_piece (h : Canonical ps) {lo hi : Nat} (lt : lo < hi)
    (flags : ∀ x, lo ≤ x → x < hi → flagAt ps x = some f) :
    ∃ p ∈ ps, p.flag = f ∧ p.start ≤ lo ∧ hi ≤ p.stop := by
  obtain ⟨p, hp, covers, flag⟩ := flagAt_mem (flags lo (Nat.le_refl lo) lt)
  refine ⟨p, hp, flag, covers.1, ?_⟩
  by_contra short
  -- the piece at the end of `p` would have been joined to it
  obtain ⟨q, hq, next, same⟩ := flagAt_mem (flags p.stop (Nat.le_of_lt covers.2) (by omega))
  have ne : p ≠ q := by
    rintro rfl
    exact absurd next.2 (Nat.lt_irrefl _)
  have meet : p.stop = q.start := by
    obtain before | after := h.apart.beside hp hq ne
    · exact Nat.le_antisymm before next.1
    · have := h.apart.full p hp
      have := next.2
      omega
  exact h.flag_ne hp hq meet (flag.trans same.symm)

theorem Canonical.of_pairwise (full : ∀ p ∈ ps, p.start < p.stop)
    (pairs : ps.Pairwise (fun p q => p.stop ≤ q.start ∧ touches p q = false)) : Canonical ps :=
  ⟨⟨full, pairs.imp And.left⟩, (pairs.imp And.right).isChain⟩

/-- Taking a range out leaves nothing to join. -/
theorem Canonical.carveAll (lt : s < e) (h : Canonical ps) :
    Canonical (Piece.carveAll s e ps) := by
  refine .of_pairwise (h.apart.carveAll lt).full
    (List.pairwise_flatMap.mpr ⟨fun p _ => ?_, h.pairwise.imp_of_mem ?_⟩)
  · unfold carve
    split
    · split <;> split <;> simp [touches]
      omega
    · exact List.pairwise_singleton _ _
  · intro p q hp hq ⟨before, apart⟩ a ha b hb
    have ia := mem_carve (h.apart.full p hp) ha
    have ib := mem_carve (h.apart.full q hq) hb
    refine ⟨by omega, ?_⟩
    rw [← Bool.not_eq_true, touches_iff] at apart ⊢
    rintro ⟨stop, flag⟩
    exact apart ⟨by omega, by rw [← ia.2.2.2.1, flag, ib.2.2.2.1]⟩

/-- A canonical list is determined by the map it stands for. -/
theorem Canonical.eq_of_flagAt (hp : Canonical ps) (hq : Canonical qs)
    (same : ∀ x, flagAt ps x = flagAt qs x) : ps = qs := by
  -- the numbers of a piece lie in one piece of the other list
  have around {ps qs : List (Piece β)} (hp : Canonical ps) (hq : Canonical qs)
      (same : ∀ x, flagAt ps x = flagAt qs x) {p : Piece β} (member : p ∈ ps) :
      ∃ q ∈ qs, q.flag = p.flag ∧ q.start ≤ p.start ∧ p.stop ≤ q.stop := by
    refine hq.one_piece (hp.apart.full p member) fun x low high => ?_
    rw [← same]
    exact hp.apart.flagAt_eq_some.mpr ⟨p, member, ⟨low, high⟩, rfl⟩
  have inside {ps qs : List (Piece β)} (hp : Canonical ps) (hq : Canonical qs)
      (same : ∀ x, flagAt ps x = flagAt qs x) {p : Piece β} (member : p ∈ ps) : p ∈ qs := by
    obtain ⟨q, found, flag, low, high⟩ := around hp hq same member
    obtain ⟨p', back, -, low', high'⟩ := around hq hp (fun x => (same x).symm) found
    have full := hp.apart.full p member
    have one : p = p' := by
      by_contra other
      obtain before | after := hp.apart.beside member back other
      · omega
      · omega
    subst one
    have equal : q = p := by
      cases p
      cases q
      simp only [mk.injEq] at *
      exact ⟨by omega, by omega, flag⟩
    exact equal ▸ found
  have distinct {ps : List (Piece β)} (h : Canonical ps) : ps.Nodup := by
    refine h.sorted.2.imp_of_mem ?_
    rintro p q member - before rfl
    have := h.apart.full p member
    omega
  refine hp.sorted.eq_of_perm hq.sorted
    ((List.perm_ext_iff_of_nodup (distinct hp) (distinct hq)).mpr fun p => ?_)
  exact ⟨inside hp hq same, inside hq hp fun x => (same x).symm⟩

end Joining
end Piece
end Linuxemu.Lib
