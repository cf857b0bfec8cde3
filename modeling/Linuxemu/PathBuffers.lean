import Linuxemu.PathSteps

/-! The arrays that `normalize_guest_path` writes to. The path is split into components before
anything is said of their number: `combined` has room for `PATH_MAX` of one letter each, and
`components` for half as many. -/
namespace Linuxemu.Path
open Lib

/-- An element written, by its array. -/
inductive Write where
  | combined (index : Nat)
  | components (index : Nat)
  | output (index : Nat)
  deriving DecidableEq, Repr

/-- The element is one of the array, where `output` has `size`. -/
def Write.InBounds (pathMax size : Nat) : Write → Prop
  | .combined index => index < pathMax * 2
  | .components index => index < pathMax / 2
  | .output index => index < size

instance (pathMax size : Nat) : (w : Write) → Decidable (w.InBounds pathMax size)
  | .combined _ | .components _ | .output _ => Nat.decLt _ _

/-- `snprintf` of a text to an array of `size`: what fits of it, and a NUL. -/
def snprintfWrites (size length : Nat) : List Write :=
  (List.range (min length (size - 1) + 1)).map .combined

/-- The scanning loop with the cursor at `position` of `combined`: the components, and what is
written on the way. -/
def scanWrites (position : Nat) (cursor : Text) (components : List Text) :
    List Text × List Write :=
  let start := cursor.dropWhile (· == slash)
  if start = [] then (components, [])
  else
    let component := start.takeWhile (· != slash)
    let tail := start.dropWhile (· != slash)
    let stop := position + (cursor.length - start.length) + component.length
    -- the slash behind the component becomes its NUL
    let ended := if tail = [] then [] else [Write.combined stop]
    let rest := tail.drop 1
    let next := stop + (tail.length - rest.length)
    if component = bytes "." then
      let (found, writes) := scanWrites next rest components
      (found, ended ++ writes)
    else if component = bytes ".." then
      let (found, writes) := scanWrites next rest components.dropLast
      (found, ended ++ writes)
    else
      let (found, writes) := scanWrites next rest (components ++ [component])
      (found, ended ++ .components components.length :: writes)
termination_by cursor.length
decreasing_by all_goals
  have := (List.dropWhile_sublist (· == slash) (l := cursor)).length_le
  have := (List.dropWhile_sublist (· != slash) (l := cursor.dropWhile (· == slash))).length_le
  have := List.length_pos_iff.mpr (show cursor.dropWhile (· == slash) ≠ [] by assumption)
  simp only [List.length_drop]
  omega

/-- The output loop from `position` on. -/
def outputWrites (size position : Nat) : List Text → List Write
  | [] => [.output position]
  | component :: rest =>
    if size ≤ position + component.length + (if rest = [] then 0 else 1) then []
    else
      (List.range component.length).map (fun i => .output (position + i)) ++
        if rest = [] then outputWrites size (position + component.length) rest
        else .output (position + component.length) ::
          outputWrites size (position + component.length + 1) rest

/-- Every element `normalize_guest_path` writes. -/
def normalizeWrites (p : Paths) (path : Text) (size : Nat) : List Write :=
  if path = [] then []
  else
    let text := combined p path
    snprintfWrites (p.pathMax * 2) text.length ++
      if p.pathMax * 2 ≤ text.length then []
      else
        let (components, writes) := scanWrites 0 text []
        writes ++ if size < 2 then [] else .output 0 :: outputWrites size 1 components

/-- The components written are those of the scan. -/
theorem scanWrites_components (position : Nat) (cursor : Text) (components : List Text) :
    (scanWrites position cursor components).1 = componentLoop cursor components := by
  fun_induction scanWrites position cursor components with
  | case1 position cursor components start ending =>
    rw [componentLoop, if_pos ending]
  | case2 position cursor components start more component tail stop ended rest next dot found
      writes same ih =>
    rw [same] at ih
    rw [componentLoop, if_neg more, if_pos dot]
    exact ih
  | case3 position cursor components start more component tail stop ended rest next dot dots found
      writes same ih =>
    rw [same] at ih
    rw [componentLoop, if_neg more, if_neg dot, if_pos dots]
    exact ih
  | case4 position cursor components start more component tail stop ended rest next dot dots found
      writes same ih =>
    rw [same] at ih
    rw [componentLoop, if_neg more, if_neg dot, if_neg dots]
    exact ih

/-! ## Bounds -/

theorem snprintfWrites_inBounds {pathMax : Nat} (large : 0 < pathMax) (length size : Nat) :
    ∀ w ∈ snprintfWrites (pathMax * 2) length, w.InBounds pathMax size := by
  intro w member
  obtain ⟨index, inside, rfl⟩ := List.mem_map.mp member
  rw [List.mem_range] at inside
  show index < pathMax * 2
  omega

theorem outputWrites_inBounds (pathMax : Nat) {size position : Nat} (room : position < size)
    (components : List Text) :
    ∀ w ∈ outputWrites size position components, w.InBounds pathMax size := by
  induction components generalizing position with
  | nil =>
    intro w member
    rw [outputWrites, List.mem_singleton] at member
    subst member
    exact room
  | cons component rest ih =>
    intro w member
    rw [outputWrites] at member
    by_cases long : size ≤ position + component.length + (if rest = [] then 0 else 1)
    · rw [if_pos long] at member
      cases member
    · rw [if_neg long, List.mem_append] at member
      obtain copied | later := member
      · obtain ⟨index, inside, rfl⟩ := List.mem_map.mp copied
        rw [List.mem_range] at inside
        show position + index < size
        omega
      · split at later
        · exact ih (by omega) w later
        · rename_i more
          rw [if_neg more] at long
          rw [List.mem_cons] at later
          obtain rfl | later := later
          · show position + component.length < size
            omega
          · exact ih (by omega) w later

section Scan
variable {pathMax size position : Nat} {cursor : Text}

/-- What the cursor passes of `combined` in one round. -/
theorem scan_lengths (fits : position + cursor.length ≤ pathMax * 2) :
    let start := cursor.dropWhile (· == slash)
    let tail := start.dropWhile (· != slash)
    let stop := position + (cursor.length - start.length) + (start.takeWhile (· != slash)).length
    (tail ≠ [] → stop < pathMax * 2) ∧
      stop + (tail.length - (tail.drop 1).length) + (tail.drop 1).length ≤ pathMax * 2 := by
  intro start tail stop
  have skipped : start.length ≤ cursor.length := (List.dropWhile_sublist _).length_le
  have parts : (start.takeWhile (· != slash)).length + tail.length = start.length := by
    rw [← List.length_append, List.takeWhile_append_dropWhile]
  have drop : (tail.drop 1).length ≤ tail.length := by
    rw [List.length_drop]
    omega
  constructor
  · intro more
    have := List.length_pos_iff.mpr more
    omega
  · omega

theorem ended_inBounds {stop : Nat} {tail : Text} (inside : tail ≠ [] → stop < pathMax * 2) :
    ∀ w ∈ (if tail = [] then [] else [Write.combined stop]), w.InBounds pathMax size := by
  intro w member
  split at member
  · cases member
  · rename_i more
    rw [List.mem_singleton] at member
    subst member
    exact inside more

end Scan

/-- The scan stays inside its arrays as long as no more components are held at once than there
is room for. -/
theorem scanWrites_inBounds {pathMax position : Nat} {cursor : Text} {components : List Text}
    (fits : position + cursor.length ≤ pathMax * 2) (size : Nat) :
    (∀ w ∈ (scanWrites position cursor components).2, w.InBounds pathMax size) ↔
      deepest components (moves cursor) ≤ pathMax / 2 := by
  fun_induction scanWrites position cursor components with
  | case1 position cursor components start ending =>
    rw [← moves_start, show cursor.dropWhile (· == slash) = [] from ending, moves_nil]
    simp [deepest]
  | case2 position cursor components start more component tail stop ended rest next dot found
      writes same ih =>
    obtain ⟨inside, fits⟩ := scan_lengths fits
    have scan : moves cursor = [stepOf component].filter Step.moves ++ moves rest :=
      moves_scan cursor
    have ended' : ∀ w ∈ ended, w.InBounds pathMax size := ended_inBounds inside
    have ih := ih fits
    rw [same] at ih
    rw [scan, dot, stepOf_dot, List.forall_mem_append, and_iff_right ended']
    exact ih
  | case3 position cursor components start more component tail stop ended rest next dot dots found
      writes same ih =>
    obtain ⟨inside, fits⟩ := scan_lengths fits
    have scan : moves cursor = [stepOf component].filter Step.moves ++ moves rest :=
      moves_scan cursor
    have ended' : ∀ w ∈ ended, w.InBounds pathMax size := ended_inBounds inside
    have ih := ih fits
    rw [same] at ih
    rw [scan, dots, stepOf_dots, List.forall_mem_append, and_iff_right ended']
    exact ih
  | case4 position cursor components start more component tail stop ended rest next dot dots found
      writes same ih =>
    obtain ⟨inside, fits⟩ := scan_lengths fits
    have scan : moves cursor = [stepOf component].filter Step.moves ++ moves rest :=
      moves_scan cursor
    have plain : Plain component :=
      ⟨component_nonempty more, no_slash_takeWhile start, dot, dots⟩
    have ended' : ∀ w ∈ ended, w.InBounds pathMax size := ended_inBounds inside
    have ih := ih fits
    rw [same] at ih
    rw [scan, stepOf_plain plain, List.forall_mem_append, and_iff_right ended',
      List.forall_mem_cons, ih]
    exact Nat.max_le.symm

/-- Every write of `normalize_guest_path` is to an element of its array exactly when the text it
scans is too long, or never has more than `PATH_MAX / 2` names at once. -/
theorem normalize_inBounds_iff {p : Paths} (large : 16 ≤ p.pathMax) {path : Text}
    (nonempty : path ≠ []) (size : Nat) :
    (∀ w ∈ normalizeWrites p path size, w.InBounds p.pathMax size) ↔
      p.pathMax * 2 ≤ (combined p path).length ∨
        deepest [] (steps (combined p path)) ≤ p.pathMax / 2 := by
  rw [normalizeWrites, if_neg nonempty]
  dsimp only
  rw [List.forall_mem_append,
    and_iff_right (snprintfWrites_inBounds (Nat.lt_of_lt_of_le (by decide) large) _ size)]
  by_cases long : p.pathMax * 2 ≤ (combined p path).length
  · rw [if_pos long]
    exact ⟨fun _ => .inl long, fun _ _ member => nomatch member⟩
  · rw [if_neg long, or_iff_right long, ← deepest_moves]
    rw [List.forall_mem_append, scanWrites_inBounds (by omega)]
    apply and_iff_left
    intro w member
    split at member
    · cases member
    · rename_i room
      rw [List.mem_cons] at member
      obtain rfl | member := member
      · show 0 < size
        omega
      · exact outputWrites_inBounds _ (by omega) _ w member

/-- Eight names where there is room for eight. -/
theorem normalize_inBounds_eight :
    let p : Paths := ⟨16, bytes "/root", bytes "/", smokeTree⟩
    ∀ w ∈ normalizeWrites p (bytes "a/b/c/d/e/f/g/h") 16, w.InBounds 16 16 := by
  intro p
  exact (normalize_inBounds_iff (p := p) (by decide) (by decide +kernel) 16).mpr
    (.inr (by decide +kernel))

/-- A ninth is stored past the end of `components`. -/
theorem normalize_past_components :
    let p : Paths := ⟨16, bytes "/root", bytes "/", smokeTree⟩
    Write.components 8 ∈ normalizeWrites p (bytes "a/b/c/d/e/f/g/h/i") 16 ∧
      ¬ (Write.components 8).InBounds 16 16 := by
  decide +kernel

end Linuxemu.Path
