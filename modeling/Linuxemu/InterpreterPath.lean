import Linuxemu.ElfLoader
import Linuxemu.PathSteps

/-! The name of an interpreter. `safe_interpreter_path` of `elf_loader.c` looks at a path where
it stands and `normalize_guest_path` of `guest_path.c` takes it apart and writes it again; the
first accepts what the second leaves as it is. -/
namespace Linuxemu.Path
open Guest

/-! ## Text of components -/

theorem joined_splitOn (path : Text) : joined (path.splitOn slash) = path := by
  induction path with
  | nil => rfl
  | cons b path ih =>
    rw [List.splitOn_cons_eq_if_modifyHead]
    cases pieces : path.splitOn slash with
    | nil => exact absurd pieces (List.splitOn_ne_nil slash path)
    | cons first rest =>
      rw [pieces] at ih
      split
      · rename_i same
        rw [joined, ih, List.nil_append, ← eq_of_beq same]
      · cases rest with
        | nil => exact congrArg (b :: ·) ih
        | cons second rest => exact congrArg (b :: ·) ih

theorem splitOn_joined {cs : List Text} (nonempty : cs ≠ []) (plain : ∀ c ∈ cs, Plain c) :
    (joined cs).splitOn slash = cs := by
  induction cs with
  | nil => exact absurd rfl nonempty
  | cons c cs ih =>
    have whole := (plain c List.mem_cons_self).2.1
    cases cs with
    | nil => exact List.splitOn_eq_singleton whole
    | cons d cs =>
      have rest := ih (List.cons_ne_nil d cs) fun x member => plain x (List.mem_cons_of_mem c member)
      rw [joined, List.splitOn_append_cons_self, List.splitOn_eq_singleton whole, rest]
      rfl

theorem joined_nonempty {cs : List Text} (nonempty : cs ≠ []) (plain : ∀ c ∈ cs, Plain c) :
    joined cs ≠ [] := by
  cases cs with
  | nil => exact absurd rfl nonempty
  | cons c cs =>
    rw [joined_cons]
    exact List.append_ne_nil_of_left_ne_nil (plain c List.mem_cons_self).1 _

theorem joined_last {cs : List Text} (plain : ∀ c ∈ cs, Plain c) :
    (joined cs).getLast? ≠ some slash := by
  induction cs with
  | nil => exact nofun
  | cons c cs ih =>
    cases cs with
    | nil => exact fun last => (plain c List.mem_cons_self).2.1 (List.mem_of_getLast? last)
    | cons d cs =>
      have later : ∀ x ∈ d :: cs, Plain x := fun x member => plain x (List.mem_cons_of_mem c member)
      have more := joined_nonempty (List.cons_ne_nil d cs) later
      rw [joined, List.getLast?_append_of_ne_nil _ (List.cons_ne_nil _ _),
        List.getLast?_cons_of_ne_nil more]
      exact ih later

/-! ## The check -/

/-- The loop of `safe_interpreter_path`, from the start of a component. -/
def safeComponents (component : Text) : Bool :=
  if component = [] then true
  else
    let name := component.takeWhile (· != slash)
    let stop := component.dropWhile (· != slash)
    if name = [] ∨ name = bytes "." ∨ name = bytes ".." then false
    -- `strchr` finds no slash
    else if stop = [] then true
    else safeComponents (stop.drop 1)
termination_by component.length
decreasing_by
  have := (List.dropWhile_sublist (· != slash) (l := component)).length_le
  have := List.length_pos_iff.mpr (show component ≠ [] by assumption)
  simp only [List.length_drop]
  omega

/-- What the check accepts: the text of a list of components, each with a name. -/
def CanonicalText (path : Text) : Prop := ∃ cs, cs ≠ [] ∧ (∀ c ∈ cs, Plain c) ∧ path = absolute cs

theorem all_named_iff (rest : Text) :
    ((rest.splitOn slash).all fun component =>
        !(component.isEmpty || component == [46] || component == [46, 46])) = true ↔
      ∀ c ∈ rest.splitOn slash, Plain c := by
  rw [List.all_eq_true]
  refine forall₂_congr fun c member => ?_
  have whole := mem_splitOn member
  have dot : bytes "." = [46] := by decide +kernel
  have dots : bytes ".." = [46, 46] := by decide +kernel
  simp [Plain, whole, dot, dots, and_assoc]

theorem safeInterpreterPath_iff (path : Text) :
    safeInterpreterPath path = true ↔ CanonicalText path := by
  constructor
  · intro safe
    cases path with
    | nil => cases safe
    | cons first rest =>
      simp only [safeInterpreterPath, Bool.and_eq_true, decide_eq_true_eq] at safe
      obtain ⟨⟨⟨rfl, -⟩, -⟩, named⟩ := safe
      refine ⟨rest.splitOn slash, List.splitOn_ne_nil slash rest, (all_named_iff rest).mp named, ?_⟩
      rw [absolute, joined_splitOn]
      rfl
  · rintro ⟨cs, nonempty, plain, rfl⟩
    have named := (all_named_iff (joined cs)).mpr (by rwa [splitOn_joined nonempty plain])
    have last := joined_last plain
    have more := joined_nonempty nonempty plain
    simp only [absolute, safeInterpreterPath, Bool.and_eq_true, decide_eq_true_eq]
    exact ⟨⟨⟨rfl, by simpa using more⟩, last⟩, named⟩

/-- The first component, and those after its slash. -/
theorem splitOn_cut (text : Text) :
    text.splitOn slash = text.takeWhile (· != slash) ::
      if text.dropWhile (· != slash) = [] then []
      else ((text.dropWhile (· != slash)).drop 1).splitOn slash := by
  have whole := no_slash_takeWhile text
  have parts := List.takeWhile_append_dropWhile (p := (· != slash)) (l := text)
  obtain ending | more := dropWhile_shape text
  · rw [ending, List.append_nil] at parts
    rw [if_pos ending, parts]
    exact List.splitOn_eq_singleton (parts ▸ whole)
  · rw [if_neg (by rw [more]; exact List.cons_ne_nil _ _)]
    rw [more] at parts
    generalize text.takeWhile (· != slash) = component at *
    generalize (text.dropWhile (· != slash)).drop 1 = rest at *
    rw [← parts, List.splitOn_append_cons_self, List.splitOn_eq_singleton whole]
    rfl

/-- The loop looks at the same components. Only a slash at the end of the text hides one from
it, and that is looked for first. -/
theorem safeComponents_iff {rest : Text} (nonempty : rest ≠ [])
    (last : rest.getLast? ≠ some slash) :
    safeComponents rest = true ↔ ∀ c ∈ rest.splitOn slash, Plain c := by
  fun_induction safeComponents rest with
  | case1 => exact absurd rfl nonempty
  | case2 rest _ name bad =>
    refine iff_of_false Bool.false_ne_true fun plain => ?_
    rw [splitOn_cut] at plain
    obtain ⟨named, -, notDot, notDots⟩ : Plain name := plain _ List.mem_cons_self
    obtain empty | dot | dots := bad
    · exact named empty
    · exact notDot dot
    · exact notDots dots
  | case3 rest _ name stop good ending =>
    have plain : Plain name :=
      ⟨fun h => good (.inl h), no_slash_takeWhile rest, fun h => good (.inr (.inl h)),
        fun h => good (.inr (.inr h))⟩
    rw [splitOn_cut, if_pos ending]
    simpa using plain
  | case4 rest _ name stop good more ih =>
    have plain : Plain name :=
      ⟨fun h => good (.inl h), no_slash_takeWhile rest, fun h => good (.inr (.inl h)),
        fun h => good (.inr (.inr h))⟩
    obtain ending | shape := dropWhile_shape rest
    · exact absurd ending more
    have parts : name ++ slash :: stop.drop 1 = rest := by
      rw [← shape]
      exact List.takeWhile_append_dropWhile
    -- the text goes on after this slash, since it does not end with one
    have further : stop.drop 1 ≠ [] := by
      intro none
      rw [none] at parts
      exact last (by rw [← parts, List.getLast?_concat])
    have same : rest.getLast? = (stop.drop 1).getLast? := by
      rw [← parts, List.getLast?_append_of_ne_nil _ (List.cons_ne_nil _ _),
        List.getLast?_cons_of_ne_nil further]
    rw [ih further (same ▸ last), splitOn_cut rest, if_neg more, List.forall_mem_cons]
    exact (and_iff_right plain).symm

/-- The check as the source writes it. -/
theorem safeInterpreterPath_loop (path : Text) :
    safeInterpreterPath path =
      (decide (path.head? = some slash) && decide (path.drop 1 ≠ []) &&
        decide (path.getLast? ≠ some slash) && safeComponents (path.drop 1)) := by
  cases path with
  | nil => rfl
  | cons first rest =>
    by_cases more : rest = []
    · subst more
      simp [safeInterpreterPath]
    · rw [safeInterpreterPath, List.head?_cons, List.getLast?_cons_of_ne_nil more]
      by_cases last : rest.getLast? = some slash
      · simp [last, slash]
      · have loop := (all_named_iff rest).trans (safeComponents_iff more last).symm
        change (decide (first = slash) && !rest.isEmpty && decide (rest.getLast? ≠ some slash) &&
          (rest.splitOn slash).all _) = _
        rw [Bool.eq_iff_iff.mpr loop, List.isEmpty_eq_false_iff.mpr more]
        simp [more]

/-- The interpreters that are accepted are the paths that `normalize_guest_path` gives back as
they are, but for the root. -/
theorem interpreter_path_canonical (p : Paths) {path : Text} (short : path.length < p.pathMax) :
    safeInterpreterPath path = true ↔
      path ≠ [slash] ∧ normalizeGuestPath p (some path) p.pathMax = .ok path := by
  rw [safeInterpreterPath_iff]
  constructor
  · rintro ⟨cs, nonempty, plain, rfl⟩
    have more := joined_nonempty nonempty plain
    have length : 0 < (joined cs).length := List.length_pos_iff.mpr more
    rw [absolute, List.length_cons] at short
    constructor
    · intro root
      exact more (List.cons.inj root).2
    · apply normalizeGuestPath_absolute plain
      · exact short
      · omega
      · rw [absolute, List.length_cons]
        omega
  · rintro ⟨notRoot, normal⟩
    obtain ⟨cs, plain, rfl⟩ := normalizeGuestPath_ok normal
    refine ⟨cs, ?_, plain, rfl⟩
    rintro rfl
    exact notRoot rfl

theorem interpreter_path_musl :
    let p : Paths := ⟨1024, bytes "/root", bytes "/tmp", smokeTree⟩
    let path := bytes "/lib/ld-musl-armhf.so.1"
    safeInterpreterPath path = true ∧
      path ≠ [slash] ∧ normalizeGuestPath p (some path) p.pathMax = .ok path := by
  intro p path
  have safe : safeInterpreterPath path = true := by decide +kernel
  exact ⟨safe, (interpreter_path_canonical p (by decide +kernel)).mp safe⟩

end Linuxemu.Path
