import Linuxemu.Lib.TreeWalk
import Linuxemu.WorkingDirectory

/-! Guest paths as the steps of a walk. The scanning loop of `normalize_guest_path` computes the
normal form of the steps, and the text of plain names has those names for its steps. -/
namespace Linuxemu.Path
open Lib

/-! ## Paths as steps -/

def stepOf (component : Text) : Step Text :=
  if component = [] ∨ component = bytes "." then .stay
  else if component = bytes ".." then .up
  else .name component

/-- The components of a path; those between two slashes or after the last one are empty. -/
def steps (path : Text) : List (Step Text) := (path.splitOn slash).map stepOf

theorem steps_append (xs ys : Text) : steps (xs ++ slash :: ys) = steps xs ++ steps ys := by
  rw [steps, List.splitOn_append_cons_self, List.map_append, steps, steps]

theorem steps_last {c : Text} (whole : slash ∉ c) : steps c = [stepOf c] := by
  rw [steps, List.splitOn_eq_singleton whole, List.map_singleton]

theorem stepOf_nil : stepOf [] = .stay := by
  rw [stepOf, if_pos (.inl rfl)]

theorem stepOf_dot : stepOf (bytes ".") = .stay := by
  rw [stepOf, if_pos (.inr rfl)]

theorem stepOf_dots : stepOf (bytes "..") = .up := by
  decide +kernel

theorem stepOf_plain {c : Text} (plain : Plain c) : stepOf c = .name c := by
  obtain ⟨nonempty, -, notDot, notDots⟩ := plain
  rw [stepOf, if_neg (by simp [nonempty, notDot]), if_neg notDots]

theorem normal_steps_nil (path : List Text) : normal path (steps []) = path := by
  rw [steps_last List.not_mem_nil, stepOf_nil]
  rfl

theorem normal_steps_append (path : List Text) (xs ys : Text) :
    normal path (steps (xs ++ slash :: ys)) = normal (normal path (steps xs)) (steps ys) := by
  rw [steps_append, normal_append]

theorem normal_steps_slash (path : List Text) (rest : Text) :
    normal path (steps (slash :: rest)) = normal path (steps rest) := by
  have cut := normal_steps_append path [] rest
  rwa [List.nil_append, normal_steps_nil] at cut

theorem no_slash_takeWhile (text : Text) : slash ∉ text.takeWhile (· != slash) := by
  intro member
  have := List.mem_takeWhile_imp member
  simp at this

theorem dropWhile_shape (text : Text) : text.dropWhile (· != slash) = [] ∨
    text.dropWhile (· != slash) = slash :: (text.dropWhile (· != slash)).drop 1 := by
  induction text with
  | nil => exact .inl rfl
  | cons b text ih =>
    by_cases same : b = slash
    · subst same
      right
      simp
    · rw [List.dropWhile_cons_of_pos (by simpa using same)]
      exact ih

/-- The steps that go anywhere. -/
def moves (path : Text) : List (Step Text) := (steps path).filter Step.moves

theorem moves_nil : moves [] = [] := by
  rw [moves, steps_last List.not_mem_nil, stepOf_nil]
  rfl

theorem moves_append (xs ys : Text) : moves (xs ++ slash :: ys) = moves xs ++ moves ys := by
  rw [moves, steps_append, List.filter_append, moves, moves]

/-- Slashes at the start change nothing. -/
theorem moves_start (cursor : Text) : moves (cursor.dropWhile (· == slash)) = moves cursor := by
  induction cursor with
  | nil => rfl
  | cons b cursor ih =>
    by_cases same : b = slash
    · subst same
      have skipped := moves_append [] cursor
      rw [List.nil_append, moves_nil, List.nil_append] at skipped
      rw [List.dropWhile_cons_of_pos (by simp), ih, skipped]
    · rw [List.dropWhile_cons_of_neg (by simpa using same)]

/-- The first component, and the rest. -/
theorem moves_cut (start : Text) :
    moves start = [stepOf (start.takeWhile (· != slash))].filter Step.moves ++
      moves ((start.dropWhile (· != slash)).drop 1) := by
  have whole := no_slash_takeWhile start
  have parts := List.takeWhile_append_dropWhile (p := (· != slash)) (l := start)
  obtain ending | more := dropWhile_shape start
  · rw [ending, List.append_nil] at parts
    rw [ending, List.drop_nil, moves_nil, List.append_nil, parts, moves,
      steps_last (parts ▸ whole)]
  · rw [more] at parts
    generalize start.takeWhile (· != slash) = component at *
    generalize (start.dropWhile (· != slash)).drop 1 = rest at *
    rw [← parts, moves_append, moves, steps_last whole]

theorem moves_scan (cursor : Text) :
    moves cursor =
      [stepOf ((cursor.dropWhile (· == slash)).takeWhile (· != slash))].filter Step.moves ++
        moves (((cursor.dropWhile (· == slash)).dropWhile (· != slash)).drop 1) := by
  rw [← moves_start cursor, moves_cut]

/-- The scanning loop computes the normal form. -/
theorem componentLoop_normal (cursor : Text) (components : List Text) :
    componentLoop cursor components = normal components (steps cursor) := by
  rw [← normal_moves]
  show _ = normal components (moves cursor)
  fun_induction componentLoop cursor components with
  | case1 cursor components start ending =>
    rw [← moves_start, show cursor.dropWhile (· == slash) = [] from ending, moves_nil]
    rfl
  | case2 cursor components start more component rest dot ih =>
    have scan : moves cursor = [stepOf component].filter Step.moves ++ moves rest :=
      moves_scan cursor
    rw [ih, scan, dot, stepOf_dot]
    rfl
  | case3 cursor components start more component rest _ dots ih =>
    have scan : moves cursor = [stepOf component].filter Step.moves ++ moves rest :=
      moves_scan cursor
    rw [ih, scan, dots, stepOf_dots]
    rfl
  | case4 cursor components start more component rest notDot notDots ih =>
    have plain : Plain component :=
      ⟨component_nonempty more, no_slash_takeWhile start, notDot, notDots⟩
    have scan : moves cursor = [stepOf component].filter Step.moves ++ moves rest :=
      moves_scan cursor
    rw [ih, scan, stepOf_plain plain]
    rfl

theorem mem_splitOn {path component : Text} (member : component ∈ path.splitOn slash) :
    slash ∉ component := by
  induction path generalizing component with
  | nil =>
    rw [List.splitOn_nil, List.mem_singleton] at member
    subst member
    exact List.not_mem_nil
  | cons b path ih =>
    rw [List.splitOn_cons_eq_if_modifyHead] at member
    split at member
    · rw [List.mem_cons] at member
      obtain rfl | member := member
      · exact List.not_mem_nil
      · exact ih member
    · rename_i other
      cases pieces : path.splitOn slash with
      | nil => exact absurd pieces (List.splitOn_ne_nil slash path)
      | cons first pieces' =>
        rw [pieces] at ih member
        rw [List.modifyHead_cons, List.mem_cons] at member
        obtain rfl | member := member
        · rw [List.mem_cons, not_or]
          exact ⟨fun same => other (by simp [same]), ih List.mem_cons_self⟩
        · exact ih (List.mem_cons_of_mem first member)

theorem mem_steps {path c : Text} (member : Step.name c ∈ steps path) : Plain c := by
  obtain ⟨component, piece, step⟩ := List.mem_map.mp member
  have whole := mem_splitOn piece
  unfold stepOf at step
  split at step
  · cases step
  · rename_i named
    split at step
    · cases step
    · rename_i notDots
      cases step
      exact ⟨fun empty => named (.inl empty), whole, fun dot => named (.inr dot), notDots⟩

theorem normal_plain {path : List Text} {todo : List (Step Text)} (plain : ∀ c ∈ path, Plain c)
    (named : ∀ c, Step.name c ∈ todo → Plain c) : ∀ c ∈ normal path todo, Plain c := by
  intro c member
  obtain before | later := mem_normal member
  · exact plain c before
  · exact named c later

/-! ## Names as text -/

/-- Every name with a slash before it. -/
def rendered (names : List Text) : Text := names.flatMap (slash :: ·)

theorem rendered_cons (c : Text) (cs : List Text) :
    rendered (c :: cs) = slash :: joined (c :: cs) := by
  induction cs generalizing c with
  | nil => simp [rendered, joined]
  | cons d cs ih =>
    have unfolded : rendered (c :: d :: cs) = slash :: c ++ rendered (d :: cs) := rfl
    rw [unfolded, ih, joined, List.cons_append]

theorem joined_cons (c : Text) (cs : List Text) : joined (c :: cs) = c ++ rendered cs := by
  cases cs with
  | nil => simp [rendered, joined]
  | cons d cs => rw [joined, rendered_cons]

theorem rendered_append (xs ys : List Text) : rendered (xs ++ ys) = rendered xs ++ rendered ys :=
  List.flatMap_append

theorem rendered_concat (path : List Text) (c : Text) :
    rendered (path ++ [c]) = rendered path ++ slash :: c := by
  rw [rendered_append]
  simp [rendered]

theorem absolute_concat (path : List Text) (c : Text) :
    absolute (path ++ [c]) = rendered path ++ slash :: c := by
  rw [← rendered_concat]
  cases path with
  | nil => exact (rendered_cons c []).symm
  | cons d path => exact (rendered_cons d (path ++ [c])).symm

theorem normal_steps_rendered {names : List Text} (plain : ∀ c ∈ names, Plain c)
    (path : List Text) (text : Text) :
    normal path (steps (text ++ rendered names)) = normal path (steps text) ++ names := by
  induction names generalizing text with
  | nil => simp [rendered]
  | cons c names ih =>
    have first := plain c List.mem_cons_self
    have rest (d : Text) (member : d ∈ names) := plain d (List.mem_cons_of_mem c member)
    have assoc : text ++ rendered (c :: names) = (text ++ slash :: c) ++ rendered names := by
      simp [rendered]
    rw [assoc, ih rest, normal_steps_append, steps_last first.2.1, stepOf_plain first]
    simp [normal]

theorem parent_absolute (path : List Text) :
    (if rendered path = [] then [slash] else rendered path) = absolute path := by
  cases path with
  | nil => rfl
  | cons c path =>
    rw [rendered_cons, if_neg (List.cons_ne_nil _ _)]
    rfl

theorem normal_steps_absolute {path : List Text} (plain : ∀ c ∈ path, Plain c) :
    normal [] (steps (absolute path)) = path := by
  rw [← componentLoop_normal, absolute, componentLoop_slash, componentLoop_joined plain]
  rfl

theorem absolute_injective {cs ds : List Text} (plain : ∀ c ∈ cs, Plain c)
    (plain' : ∀ d ∈ ds, Plain d) (same : absolute cs = absolute ds) : cs = ds := by
  rw [← normal_steps_absolute plain, same, normal_steps_absolute plain']

theorem absolute_length (path : List Text) :
    (absolute path).length ≤ (rendered path).length + 1 := by
  cases path with
  | nil => simp [absolute, joined]
  | cons c path =>
    rw [rendered_cons, absolute]
    omega

theorem rendered_length (path : List Text) : (rendered path).length ≤ (absolute path).length := by
  cases path with
  | nil => simp [rendered]
  | cons c path => rw [rendered_cons, absolute]

end Linuxemu.Path
