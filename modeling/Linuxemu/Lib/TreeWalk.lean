import Mathlib.Data.List.Basic

/-! Paths in a tree of directories with links: the walk that looks every component up where it
has got to, and the textual normal form, in which a step up takes back the name before it. -/
namespace Linuxemu.Lib
variable {links : Nat} {absolute : Bool}

/-- A component: stay, go up, or go to a name. -/
inductive Step (α : Type) where
  | stay
  | up
  | name (a : α)
  deriving DecidableEq, Repr

inductive Entry (α : Type) where
  | directory
  | other
  | link (absolute : Bool) (target : List (Step α))
  deriving DecidableEq, Repr

/-- The entry at a path of names from the root, itself a directory. -/
abbrev LinkTree (α : Type) := List α → Option (Entry α)

/-- Nothing is found below an entry that is no directory and no link. -/
def LinkTree.Sound {α : Type} (t : LinkTree α) : Prop :=
  ∀ path a, path ≠ [] → t path = some .other → t (path ++ [a]) = none

/-- How a walk ends that does not follow links: at an object, or at a link in the directory
`path` with more to go. -/
inductive Stop (α ρ : Type) where
  | reached (path : List α)
  | link (path : List α) (absolute : Bool) (target : List (Step α)) (rest : ρ)
  | failed

variable {α : Type}

/-- Walk until a link; `directory` is whether `path` is one. -/
def LinkTree.steps (t : LinkTree α) : List α → Bool → List (Step α) → Stop α (List (Step α))
  | path, _, [] => .reached path
  | _, false, _ :: _ => .failed
  | path, true, .stay :: rest => t.steps path true rest
  | path, true, .up :: rest => t.steps path.dropLast true rest
  | path, true, .name a :: rest =>
    match t (path ++ [a]) with
    | none => .failed
    | some (.link absolute target) => .link path absolute target rest
    | some .other => t.steps (path ++ [a]) false rest
    | some .directory => t.steps (path ++ [a]) true rest

/-- Where the components of a link's target start. -/
def origin (path : List α) (absolute : Bool) : List α := if absolute then [] else path

/-- The walk from a directory, with at most `links` links followed. -/
def LinkTree.walk (t : LinkTree α) : Nat → List α → List (Step α) → Option (List α)
  | links, path, todo =>
    match t.steps path true todo with
    | .reached path => some path
    | .failed => none
    | .link path absolute target rest =>
      match links with
      | 0 => none
      | links + 1 => t.walk links (origin path absolute) (target ++ rest)

/-- Something holds at the start of a walk and each time it has followed a link. -/
def LinkTree.Along (t : LinkTree α) (holds : List α → List (Step α) → Bool) :
    Nat → List α → List (Step α) → Bool
  | links, path, todo => holds path todo &&
    match t.steps path true todo with
    | .link path absolute target rest =>
      match links with
      | 0 => true
      | links + 1 => t.Along holds links (origin path absolute) (target ++ rest)
    | _ => true

/-! ## Normal forms -/

def normal : List α → List (Step α) → List α
  | path, [] => path
  | path, .stay :: rest => normal path rest
  | path, .up :: rest => normal path.dropLast rest
  | path, .name a :: rest => normal (path ++ [a]) rest

theorem normal_append (path : List α) (xs ys : List (Step α)) :
    normal path (xs ++ ys) = normal (normal path xs) ys := by
  induction xs generalizing path with
  | nil => rfl
  | cons x xs ih =>
    cases x with
    | stay => exact ih _
    | up => exact ih _
    | name a => exact ih _

theorem mem_normal {path : List α} {todo : List (Step α)} {a : α} (member : a ∈ normal path todo) :
    a ∈ path ∨ Step.name a ∈ todo := by
  induction todo generalizing path with
  | nil => exact .inl member
  | cons x todo ih =>
    cases x with
    | stay => exact (ih member).imp_right (List.mem_cons_of_mem _)
    | up =>
      obtain before | later := ih member
      · exact .inl ((List.dropLast_sublist _).mem before)
      · exact .inr (List.mem_cons_of_mem _ later)
    | name b =>
      obtain before | later := ih member
      · rw [List.mem_append, List.mem_singleton] at before
        obtain before | rfl := before
        · exact .inl before
        · exact .inr List.mem_cons_self
      · exact .inr (List.mem_cons_of_mem _ later)

/-- The most names that are held at once on the way. -/
def deepest : List α → List (Step α) → Nat
  | _, [] => 0
  | path, .stay :: rest => deepest path rest
  | path, .up :: rest => deepest path.dropLast rest
  | path, .name a :: rest => max (path.length + 1) (deepest (path ++ [a]) rest)

def Step.moves : Step α → Bool
  | .stay => false
  | .up | .name _ => true

theorem normal_moves (path : List α) (todo : List (Step α)) :
    normal path (todo.filter Step.moves) = normal path todo := by
  induction todo generalizing path with
  | nil => rfl
  | cons x todo ih =>
    cases x with
    | stay => exact ih _
    | up => exact ih _
    | name a => exact ih _

theorem deepest_moves (path : List α) (todo : List (Step α)) :
    deepest path (todo.filter Step.moves) = deepest path todo := by
  induction todo generalizing path with
  | nil => rfl
  | cons x todo ih =>
    cases x with
    | stay => exact ih _
    | up => exact ih _
    | name a => exact congrArg (max _) (ih _)

/-- These steps go above the place where they start, `depth` names below another. -/
def goesBack : Nat → List (Step α) → Bool
  | _, [] => false
  | depth, .stay :: rest => goesBack depth rest
  | depth, .name _ :: rest => goesBack (depth + 1) rest
  | 0, .up :: _ => true
  | depth + 1, .up :: rest => goesBack depth rest

theorem normal_below (path : List α) {names : List α} {rest : List (Step α)}
    (forward : goesBack names.length rest = false) :
    normal (path ++ names) rest = path ++ normal names rest := by
  induction rest generalizing names with
  | nil => rfl
  | cons x rest ih =>
    cases x with
    | stay => exact ih forward
    | name a =>
      rw [normal, normal, List.append_assoc]
      apply ih
      rw [List.length_append, List.length_singleton]
      exact forward
    | up =>
      obtain rfl | ⟨names, a, rfl⟩ := List.eq_nil_or_concat' names
      · cases forward
      · rw [List.length_append, List.length_singleton] at forward
        rw [normal, normal, ← List.append_assoc, List.dropLast_concat, List.dropLast_concat]
        exact ih forward

theorem normal_forward (path : List α) {rest : List (Step α)} (forward : goesBack 0 rest = false) :
    normal path rest = path ++ normal [] rest := by
  have below : normal (path ++ []) rest = path ++ normal [] rest := normal_below path forward
  rwa [List.append_nil] at below

/-! ## Names only -/

/-- The walk along names, which takes any entry but a link for a directory. -/
def LinkTree.pass (t : LinkTree α) : List α → List α → Stop α (List α)
  | path, [] => .reached path
  | path, a :: rest =>
    match t (path ++ [a]) with
    | none => .failed
    | some (.link absolute target) => .link path absolute target rest
    | some _ => t.pass (path ++ [a]) rest

theorem LinkTree.pass_reached {t : LinkTree α} {path names out : List α}
    (h : t.pass path names = .reached out) : out = path ++ names := by
  induction names generalizing path with
  | nil =>
    cases h
    simp
  | cons a names ih =>
    unfold LinkTree.pass at h
    split at h
    · cases h
    · cases h
    · rw [ih h, List.append_assoc]
      rfl

/-- A path of directories, with no link on it. -/
def LinkTree.Real (t : LinkTree α) (path : List α) : Prop :=
  ∀ q, q <+: path → q ≠ [] → t q = some .directory

theorem LinkTree.Real.nil (t : LinkTree α) : t.Real [] := by
  intro q below nonempty
  exact absurd (List.prefix_nil.mp below) nonempty

theorem LinkTree.Real.up {t : LinkTree α} {path : List α} (real : t.Real path) :
    t.Real path.dropLast := by
  intro q below nonempty
  exact real q (below.trans (List.dropLast_prefix path)) nonempty

theorem LinkTree.Real.name {t : LinkTree α} {path : List α} {a : α} (real : t.Real path)
    (found : t (path ++ [a]) = some .directory) : t.Real (path ++ [a]) := by
  intro q below nonempty
  obtain rfl | below := List.prefix_concat_iff.mp below
  · exact found
  · exact real q below nonempty

theorem LinkTree.Real.pass_append {t : LinkTree α} (path : List α) {names : List α}
    (real : t.Real (path ++ names)) (more : List α) :
    t.pass path (names ++ more) = t.pass (path ++ names) more := by
  induction names generalizing path with
  | nil => simp
  | cons a names ih =>
    have assoc : path ++ a :: names = path ++ [a] ++ names := by simp
    rw [assoc] at real ⊢
    have found := real (path ++ [a]) (List.prefix_append _ _) (by simp)
    rw [List.cons_append, LinkTree.pass, found]
    exact ih _ real

theorem LinkTree.Real.pass {t : LinkTree α} {path : List α} (real : t.Real path) (more : List α) :
    t.pass [] (path ++ more) = t.pass path more :=
  LinkTree.Real.pass_append [] real more

/-- Names that lead to a directory lead through directories. -/
theorem LinkTree.Real.along {t : LinkTree α} (sound : t.Sound) {path names out : List α}
    (real : t.Real path) (h : t.pass path names = .reached out)
    (directory : names ≠ [] → t (path ++ names) = some .directory) : t.Real (path ++ names) := by
  induction names generalizing path with
  | nil => rwa [List.append_nil]
  | cons a names ih =>
    have assoc : path ++ a :: names = path ++ [a] ++ names := by simp
    have found := directory (List.cons_ne_nil a names)
    rw [assoc] at found ⊢
    have here : t (path ++ [a]) = some .directory := by
      cases names with
      | nil => rwa [List.append_nil] at found
      | cons b names =>
        unfold LinkTree.pass at h
        cases entry : t (path ++ [a]) with
        | none =>
          rw [entry] at h
          cases h
        | some kind =>
          rw [entry] at h
          cases kind with
          | directory => rfl
          | link absolute target => cases h
          | other =>
            simp only [LinkTree.pass, sound _ b (List.concat_ne_nil _ _) entry] at h
            cases h
    rw [LinkTree.pass, here] at h
    exact ih (real.name here) h fun _ => found

/-- No step up takes back the name of something that is no directory, and what is no directory
has nothing after it but names. -/
def LinkTree.straight (t : LinkTree α) : List α → List (Step α) → Bool
  | _, [] => true
  | path, .stay :: rest => t.straight path rest
  | path, .up :: rest => t.straight path.dropLast rest
  | path, .name a :: rest =>
    match t (path ++ [a]) with
    | some .directory => t.straight (path ++ [a]) rest
    | some .other => rest.isEmpty || (!goesBack 0 rest && !(normal [] rest).isEmpty)
    | some (.link _ _) => !goesBack 0 rest
    | none => !goesBack 0 rest

def Stop.map {ρ σ : Type} (f : ρ → σ) : Stop α ρ → Stop α σ
  | .reached path => .reached path
  | .link path absolute target rest => .link path absolute target (f rest)
  | .failed => .failed

theorem LinkTree.steps_none {t : LinkTree α} {path : List α} {a : α} (rest : List (Step α))
    (missing : t (path ++ [a]) = none) : t.steps path true (.name a :: rest) = .failed := by
  rw [LinkTree.steps, missing]

theorem LinkTree.steps_file {t : LinkTree α} {path : List α} {a : α} {rest : List (Step α)}
    (more : rest ≠ []) (file : t (path ++ [a]) = some .other) :
    t.steps path true (.name a :: rest) = .failed := by
  cases rest with
  | nil => exact absurd rfl more
  | cons x rest =>
    rw [LinkTree.steps, file]
    rfl

/-- Names only, in the normal form of a straight path, make the walk's way. -/
theorem LinkTree.pass_normal {t : LinkTree α} (sound : t.Sound) {path : List α}
    {todo : List (Step α)} (real : t.Real path) (straight : t.straight path todo) :
    t.pass [] (normal path todo) = (t.steps path true todo).map (normal []) := by
  induction todo generalizing path with
  | nil =>
    have there := real.pass []
    rwa [List.append_nil] at there
  | cons x todo ih =>
    cases x with
    | stay => exact ih real straight
    | up => exact ih real.up straight
    | name a =>
      rw [normal]
      -- What follows an entry that is no directory stays behind it in the normal form.
      have ahead (forward : goesBack 0 todo = false) :
          t.pass [] (normal (path ++ [a]) todo) = t.pass path (a :: normal [] todo) := by
        rw [normal_forward (path ++ [a]) forward, List.append_assoc, real.pass]
        rfl
      cases found : t (path ++ [a]) with
      | none =>
        simp only [LinkTree.straight, found, Bool.not_eq_true'] at straight
        rw [ahead straight, LinkTree.steps_none todo found, LinkTree.pass, found]
        rfl
      | some entry =>
        cases entry with
        | directory =>
          simp only [LinkTree.straight, found] at straight
          rw [ih (real.name found) straight, LinkTree.steps, found]
        | link absolute target =>
          simp only [LinkTree.straight, found, Bool.not_eq_true'] at straight
          rw [ahead straight, LinkTree.pass, LinkTree.steps, found]
          rfl
        | other =>
          simp only [LinkTree.straight, found, Bool.or_eq_true, List.isEmpty_iff, Bool.and_eq_true,
            Bool.not_eq_true', List.isEmpty_eq_false_iff] at straight
          obtain rfl | ⟨forward, more⟩ := straight
          · rw [normal, real.pass, LinkTree.pass, LinkTree.steps, found]
            rfl
          · have unfinished : todo ≠ [] := by
              rintro rfl
              exact more rfl
            obtain ⟨b, names, names_eq⟩ := List.exists_cons_of_ne_nil more
            rw [ahead forward, LinkTree.steps_file unfinished found, names_eq, LinkTree.pass, found]
            simp only [LinkTree.pass, sound _ b (List.concat_ne_nil _ _) found]
            rfl

/-- The link at which a walk of `todo` from `path` stops. -/
structure LinkTree.Met (t : LinkTree α) (path : List α) (todo : List (Step α)) (q : List α)
    (absolute : Bool) (target rest : List (Step α)) : Prop where
  real : t.Real q
  forward : goesBack 0 rest = false
  found : ∃ a, t (q ++ [a]) = some (.link absolute target)
  names : ∀ a ∈ q, a ∈ path ∨ Step.name a ∈ todo
  suffix : rest <:+ todo

theorem LinkTree.steps_link {t : LinkTree α} {path q : List α} {todo target rest : List (Step α)}
    (real : t.Real path) (straight : t.straight path todo)
    (h : t.steps path true todo = .link q absolute target rest) :
    t.Met path todo q absolute target rest := by
  induction todo generalizing path with
  | nil => cases h
  | cons x todo ih =>
    have longer {path' : List α} (met : t.Met path' todo q absolute target rest)
        (names : ∀ a ∈ path', a ∈ path ∨ Step.name a ∈ x :: todo) :
        t.Met path (x :: todo) q absolute target rest := by
      refine ⟨met.real, met.forward, met.found, ?_, met.suffix.trans (List.suffix_cons x todo)⟩
      intro a member
      obtain before | later := met.names a member
      · exact names a before
      · exact .inr (List.mem_cons_of_mem x later)
    cases x with
    | stay => exact longer (ih real straight h) fun a member => .inl member
    | up =>
      apply longer (ih real.up straight h)
      exact fun a member => .inl ((List.dropLast_sublist _).mem member)
    | name a =>
      cases found : t (path ++ [a]) with
      | none =>
        rw [LinkTree.steps_none todo found] at h
        cases h
      | some entry =>
        simp only [LinkTree.straight, found] at straight
        cases entry with
        | directory =>
          rw [LinkTree.steps, found] at h
          apply longer (ih (real.name found) straight h)
          intro b member
          rw [List.mem_append, List.mem_singleton] at member
          obtain before | rfl := member
          · exact .inl before
          · exact .inr List.mem_cons_self
        | link absolute target =>
          rw [LinkTree.steps, found] at h
          cases h
          exact ⟨real, by simpa using straight, ⟨a, found⟩, fun b member => .inl member,
            List.suffix_cons _ _⟩
        | other =>
          by_cases unfinished : todo = []
          · subst unfinished
            rw [LinkTree.steps, found] at h
            cases h
          · rw [LinkTree.steps_file unfinished found] at h
            cases h

theorem LinkTree.Real.origin {t : LinkTree α} {path : List α} (real : t.Real path)
    (absolute : Bool) : t.Real (origin path absolute) := by
  cases absolute with
  | false => exact real
  | true => exact LinkTree.Real.nil t

theorem LinkTree.Along.holds {t : LinkTree α} {holds : List α → List (Step α) → Bool}
    {path : List α} {todo : List (Step α)} (along : t.Along holds links path todo) :
    holds path todo := by
  rw [LinkTree.Along, Bool.and_eq_true] at along
  exact along.1

theorem LinkTree.Along.link {t : LinkTree α} {holds : List α → List (Step α) → Bool}
    {path q : List α} {todo target rest : List (Step α)}
    (along : t.Along holds (links + 1) path todo)
    (h : t.steps path true todo = .link q absolute target rest) :
    t.Along holds links (Lib.origin q absolute) (target ++ rest) := by
  rw [LinkTree.Along, Bool.and_eq_true, h] at along
  exact along.2

/-! ## Chains of links -/

end Linuxemu.Lib
