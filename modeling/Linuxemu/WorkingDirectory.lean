import Linuxemu.PathContainment

/-! The guest's working directory (`guest_path.c`). A path made of plain components is its
own normal form, and a path without links resolves to itself, so a directory that was
stored once is stored again by the path it was stored under. -/
namespace Linuxemu.Path
variable {p q : Paths} {f : HostFiles} {cs : List Text} {size : Nat} {path c : Text}

/-! ## Normal forms -/

theorem plain_start (plain : Plain c) (rest : Text) :
    (c ++ rest).dropWhile (· == slash) = c ++ rest := by
  obtain ⟨nonempty, noSlash, -⟩ := plain
  cases c with
  | nil => exact absurd rfl nonempty
  | cons b bs =>
    have other : ¬ b = slash := fun same => noSlash (same ▸ List.mem_cons_self)
    simp [other]

/-- One plain component of the scan. -/
theorem componentLoop_component {after : Text} (plain : Plain c) (components : List Text) :
    componentLoop (c ++ slash :: after) components = componentLoop after (components ++ [c]) := by
  rw [componentLoop]
  simp only [plain_start plain, takeWhile_slash plain.2.1, dropWhile_slash plain.2.1]
  rw [if_neg (by simp), if_neg plain.2.2.1, if_neg plain.2.2.2]
  rfl

theorem componentLoop_last (plain : Plain c) (components : List Text) :
    componentLoop c components = components ++ [c] := by
  have start := plain_start plain []
  rw [List.append_nil] at start
  rw [componentLoop]
  simp only [start, takeWhile_no_slash plain.2.1, dropWhile_no_slash plain.2.1, List.drop_nil]
  rw [if_neg plain.1, if_neg plain.2.2.1, if_neg plain.2.2.2, componentLoop]
  simp

theorem componentLoop_joined (plain : ∀ c ∈ cs, Plain c) (components : List Text) :
    componentLoop (joined cs) components = components ++ cs := by
  induction cs generalizing components with
  | nil =>
    rw [componentLoop]
    simp [joined]
  | cons c cs ih =>
    have first := plain c List.mem_cons_self
    cases cs with
    | nil => exact componentLoop_last first components
    | cons d ds =>
      have rest := ih (fun x member => plain x (List.mem_cons_of_mem c member)) (components ++ [c])
      rw [joined, componentLoop_component first, rest, List.append_assoc]
      rfl

theorem componentLoop_slash (cursor : Text) (components : List Text) :
    componentLoop (slash :: cursor) components = componentLoop cursor components := by
  rw [componentLoop, componentLoop.eq_def cursor]
  simp

theorem outputLoop_fits {output : Text} (fits : (output ++ joined cs).length < size) :
    outputLoop size output cs = .ok (output ++ joined cs) := by
  induction cs generalizing output with
  | nil => simp [outputLoop, joined]
  | cons c cs ih =>
    cases cs with
    | nil =>
      simp only [joined, List.length_append] at fits ih
      rw [outputLoop, if_neg (by simp; omega)]
      simp [outputLoop, joined]
    | cons d ds =>
      have same : output ++ joined (c :: d :: ds) = output ++ c ++ [slash] ++ joined (d :: ds) := by
        simp [joined]
      rw [same] at fits ⊢
      rw [outputLoop, if_neg]
      · exact ih fits
      · simp only [List.length_append, List.length_cons, List.length_nil] at fits
        simp
        omega

/-- The text that `normalize_guest_path` scans. -/
def combined (p : Paths) (path : Text) : Text :=
  if path.head? = some slash then path else p.guestCwd ++ slash :: path

theorem normalizeGuestPath_fits (nonempty : path ≠ [])
    (short : (combined p path).length < 2 * p.pathMax)
    (scanned : componentLoop (combined p path) [] = cs) (fits : (absolute cs).length < size)
    (large : 2 ≤ size) : normalizeGuestPath p (some path) size = .ok (absolute cs) := by
  cases path with
  | nil => exact absurd rfl nonempty
  | cons b path =>
    show (if 2 * p.pathMax ≤ (combined p (b :: path)).length then _ else if size < 2 then _
      else outputLoop size [slash] (componentLoop (combined p (b :: path)) [])) = _
    rw [if_neg (Nat.not_le.mpr short), scanned, if_neg (Nat.not_lt.mpr large)]
    exact outputLoop_fits fits

/-- What is accepted is the text of the components scanned. -/
theorem normalizeGuestPath_scanned {out : Text}
    (h : normalizeGuestPath p (some path) size = .ok out) :
    out = absolute (componentLoop (combined p path) []) := by
  cases path with
  | nil => cases h
  | cons b path =>
    change (if 2 * p.pathMax ≤ (combined p (b :: path)).length then _ else if size < 2 then _
      else outputLoop size [slash] (componentLoop (combined p (b :: path)) [])) = _ at h
    split at h
    · cases h
    · split at h
      · cases h
      · exact outputLoop_ok h

/-- The text of plain components is its own normal form. -/
theorem normalizeGuestPath_absolute (plain : ∀ c ∈ cs, Plain c) (fits : (absolute cs).length < size)
    (large : 2 ≤ size) (short : (absolute cs).length < 2 * p.pathMax) :
    normalizeGuestPath p (some (absolute cs)) size = .ok (absolute cs) := by
  have nonempty : absolute cs ≠ [] := List.cons_ne_nil _ _
  have head : combined p (absolute cs) = absolute cs := if_pos rfl
  have scanned : componentLoop (absolute cs) [] = cs := by
    rw [absolute, componentLoop_slash, componentLoop_joined plain]
    rfl
  apply normalizeGuestPath_fits nonempty _ _ fits large
  · rwa [head]
  · rwa [head]

/-! ## The root -/

theorem guestPathInitialize_ok {root : Text} (done : guestPathInitialize f p (some root) = .ok q) :
    f.realpath root = .ok q.rootPath ∧ q = { p with rootPath := q.rootPath } := by
  unfold guestPathInitialize at done
  split at done
  · rename_i none
    cases none
  · cases done
  · rename_i given _ same
    cases same
    split at done
    · cases done
    · rename_i path real
      cases done
      exact ⟨real, rfl⟩

theorem guestPathInitialize_real {root : Text} (p : Paths) (given : root ≠ [])
    (real : f.realpath root = .ok path) :
    guestPathInitialize f p (some root) = .ok { p with rootPath := path } := by
  unfold guestPathInitialize
  split
  · rename_i none
    cases none
  · rename_i empty
    exact absurd (Option.some.inj empty) given
  · rename_i root _ same
    cases same
    rw [real]

/-! ## Stored directories -/

/-- The working directories of a run: the root, and what `chdir` and `fchdir` store. -/
inductive Stored (f : HostFiles) : Paths → Prop
  | boot {p : Paths} (rooted : p.rootPath ≠ []) (cwd : p.guestCwd = [slash]) : Stored f p
  | chdir {p q : Paths} {path : Option Text} (before : Stored f p)
      (done : guestPathChdir f p path = .ok q) : Stored f q
  | fchdir {p q : Paths} {hostPath : Option Text} (before : Stored f p)
      (done : guestPathFchdir f p hostPath = .ok q) : Stored f q

/-- The path names a directory and has no link on its way. -/
structure Canonical (f : HostFiles) (p : Paths) (cs : List Text) : Prop where
  plain : ∀ c ∈ cs, Plain c
  large : 2 ≤ p.pathMax
  fits : (p.rootPath ++ absolute cs).length < p.pathMax
  linkless : walk p false [] (joined cs) = .done
  directory : f.stat (p.rootPath ++ absolute cs) = .ok .directory

theorem walk_cwd (p : Paths) (cwd : Text) (allow : Bool) (parent cursor : Text) :
    walk { p with guestCwd := cwd } allow parent cursor = walk p allow parent cursor := by
  induction length : cursor.length using Nat.strong_induction_on generalizing parent cursor with
  | _ n ih =>
    rw [walk, walk.eq_def p]
    by_cases empty : cursor = []
    · rw [if_pos empty, if_pos empty]
    · have shorter : ((cursor.dropWhile (· != slash)).drop 1).length < n := by
        have := (List.dropWhile_sublist (· != slash) (l := cursor)).length_le
        have := List.length_pos_iff.mpr empty
        simp only [List.length_drop]
        omega
      rw [if_neg empty, if_neg empty]
      dsimp only
      rw [ih _ shorter _ _ rfl]

/-- The pass that ended the resolution went over the path it returns. -/
theorem restartLoop_linkless {allow : Bool} {links : Nat} {current out : Text}
    (h : restartLoop p allow links current = .ok out) : walk p allow [] (out.drop 1) = .done := by
  induction links generalizing current with
  | zero =>
    rw [restartLoop] at h
    split at h
    · rename_i done
      cases h
      exact done
    · cases h
    · cases h
  | succ links ih =>
    rw [restartLoop] at h
    split at h
    · rename_i done
      cases h
      exact done
    · cases h
    · rename_i combined _
      by_cases long : 2 * p.pathMax ≤ combined.length
      · simp [long] at h
      · simp only [long, if_false] at h
        split at h
        · cases h
        · exact ih h

theorem Canonical.cwd (h : Canonical f p cs) (cwd : Text) :
    Canonical f { p with guestCwd := cwd } cs :=
  ⟨h.plain, h.large, h.fits, (walk_cwd p cwd false [] (joined cs)).trans h.linkless, h.directory⟩

/-- `chdir` to a canonical path stores that path. -/
theorem Canonical.chdir (h : Canonical f p cs) :
    guestPathChdir f p (some (absolute cs)) = .ok { p with guestCwd := absolute cs } := by
  have short : (absolute cs).length < p.pathMax := by
    have := h.fits
    rw [List.length_append] at this
    omega
  have normal : normalizeGuestPath p (some (absolute cs)) p.pathMax = .ok (absolute cs) :=
    normalizeGuestPath_absolute h.plain short h.large (by omega)
  have pass : walk p false [] ((absolute cs).drop 1) = .done := h.linkless
  have resolved : resolveGuestSymlinks p (absolute cs) false p.pathMax = .ok (absolute cs) := by
    rw [resolveGuestSymlinks, if_neg (by omega), restartLoop]
    simp only [pass]
    rw [if_neg (by omega)]
  rw [guestPathChdir]
  simp only [normal, resolved, h.directory]
  rw [if_neg (Nat.not_le.mpr h.fits), if_pos trivial]

theorem chdir_canonical {path : Option Text} (h : guestPathChdir f p path = .ok q) :
    ∃ cs, q = { p with guestCwd := absolute cs } ∧ Canonical f p cs := by
  unfold guestPathChdir at h
  split at h
  · cases h
  · rename_i normalized normal
    split at h
    · cases h
    · rename_i resolved ok
      dsimp only at h
      split at h
      · cases h
      · rename_i fits
        split at h
        · cases h
        · rename_i kind found
          split at h
          · rename_i directory
            cases h
            have loop := resolveGuestSymlinks_ok ok
            obtain ⟨cs, plain, rfl, -⟩ := restartLoop_ok (normalizeGuestPath_ok normal) loop
            have fits := Nat.not_le.mp fits
            have large : 2 ≤ p.pathMax := by
              have room : (p.rootPath ++ absolute cs).length < p.pathMax := fits
              simp only [absolute, List.length_append, List.length_cons] at room
              omega
            exact ⟨cs, rfl, plain, large, fits, restartLoop_linkless loop, directory ▸ found⟩
          · cases h

theorem fchdir_chdir {hostPath : Option Text} (h : guestPathFchdir f p hostPath = .ok q) :
    ∃ path, guestPathChdir f p path = .ok q := by
  unfold guestPathFchdir at h
  split at h
  · cases h
  · dsimp only at h
    split at h
    · cases h
    · split at h
      · cases h
      · exact ⟨_, h⟩

theorem Stored.rooted (h : Stored f p) : p.rootPath ≠ [] := by
  induction h with
  | boot rooted cwd => exact rooted
  | chdir before done ih =>
    obtain ⟨cs, rfl, -⟩ := chdir_canonical done
    exact ih
  | fchdir before done ih =>
    obtain ⟨path, done⟩ := fchdir_chdir done
    obtain ⟨cs, rfl, -⟩ := chdir_canonical done
    exact ih

/-- A root that is a directory, and whose path leaves room for its slash. -/
structure Rooted (f : HostFiles) (p : Paths) : Prop where
  directory : f.stat (p.rootPath ++ [slash]) = .ok .directory
  room : (p.rootPath ++ [slash]).length < p.pathMax

theorem Rooted.canonical (rooted : Rooted f p) : Canonical f p [] := by
  have room := rooted.room
  rw [List.length_append, List.length_singleton] at room
  refine ⟨nofun, by omega, rooted.room, ?_, rooted.directory⟩
  rw [joined, walk, if_pos rfl]

/-- `chdir` has made sure of it, so only the directory of the start has to be one. -/
theorem Stored.canonical (h : Stored f p) (known : Rooted f p ∨ p.guestCwd ≠ [slash]) :
    ∃ cs, p.guestCwd = absolute cs ∧ Canonical f p cs := by
  have moved {p q : Paths} {path : Option Text} (done : guestPathChdir f p path = .ok q) :
      ∃ cs, q.guestCwd = absolute cs ∧ Canonical f q cs := by
    obtain ⟨cs, rfl, canonical⟩ := chdir_canonical done
    exact ⟨cs, rfl, canonical.cwd _⟩
  cases h with
  | boot _ cwd => exact ⟨[], cwd, (known.resolve_right fun other => other cwd).canonical⟩
  | chdir before done => exact moved done
  | fchdir before done =>
    obtain ⟨path, done⟩ := fchdir_chdir done
    exact moved done

/-- The new process stores the directory of the old one again. -/
theorem Stored.chdir_again (h : Stored f p) (known : Rooted f p ∨ p.guestCwd ≠ [slash])
    (cwd : Text) : guestPathChdir f { p with guestCwd := cwd } (some p.guestCwd) = .ok p := by
  obtain ⟨cs, same, canonical⟩ := h.canonical known
  rw [same, (canonical.cwd cwd).chdir, ← same]

/-- A root whose path fills its buffer leaves room for no path below it. -/
theorem chdir_refused {path : Option Text} (full : p.pathMax ≤ p.rootPath.length + 1) :
    guestPathChdir f p path ≠ .ok q := by
  intro done
  obtain ⟨cs, -, canonical⟩ := chdir_canonical done
  have fits := canonical.fits
  simp only [absolute, List.length_append, List.length_cons] at fits
  omega

/-- A root whose path has the most bytes that `realpath` can store. -/
def deepRoot : Text := (List.replicate 511 (bytes "/a")).flatten ++ bytes "b"

def deepFiles : HostFiles where
  stat path :=
    if 1024 ≤ path.length then .error .enametoolong
    else if path = deepRoot then .ok .directory
    else .error .enoent
  realpath path := .ok path

end Linuxemu.Path
