import Linuxemu.PathSteps

/-! The walk that `guest_path.c` stands in for: every component looked up in the directory the
walk has got to. The code takes `..` back in the text, at the start and after every link, so it
makes the walk's way where no `..` comes after anything but a directory. -/
namespace Linuxemu.Path
open Lib
variable {path names : List Text} {todo : List (Step Text)}
variable {rest : List Text} {parent target c : Text} {allow : Bool}

/-! ## The host's tree -/

/-- What the two calls of the code say of a path below the root. -/
def tree (p : Paths) : LinkTree Text := fun path =>
  let hostPath := p.rootPath ++ absolute path
  match p.host.lstat hostPath with
  | .error _ => none
  | .ok .directory => some .directory
  | .ok .symlink =>
    match p.host.readlink hostPath with
    | .error _ => none
    | .ok target => some (.link (target.head? == some slash) (steps target))
  | .ok .regular | .ok .special => some .other

/-- What holds of the files of every host. -/
structure HostTree.Lawful (h : HostTree) (f : HostFiles) (pathMax : Nat) : Prop where
  stat : ∀ {path : Text} {kind : FileKind}, h.lstat path = .ok kind → kind ≠ .symlink →
    f.stat path = .ok kind
  below : ∀ {path : Text} {kind : FileKind}, h.lstat path = .ok kind → kind ≠ .directory →
    kind ≠ .symlink → ∀ rest, ∃ e, h.lstat (path ++ slash :: rest) = .error e
  target : ∀ {path text : Text}, h.readlink path = .ok text → text.length < pathMax

variable {f : HostFiles} {p : Paths}

theorem walk_nil (p : Paths) (parent : Text) : walk p allow parent [] = .done := by
  rw [walk, if_pos rfl]

/-- One component of a pass. -/
theorem walk_cons (plain : Plain c) (cs : List Text) :
    walk p allow parent (joined (c :: cs)) =
      if p.pathMax < c.length + 1 then .fail .enametoolong
      else if p.pathMax ≤ (p.rootPath ++ parent ++ slash :: c).length then .fail .enametoolong
      else match p.host.lstat (p.rootPath ++ parent ++ slash :: c) with
        | .error e => if allow && cs.isEmpty && e == .enoent then .done else .fail e
        | .ok .symlink =>
          match p.host.readlink (p.rootPath ++ parent ++ slash :: c) with
          | .error e => .fail e
          | .ok full =>
            if (full.take (p.pathMax - 1)).head? = some slash then
              .link (full.take (p.pathMax - 1) ++ rendered cs)
            else
              .link ((if parent = [] then [slash] else parent) ++
                slash :: full.take (p.pathMax - 1) ++ rendered cs)
        | .ok _ =>
          if p.pathMax - parent.length ≤ c.length + 1 then .fail .enametoolong
          else walk p allow (parent ++ slash :: c) (joined cs) := by
  have take : (c ++ rendered cs).takeWhile (· != slash) = c := by
    cases cs with
    | nil => rw [rendered, List.flatMap_nil, List.append_nil, takeWhile_no_slash plain.2.1]
    | cons d ds => rw [rendered_cons, takeWhile_slash plain.2.1]
  have drop : (c ++ rendered cs).dropWhile (· != slash) = rendered cs := by
    cases cs with
    | nil => rw [rendered, List.flatMap_nil, List.append_nil, dropWhile_no_slash plain.2.1]
    | cons d ds => rw [rendered_cons, dropWhile_slash plain.2.1]
  have ending : (rendered cs).isEmpty = cs.isEmpty := by
    cases cs with
    | nil => rfl
    | cons d ds => rfl
  have remaining : (if cs.isEmpty then [] else slash :: (rendered cs).drop 1) = rendered cs := by
    cases cs with
    | nil => rfl
    | cons d ds => rfl
  have last (parent : Text) : (if cs.isEmpty then Walk.done
      else walk p allow parent ((rendered cs).drop 1)) = walk p allow parent (joined cs) := by
    cases cs with
    | nil => exact (walk_nil p parent).symm
    | cons d ds =>
      rw [rendered_cons]
      rfl
  have started : c ++ rendered cs ≠ [] := fun empty => plain.1 (List.append_eq_nil_iff.mp empty).1
  rw [joined_cons, walk, if_neg started]
  simp only [take, drop, ending]
  cases p.host.lstat (p.rootPath ++ parent ++ slash :: c) with
  | error e => rfl
  | ok kind =>
    cases kind with
    | symlink =>
      cases p.host.readlink (p.rootPath ++ parent ++ slash :: c) with
      | error e => rfl
      | ok full => simp only [remaining]
    | regular | directory | special => simp only [last]

/-- One component of a pass whose host path fits. -/
theorem walk_component (plain : Plain c) (cs : List Text)
    (fits : (p.rootPath ++ parent ++ slash :: c).length < p.pathMax) :
    walk p false parent (joined (c :: cs)) =
      match p.host.lstat (p.rootPath ++ parent ++ slash :: c) with
      | .error e => .fail e
      | .ok .symlink =>
        match p.host.readlink (p.rootPath ++ parent ++ slash :: c) with
        | .error e => .fail e
        | .ok full =>
          if (full.take (p.pathMax - 1)).head? = some slash then
            .link (full.take (p.pathMax - 1) ++ rendered cs)
          else
            .link ((if parent = [] then [slash] else parent) ++
              slash :: full.take (p.pathMax - 1) ++ rendered cs)
      | .ok _ => walk p false (parent ++ slash :: c) (joined cs) := by
  have lengths := fits
  simp only [List.length_append, List.length_cons] at lengths
  have roomy : ¬ p.pathMax - parent.length ≤ c.length + 1 := by omega
  rw [walk_cons plain, if_neg (by omega), if_neg (Nat.not_le.mpr fits)]
  simp only [if_neg roomy, Bool.false_and, Bool.false_eq_true, if_false]

/-! ## One pass -/

/-- What a pass leaves to `normalize_guest_path` at a link. -/
structure Restart (p : Paths) (text : Text) (names : List Text) : Prop where
  slashed : text.head? = some slash
  short : text.length < 2 * p.pathMax
  normal : normal [] (steps text) = names

/-- The pass of the code ends as the walk along the names does. -/
inductive Ends (p : Paths) : Stop Text (List Text) → Walk → Prop
  | reached (path : List Text) : Ends p (.reached path) .done
  | failed (e : Errno) : Ends p .failed (.fail e)
  | link {path rest : List Text} {target : List (Step Text)} {absolute : Bool} {text : Text}
      (restart : Restart p text (normal (origin path absolute) target ++ rest)) :
      Ends p (.link path absolute target rest) (.link text)

theorem restart_absolute (plain : ∀ c ∈ rest, Plain c) (slashed : target.head? = some slash)
    (short : target.length < p.pathMax) (fits : (rendered rest).length < p.pathMax) :
    Restart p (target ++ rendered rest) (normal (origin path true) (steps target) ++ rest) := by
  constructor
  · rw [List.head?_append, slashed]
    rfl
  · rw [List.length_append]
    omega
  · exact normal_steps_rendered plain [] target

theorem restart_relative (plainPath : ∀ c ∈ path, Plain c) (plain : ∀ c ∈ rest, Plain c)
    (short : target.length < p.pathMax)
    (fits : (rendered path ++ rendered rest).length + 2 < p.pathMax) :
    Restart p (absolute path ++ slash :: target ++ rendered rest)
      (normal (origin path false) (steps target) ++ rest) := by
  constructor
  · rfl
  · have := absolute_length path
    simp only [List.length_append, List.length_cons] at fits ⊢
    omega
  · rw [normal_steps_rendered plain, normal_steps_append, normal_steps_absolute plainPath]
    rfl

/-- A pass over names that fit below the root. -/
theorem walk_ends (lawful : p.host.Lawful f p.pathMax) (rooted : p.rootPath ≠ []) (path : List Text)
    (plainPath : ∀ c ∈ path, Plain c) (plain : ∀ c ∈ names, Plain c)
    (fits : (p.rootPath ++ rendered (path ++ names)).length < p.pathMax) :
    Ends p ((tree p).pass path names) (walk p false (rendered path) (joined names)) := by
  induction names generalizing path with
  | nil =>
    rw [joined, walk_nil]
    exact .reached path
  | cons c names ih =>
    have first := plain c List.mem_cons_self
    have rest (d : Text) (member : d ∈ names) := plain d (List.mem_cons_of_mem c member)
    have assoc : path ++ c :: names = path ++ [c] ++ names := by simp
    rw [assoc, rendered_append, rendered_concat] at fits
    have room := List.length_pos_iff.mpr rooted
    have lengths := fits
    simp only [List.length_append, List.length_cons] at lengths
    have here : p.rootPath ++ absolute (path ++ [c]) =
        p.rootPath ++ rendered path ++ slash :: c := by
      rw [absolute_concat, List.append_assoc]
    rw [walk_component first names (by simp only [List.length_append, List.length_cons]; omega)]
    -- The rest of the pass, for an entry that is no link.
    have onward : Ends p ((tree p).pass (path ++ [c]) names)
        (walk p false (rendered path ++ slash :: c) (joined names)) := by
      rw [← rendered_concat]
      apply ih _ _ rest
      · rwa [rendered_append, rendered_concat]
      · exact List.forall_mem_append.mpr ⟨plainPath, List.forall_mem_singleton.mpr first⟩
    cases found : p.host.lstat (p.rootPath ++ rendered path ++ slash :: c) with
    | error e =>
      simp only [LinkTree.pass, tree, here, found]
      exact .failed e
    | ok kind =>
      cases kind with
      | regular => simpa only [LinkTree.pass, tree, here, found] using onward
      | directory => simpa only [LinkTree.pass, tree, here, found] using onward
      | special => simpa only [LinkTree.pass, tree, here, found] using onward
      | symlink =>
        cases text : p.host.readlink (p.rootPath ++ rendered path ++ slash :: c) with
        | error e =>
          simp only [LinkTree.pass, tree, here, found, text]
          exact .failed e
        | ok target =>
          have short := lawful.target text
          simp only [LinkTree.pass, tree, here, found, text, parent_absolute,
            List.take_of_length_le (Nat.le_sub_one_of_lt short)]
          by_cases slashed : target.head? = some slash
          · rw [if_pos slashed, slashed, beq_self_eq_true]
            exact .link (restart_absolute rest slashed short (by omega))
          · rw [if_neg slashed, beq_eq_false_iff_ne.mpr slashed]
            apply Ends.link
            apply restart_relative plainPath rest short
            rw [List.length_append]
            omega

/-! ## Whole resolutions -/

/-- What the code needs of a path, at first and after every link: that it is straight, and that
its normal form fits below the root. -/
def ready (p : Paths) (path : List Text) (todo : List (Step Text)) : Bool :=
  (tree p).straight path todo &&
    decide ((p.rootPath ++ absolute (normal path todo)).length < p.pathMax)

theorem tree_sound (lawful : p.host.Lawful f p.pathMax) : (tree p).Sound := by
  intro path a nonempty file
  obtain rfl | ⟨path, c, rfl⟩ := List.eq_nil_or_concat' path
  · exact absurd rfl nonempty
  have other : ∃ kind, p.host.lstat (p.rootPath ++ absolute (path ++ [c])) = .ok kind ∧
      kind ≠ .directory ∧ kind ≠ .symlink := by
    unfold tree at file
    dsimp only at file
    split at file
    · cases file
    · cases file
    · split at file
      · cases file
      · cases file
    · rename_i found
      exact ⟨_, found, by decide, by decide⟩
    · rename_i found
      exact ⟨_, found, by decide, by decide⟩
  obtain ⟨kind, found, notDirectory, notLink⟩ := other
  obtain ⟨e, missing⟩ := lawful.below found notDirectory notLink a
  have below : p.rootPath ++ absolute (path ++ [c]) ++ slash :: a =
      p.rootPath ++ absolute (path ++ [c] ++ [a]) := by
    rw [absolute_concat (path ++ [c]), rendered_concat, absolute_concat, List.append_assoc]
  rw [below] at missing
  simp only [tree, missing]

theorem tree_link {absolute : Bool} {target : List (Step Text)}
    (found : tree p path = some (.link absolute target)) : ∃ text, target = steps text := by
  unfold tree at found
  dsimp only at found
  split at found
  · cases found
  · cases found
  · split at found
    · cases found
    · rename_i text _
      cases found
      exact ⟨text, rfl⟩
  · cases found
  · cases found

theorem ready_straight (h : ready p path todo) : (tree p).straight path todo := by
  rw [ready, Bool.and_eq_true] at h
  exact h.1

theorem ready_fits (h : ready p path todo) :
    (p.rootPath ++ absolute (normal path todo)).length < p.pathMax := by
  rw [ready, Bool.and_eq_true, decide_eq_true_iff] at h
  exact h.2

theorem steps_ends (lawful : p.host.Lawful f p.pathMax) (rooted : p.rootPath ≠ [])
    (plain : ∀ c ∈ path, Plain c) (named : ∀ c, Step.name c ∈ todo → Plain c)
    (real : (tree p).Real path) (h : ready p path todo) :
    Ends p (((tree p).steps path true todo).map (normal []))
      (walk p false [] (joined (normal path todo))) := by
  rw [← LinkTree.pass_normal (tree_sound lawful) real (ready_straight h)]
  apply walk_ends lawful rooted [] (by simp) (normal_plain plain named)
  have := ready_fits h
  have := rendered_length (normal path todo)
  simp only [List.length_append, List.nil_append] at *
  omega

/-- What a pass leaves at a link is the rest of the walk, in normal form. -/
theorem restart_fits {text : Text} (restart : Restart p text names)
    (fits : (p.rootPath ++ absolute names).length < p.pathMax) :
    normalizeGuestPath p (some text) p.pathMax = .ok (absolute names) := by
  have scanned : combined p text = text := if_pos restart.slashed
  have nonempty : text ≠ [] := by
    rintro rfl
    cases restart.slashed
  simp only [List.length_append, absolute, List.length_cons] at fits
  apply normalizeGuestPath_fits nonempty
  · rw [scanned]
    exact restart.short
  · rw [scanned, componentLoop_normal]
    exact restart.normal
  · simp only [absolute, List.length_cons]
    omega
  · omega

/-- The code has the object that the walk reaches, or neither has one. -/
inductive Resolves (p : Paths) : Option (List Text) → Result → Prop
  | found {object : List Text} (fits : (p.rootPath ++ absolute object).length < p.pathMax) :
      Resolves p (some object) (.ok (absolute object))
  | missing (e : Option Errno) : Resolves p none (.error e)

/-- The restarts of the code make the way of the walk. -/
theorem restartLoop_walk (lawful : p.host.Lawful f p.pathMax) (rooted : p.rootPath ≠ [])
    {links : Nat} (plain : ∀ c ∈ path, Plain c) (named : ∀ c, Step.name c ∈ todo → Plain c)
    (real : (tree p).Real path) (along : (tree p).Along (ready p) links path todo) :
    Resolves p ((tree p).walk links path todo)
      (restartLoop p false links (absolute (normal path todo))) := by
  induction links using Nat.strong_induction_on generalizing path todo with
  | _ links ih =>
    have here := LinkTree.Along.holds along
    have ends := steps_ends lawful rooted plain named real here
    have pass := LinkTree.pass_normal (tree_sound lawful) real (ready_straight here)
    have cursor : (absolute (normal path todo)).drop 1 = joined (normal path todo) := rfl
    rw [restartLoop, LinkTree.walk, cursor]
    cases stop : (tree p).steps path true todo with
    | reached out =>
      rw [stop] at ends pass
      generalize walk p false [] (joined (normal path todo)) = result at ends
      cases ends
      rw [LinkTree.pass_reached pass]
      exact .found (ready_fits here)
    | failed =>
      rw [stop] at ends
      generalize walk p false [] (joined (normal path todo)) = result at ends
      cases ends
      exact .missing _
    | link q absolute target rest =>
      rw [stop] at ends
      generalize walk p false [] (joined (normal path todo)) = result at ends
      cases ends with
      | link restart =>
        cases links with
        | zero => exact .missing _
        | succ links =>
          have met := LinkTree.steps_link real (ready_straight here) stop
          have next := LinkTree.Along.link along stop
          have onward : normal (origin q absolute) target ++ normal [] rest =
              normal (origin q absolute) (target ++ rest) := by
            rw [normal_append, normal_forward (normal _ target) met.forward]
          rw [onward] at restart
          simp only [restart_fits restart (ready_fits (LinkTree.Along.holds next))]
          rw [if_neg (Nat.not_le.mpr restart.short)]
          apply ih links (Nat.lt_succ_self links) _ _ (met.real.origin absolute) next
          · intro c member
            cases absolute with
            | true => exact absurd member List.not_mem_nil
            | false => exact (met.names c member).elim (plain c) (named c)
          · intro c member
            obtain ⟨a, found⟩ := met.found
            obtain ⟨text, rfl⟩ := tree_link found
            rw [List.mem_append] at member
            exact member.elim mem_steps fun later => named c (met.suffix.mem later)

/-- The directory in which a walk starts. -/
def start (p : Paths) (path : Text) : List Text :=
  origin (normal [] (steps p.guestCwd)) (path.head? == some slash)

/-- The walk of a kernel, to an object below the root. -/
def linuxWalk (p : Paths) (path : Text) : Option (List Text) :=
  if path = [] then none else (tree p).walk 40 (start p path) (steps path)

theorem combined_normal (p : Paths) (path : Text) :
    componentLoop (combined p path) [] = normal (start p path) (steps path) := by
  rw [componentLoop_normal, combined, start]
  by_cases slashed : path.head? = some slash
  · rw [if_pos slashed, slashed, beq_self_eq_true]
    rfl
  · rw [if_neg slashed, beq_eq_false_iff_ne.mpr slashed, normal_steps_append]
    rfl

theorem Canonical.real {cs : List Text}
    (lawful : p.host.Lawful f p.pathMax) (rooted : p.rootPath ≠ []) (h : Canonical f p cs) :
    (tree p).Real cs := by
  have fits : (p.rootPath ++ rendered ([] ++ cs)).length < p.pathMax := by
    have := h.fits
    have := rendered_length cs
    simp only [List.length_append, List.nil_append] at *
    omega
  have ends := walk_ends lawful rooted [] nofun h.plain fits
  have linkless : walk p false (rendered []) (joined cs) = .done := h.linkless
  rw [linkless] at ends
  have reached : ∃ out, (tree p).pass [] cs = .reached out := by
    generalize (tree p).pass [] cs = stop at ends
    cases ends with
    | reached out => exact ⟨out, rfl⟩
  obtain ⟨out, reached⟩ := reached
  apply LinkTree.Real.along (tree_sound lawful) (LinkTree.Real.nil _) reached
  intro nonempty
  -- The last component was seen, and `stat` calls it a directory.
  obtain ⟨kind, found, noLink⟩ | ⟨absurd, -⟩ := walk_done h.plain h.linkless cs.length
    (List.length_pos_iff.mpr nonempty) (Nat.le_refl _)
  · rw [List.append_nil, List.take_length] at found
    have same := (lawful.stat found noLink).symm.trans h.directory
    cases same
    simp only [tree, List.nil_append, found]
  · cases absurd

/-- The working directory of a run is a directory with no link on its way. -/
theorem Stored.real (lawful : p.host.Lawful f p.pathMax)
    (stored : Stored f p) : (tree p).Real (normal [] (steps p.guestCwd)) := by
  have moved {p q : Paths} {path : Option Text} (lawful : q.host.Lawful f q.pathMax)
      (rooted : q.rootPath ≠ []) (done : guestPathChdir f p path = .ok q) :
      (tree q).Real (normal [] (steps q.guestCwd)) := by
    obtain ⟨cs, rfl, canonical⟩ := chdir_canonical done
    rw [normal_steps_absolute canonical.plain]
    exact (canonical.cwd _).real lawful rooted
  have rooted := stored.rooted
  cases stored with
  | boot _ cwd =>
    rw [cwd, normal_steps_slash, normal_steps_nil]
    exact LinkTree.Real.nil _
  | chdir before done => exact moved lawful rooted done
  | fchdir before done =>
    obtain ⟨path, done⟩ := fchdir_chdir done
    exact moved lawful rooted done

theorem resolveGuestDevice_none (plain : ∀ c ∈ names, Plain c)
    (other : names ≠ [bytes "dev", bytes "null"]) (size : Nat) :
    resolveGuestDevice (absolute names) size = none := by
  rw [resolveGuestDevice_none_iff]
  intro same
  have scanned := normal_steps_absolute plain
  rw [same] at scanned
  exact other (scanned.symm.trans (by decide +kernel))

/-- A link to a directory elsewhere, and two files of one name. -/
def linkedTree : HostTree where
  lstat path :=
    if path = bytes "/root/x" ∨ path = bytes "/root/x/y" then .ok .directory
    else if path = bytes "/root/a" then .ok .symlink
    else if path = bytes "/root/f" ∨ path = bytes "/root/x/f" then .ok .regular
    else .error .enoent
  readlink path := if path = bytes "/root/a" then .ok (bytes "/x/y") else .error .einval

def linkedFiles : HostFiles where
  stat path := if path = bytes "/root/a" then .ok .directory else linkedTree.lstat path
  realpath path := .ok path

theorem linkedTree_below {file : Text} (apart : ∀ entry ∈ [bytes "/root/x", bytes "/root/x/y",
      bytes "/root/a", bytes "/root/f", bytes "/root/x/f"], ¬ file ++ [slash] <+: entry)
    (rest : Text) : linkedTree.lstat (file ++ slash :: rest) = .error .enoent := by
  have other {entry : Text} (h : ¬ file ++ [slash] <+: entry) :
      ¬ file ++ slash :: rest = entry := by
    rintro rfl
    exact h ⟨rest, by simp⟩
  simp only [List.forall_mem_cons] at apart
  obtain ⟨x, y, a, f, g, -⟩ := apart
  simp only [linkedTree, other x, other y, other a, other f, other g, or_self, if_false]

theorem linkedTree_lawful : linkedTree.Lawful linkedFiles 1024 := by
  constructor
  · intro path kind found noLink
    have other : path ≠ bytes "/root/a" := by
      rintro rfl
      exact absurd (Except.ok.inj (found.symm.trans (by decide +kernel))) noLink
    simp only [linkedFiles, if_neg other]
    exact found
  · intro path kind found notDirectory notLink rest
    simp only [linkedTree] at found
    split at found
    · exact absurd (Except.ok.inj found).symm notDirectory
    split at found
    · exact absurd (Except.ok.inj found).symm notLink
    split at found
    · rename_i file
      refine ⟨.enoent, ?_⟩
      obtain rfl | rfl := file
      · exact linkedTree_below (by decide +kernel) rest
      · exact linkedTree_below (by decide +kernel) rest
    · cases found
  · intro path text found
    simp only [linkedTree] at found
    split at found
    · cases found
      decide +kernel
    · cases found

/-- `..` after a link, and after a directory that is not there. -/
theorem dots_after_link :
    let p : Paths := ⟨1024, bytes "/root", bytes "/", linkedTree⟩
    p.host.Lawful linkedFiles p.pathMax ∧ Stored linkedFiles p ∧
    guestPathResolve p (some (bytes "/a/../f")) false 1024 = .ok (bytes "/root/f") ∧
    linuxWalk p (bytes "/a/../f") = some [bytes "x", bytes "f"] ∧
    guestPathResolve p (some (bytes "/gone/../f")) false 1024 = .ok (bytes "/root/f") ∧
    linuxWalk p (bytes "/gone/../f") = none :=
  ⟨linkedTree_lawful, .boot (by decide +kernel) (by decide +kernel), by decide +kernel⟩

/-- Where every `..` comes after a directory, what the code resolves is what the walk reaches. -/
theorem resolve_walks (lawful : p.host.Lawful f p.pathMax)
    (stored : Stored f p) {path : Text} {size : Nat} (room : p.pathMax ≤ size)
    (short : (combined p path).length < 2 * p.pathMax)
    (other : normal (start p path) (steps path) ≠ [bytes "dev", bytes "null"])
    (along : (tree p).Along (ready p) 40 (start p path) (steps path)) :
    (guestPathResolve p (some path) false size).toOption =
      (linuxWalk p path).map (p.rootPath ++ absolute ·) := by
  have rooted := stored.rooted
  unfold guestPathResolve linuxWalk
  rw [if_neg rooted]
  by_cases empty : path = []
  · subst empty
    rfl
  · have named (text c : Text) (member : Step.name c ∈ steps text) : Plain c := mem_steps member
    have plain : ∀ c ∈ start p path, Plain c := by
      unfold start
      cases path.head? == some slash with
      | true => exact nofun
      | false => exact normal_plain nofun (named p.guestCwd)
    have real : (tree p).Real (start p path) := (stored.real lawful).origin _
    have resolves := restartLoop_walk lawful rooted plain (named path) real along
    have fits := ready_fits (LinkTree.Along.holds along)
    simp only [List.length_append] at fits
    have large : 2 ≤ p.pathMax := by
      simp only [absolute, List.length_cons] at fits
      omega
    rw [if_neg empty, normalizeGuestPath_fits empty short (combined_normal p path) (by omega) large]
    simp only [resolveGuestDevice_none (normal_plain plain (named path)) other size]
    unfold resolveGuestSymlinks
    rw [if_neg (by omega)]
    generalize restartLoop p false 40 _ = result at resolves ⊢
    generalize (tree p).walk 40 _ _ = reached at resolves ⊢
    cases resolves with
    | missing e => rfl
    | found fits =>
      have lengths := fits
      simp only [List.length_append] at lengths
      simp only
      rw [if_neg (by omega)]
      simp only
      rw [if_neg (Nat.not_le.mpr fits), if_neg (by omega)]
      rfl

/-- The link, by way of a directory and back. -/
theorem resolve_walks_linked :
    let p : Paths := ⟨1024, bytes "/root", bytes "/", linkedTree⟩
    linuxWalk p (bytes "x/../a") = some [bytes "x", bytes "y"] ∧
    (guestPathResolve p (some (bytes "x/../a")) false 1024).toOption =
      (linuxWalk p (bytes "x/../a")).map (p.rootPath ++ absolute ·) := by
  intro p
  constructor
  · decide +kernel
  · have stored : Stored linkedFiles p := .boot (by decide +kernel) (by decide +kernel)
    apply resolve_walks linkedTree_lawful stored (Nat.le_refl _)
    · decide +kernel
    · decide +kernel
    · decide +kernel

end Linuxemu.Path
