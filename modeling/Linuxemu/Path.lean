import Linuxemu.Errno

/-! Path resolution of `guest_path.c`. A C string is the list of its bytes before
the terminating NUL; a failing call carries the `errno` it set, or none where the
source leaves `errno` as it is. -/
namespace Linuxemu.Path

abbrev Text := List UInt8

def bytes (s : String) : Text := s.toUTF8.toList

def slash : UInt8 := 47

inductive FileKind where
  | regular | directory | symlink | special
  deriving DecidableEq, Repr

/-- The host tree as the two calls of the walk show it while it does not change. -/
structure HostTree where
  lstat : Text → Except Errno FileKind
  readlink : Text → Except Errno Text

/-- The globals of `guest_path.c`, the host's `PATH_MAX` and its file tree. -/
structure Paths where
  pathMax : Nat
  rootPath : Text
  guestCwd : Text
  host : HostTree

abbrev Result := Except (Option Errno) Text

/-- The scanning loop of `normalize_guest_path`: `.` is skipped, `..` takes the
last component back. -/
def componentLoop (cursor : Text) (components : List Text) : List Text :=
  let start := cursor.dropWhile (· == slash)
  if start = [] then components
  else
    let component := start.takeWhile (· != slash)
    let rest := (start.dropWhile (· != slash)).drop 1
    if component = bytes "." then componentLoop rest components
    else if component = bytes ".." then componentLoop rest components.dropLast
    else componentLoop rest (components ++ [component])
termination_by cursor.length
decreasing_by all_goals
  have := (List.dropWhile_sublist (· == slash) (l := cursor)).length_le
  have := (List.dropWhile_sublist (· != slash) (l := cursor.dropWhile (· == slash))).length_le
  have := List.length_pos_iff.mpr (show cursor.dropWhile (· == slash) ≠ [] by assumption)
  simp only [List.length_drop]
  omega

/-- The output loop: components with a slash between them, as long as they fit. -/
def outputLoop (size : Nat) : Text → List Text → Except Errno Text
  | output, [] => .ok output
  | output, component :: rest =>
    if size ≤ output.length + component.length + (if rest = [] then 0 else 1) then
      .error .enametoolong
    else outputLoop size (output ++ component ++ if rest = [] then [] else [slash]) rest

/-- `path` is `none` for a null pointer. -/
def normalizeGuestPath (p : Paths) (path : Option Text) (size : Nat) : Except Errno Text :=
  match path with
  | none | some [] => .error .enoent
  | some path =>
    let combined := if path.head? = some slash then path else p.guestCwd ++ slash :: path
    if 2 * p.pathMax ≤ combined.length then .error .enametoolong
    else
      let components := componentLoop combined []
      if size < 2 then .error .erange
      else outputLoop size [slash] components

def devices : List Text := [bytes "/dev/null"]

/-- `none` when the path is no device. -/
def resolveGuestDevice (guestPath : Text) (hostPathSize : Nat) : Option Result :=
  (devices.find? (· == guestPath)).map fun device =>
    if hostPathSize < device.length + 1 then .error (some .enametoolong) else .ok device

/-- How one pass over the components ends: at the end of the path, at a link
whose target and remaining components are to be walked instead, or with an error. -/
inductive Walk where
  | done
  | link (combined : Text)
  | fail (errno : Errno)

/-- One pass of `resolve_guest_symlinks` from the label `restart`. -/
def walk (p : Paths) (allowMissingLeaf : Bool) (parent cursor : Text) : Walk :=
  if cursor = [] then .done
  else
    let component := cursor.takeWhile (· != slash)
    let tail := cursor.dropWhile (· != slash)
    let last := tail.isEmpty
    let after := tail.drop 1
    let hostCandidate := p.rootPath ++ parent ++ slash :: component
    if p.pathMax < component.length + 1 then .fail .enametoolong
    else if p.pathMax ≤ hostCandidate.length then .fail .enametoolong
    else match p.host.lstat hostCandidate with
      | .error e => if allowMissingLeaf && last && e == .enoent then .done else .fail e
      | .ok .symlink =>
        match p.host.readlink hostCandidate with
        | .error e => .fail e
        | .ok full =>
          let target := full.take (p.pathMax - 1)
          let remaining := if last then [] else slash :: after
          if target.head? = some slash then .link (target ++ remaining)
          else .link ((if parent = [] then [slash] else parent) ++ slash :: target ++ remaining)
      | .ok _ =>
        if p.pathMax - parent.length ≤ component.length + 1 then .fail .enametoolong
        else if last then .done
        else walk p allowMissingLeaf (parent ++ slash :: component) after
termination_by cursor.length
decreasing_by
  have := (List.dropWhile_sublist (· != slash) (l := cursor)).length_le
  have := List.length_pos_iff.mpr (show cursor ≠ [] by assumption)
  simp only [List.length_drop]
  omega

/-- The restarts; the link after `links` more of them is one too many. -/
def restartLoop (p : Paths) (allowMissingLeaf : Bool) : Nat → Text → Result
  | links, current =>
    match walk p allowMissingLeaf [] (current.drop 1) with
    | .done => .ok current
    | .fail e => .error (some e)
    | .link combined =>
      match links with
      | 0 => .error (some .eloop)
      | links + 1 =>
        if 2 * p.pathMax ≤ combined.length then .error none
        else match normalizeGuestPath p (some combined) p.pathMax with
          | .error e => .error (some e)
          | .ok current => restartLoop p allowMissingLeaf links current

def resolveGuestSymlinks (p : Paths) (normalized : Text) (allowMissingLeaf : Bool)
    (resolvedSize : Nat) : Result :=
  if p.pathMax < normalized.length + 1 then .error (some .enametoolong)
  else match restartLoop p allowMissingLeaf 40 normalized with
    | .error e => .error e
    | .ok current =>
      if resolvedSize < current.length + 1 then .error (some .enametoolong) else .ok current

def guestPathResolve (p : Paths) (path : Option Text) (allowMissingLeaf : Bool)
    (hostPathSize : Nat) : Result :=
  if p.rootPath = [] then .error none
  else match normalizeGuestPath p path p.pathMax with
    | .error e => .error (some e)
    | .ok guestPath =>
      match resolveGuestDevice guestPath hostPathSize with
      | some result => result
      | none =>
        match resolveGuestSymlinks p guestPath allowMissingLeaf p.pathMax with
        | .error e => .error e
        | .ok resolved =>
          let candidate := p.rootPath ++ resolved
          if p.pathMax ≤ candidate.length then .error (some .enametoolong)
          else if hostPathSize < candidate.length + 1 then .error (some .enametoolong)
          else .ok candidate

/-! ## The last component left alone -/

/-- What comes after the last slash. -/
def leafOf (guestPath : Text) : Text := (guestPath.reverse.takeWhile (· != slash)).reverse

/-- What comes before the last slash, or the root. -/
def parentOf (guestPath : Text) : Text :=
  let before := guestPath.take (guestPath.length - (leafOf guestPath).length - 1)
  if before = [] then [slash] else before

def guestPathResolveNofollow (p : Paths) (path : Option Text) (hostPathSize : Nat) : Result :=
  if p.rootPath = [] then .error none
  else match normalizeGuestPath p path p.pathMax with
    | .error e => .error (some e)
    | .ok guestPath =>
      match resolveGuestDevice guestPath hostPathSize with
      | some result => result
      | none =>
        if guestPath = [slash] then
          if hostPathSize < p.rootPath.length + 1 then .error (some .enametoolong)
          else .ok p.rootPath
        else match resolveGuestSymlinks p (parentOf guestPath) false p.pathMax with
          | .error e => .error e
          | .ok resolvedParent =>
            let between := if resolvedParent = [slash] then [] else [slash]
            let hostPath := p.rootPath ++ resolvedParent ++ between ++ leafOf guestPath
            if hostPathSize ≤ hostPath.length then .error (some .enametoolong) else .ok hostPath

/-- `host_directory` is the path a descriptor was opened by. -/
def guestPathResolveAt (p : Paths) (hostDirectory path : Option Text)
    (allowMissingLeaf nofollow : Bool) (hostPathSize : Nat) : Result :=
  let resolve (path : Text) : Result :=
    if nofollow then guestPathResolveNofollow p (some path) hostPathSize
    else guestPathResolve p (some path) allowMissingLeaf hostPathSize
  match path with
  | none | some [] => .error (some .enoent)
  | some path =>
    if path.head? = some slash then resolve path
    else match hostDirectory with
      | none => .error (some .ebadf)
      | some hostDirectory =>
        let after := hostDirectory.drop p.rootPath.length
        if p.rootPath = [] then .error (some .ebadf)
        else if hostDirectory.take p.rootPath.length ≠ p.rootPath ∨
            (after ≠ [] ∧ after.head? ≠ some slash) then
          .error (some .eacces)
        else
          let combined := (if after = [] then [slash] else after) ++ slash :: path
          if 2 * p.pathMax ≤ combined.length then .error (some .enametoolong)
          else resolve combined

/-! ## The working directory -/

/-- What else the host says of its files while they do not change. -/
structure HostFiles where
  stat : Text → Except Errno FileKind
  realpath : Text → Except Errno Text

def guestPathInitialize (f : HostFiles) (p : Paths) (root : Option Text) : Except Errno Paths :=
  match root with
  | none | some [] => .error .enoent
  | some root =>
    match f.realpath root with
    | .error e => .error e
    | .ok path => .ok { p with rootPath := path }

def guestPathChdir (f : HostFiles) (p : Paths) (path : Option Text) : Except (Option Errno) Paths :=
  match normalizeGuestPath p path p.pathMax with
  | .error e => .error (some e)
  | .ok normalized =>
    match resolveGuestSymlinks p normalized false p.pathMax with
    | .error e => .error e
    | .ok resolved =>
      let hostPath := p.rootPath ++ resolved
      if p.pathMax ≤ hostPath.length then .error (some .enametoolong)
      else match f.stat hostPath with
        | .error e => .error (some e)
        | .ok kind =>
          if kind = .directory then .ok { p with guestCwd := resolved } else .error (some .enotdir)

/-- `host_path` is the path a descriptor was opened by. -/
def guestPathFchdir (f : HostFiles) (p : Paths) (hostPath : Option Text) :
    Except (Option Errno) Paths :=
  match hostPath with
  | none => .error (some .ebadf)
  | some hostPath =>
    let after := hostPath.drop p.rootPath.length
    if p.rootPath = [] then .error (some .ebadf)
    else if hostPath.take p.rootPath.length ≠ p.rootPath ∨ (after ≠ [] ∧ after.head? ≠ some slash) then
      .error (some .eacces)
    else guestPathChdir f p (some (if after = [] then [slash] else after))

/-- The bytes copied to the guest, of which the call returns the number. -/
def guestPathGetcwd (p : Paths) (size : Nat) : Except Errno Text :=
  let copied := p.guestCwd ++ [0]
  if size < copied.length then .error .erange else .ok copied

end Linuxemu.Path
