import Linuxemu.FileCalls
import Linuxemu.PathContainment

/-! What a system call does at a path whose last component is a link. Resolution leaves such a
link in place for the calls that ask for it, so each of them has to ask the host for something
that does not follow it. -/
namespace Linuxemu.Files
open Linuxemu.Path Fd
variable {call : HostCall} {path : Text}

/-! ## What a host call is about -/

/-- The entry of a name, or what the link of that name points to. -/
inductive Object where
  | itself (path : Text)
  | pointee (path : Text)
  deriving DecidableEq, Repr

def followed (h : HostTree) (path : Text) : Object :=
  if h.lstat path = .ok .symlink then .pointee path else .itself path

/-- An `open` that is to create a new file takes a link for an old one. -/
def HostFlags.follows (flags : HostFlags) : Bool :=
  !(flags.nofollow || flags.creat && flags.excl)

def HostCall.reaches (h : HostTree) : HostCall → List Object
  | .open path flags _ => [if flags.follows then followed h path else .itself path]
  | .stat path | .access path _ | .chmod path _ | .utime path _ => [followed h path]
  | .lstat path | .mkdir path _ | .unlink path | .rmdir path | .symlink _ path
  | .readlink path _ => [.itself path]
  | .rename old new | .link old new => [.itself old, .itself new]

def HostCall.opens : HostCall → Option Text
  | .open path _ _ => some path
  | _ => none

/-- Nothing behind a link is opened, looked at or changed, and no link is opened. -/
structure Spares (h : HostTree) (o : Outcome) : Prop where
  pointee : ∀ i ∈ o.calls, i.succeeded = true → ∀ path, Object.pointee path ∉ i.call.reaches h
  opened : ∀ i ∈ o.calls, ∀ path, i.call.opens = some path → h.lstat path = .ok .symlink →
    o.result < 0

/-- The calls that leave the last component alone. -/
def FileCall.nofollow : FileCall → Bool
  | .openat _ _ flags _ => openNofollow flags
  | .stat _ _ follow => !follow
  | .mkdirat .. | .unlinkat .. | .renameat .. | .symlinkat .. | .readlink .. | .readlinkat .. =>
    true
  | .faccessat .. | .chmodat .. => false
  | .linkat _ _ _ _ flags => flags &&& linuxAtSymlinkFollow == 0
  | .utimensat _ _ _ flags => flags &&& linuxAtSymlinkNofollow != 0

variable {e : Env} {h : HostTree}

theorem itself_followed (other : h.lstat path ≠ .ok .symlink) :
    followed h path = .itself path := if_neg other

/-! ## One call at a time -/

theorem spares_returns (result : Int) : Spares h (Env.returns result) := by
  constructor
  · intro i member
    cases member
  · intro i member
    cases member

theorem spares_resolved {r : Result} {next : Text → Outcome}
    (each : ∀ hostPath, r = .ok hostPath → Spares h (next hostPath)) :
    Spares h (e.resolved r next) := by
  unfold Env.resolved
  split
  · exact spares_returns _
  · exact each _ rfl

section
variable (itself : ∀ path, Object.pointee path ∉ call.reaches h) (other : call.opens = none)
include itself other

/-- A call with one host call that is not an `open`. -/
theorem spares_single {result : Int} {status : Option Status} {text : Option Text}
    {succeeded : Bool} :
    Spares h ⟨result, status, text, [⟨call, succeeded⟩]⟩ := by
  constructor
  · intro i member _
    obtain rfl := List.mem_singleton.mp member
    exact itself
  · intro i member path opens
    obtain rfl := List.mem_singleton.mp member
    rw [other] at opens
    cases opens

theorem spares_issue : Spares h (e.issue call) := by
  unfold Env.issue
  split
  · exact spares_single itself other
  · exact spares_single itself other

theorem spares_looked {o : Outcome} (rest : Spares h o) :
    Spares h { o with calls := ⟨call, true⟩ :: o.calls } := by
  constructor
  · intro i member done
    rw [List.mem_cons] at member
    obtain rfl | member := member
    · exact itself
    · exact rest.pointee i member done
  · intro i member path opens
    rw [List.mem_cons] at member
    obtain rfl | member := member
    · rw [other] at opens
      cases opens
    · exact rest.opened i member path opens

end

/-- The host refuses to open a link that it is not to follow. -/
def RefusesLinks (e : Env) : Prop :=
  ∀ path flags mode, e.paths.host.lstat path = .ok .symlink → flags.follows = false →
    ∃ errno, e.answer (.open path flags mode) = .error errno

theorem hostOpenFlags_follows {macros : Macros} (present : macros.nofollow = true) {flags : UInt32}
    {hostFlags : HostFlags} (known : hostOpenFlags macros flags = some hostFlags)
    (nofollow : openNofollow flags = true) : hostFlags.follows = false := by
  unfold hostOpenFlags at known
  split at known
  · cases known
  cases known
  simp only [HostFlags.follows, present, Bool.true_and, Bool.not_eq_false', Bool.or_eq_true,
    Bool.and_eq_true]
  unfold openNofollow at nofollow
  rw [Bool.or_eq_true, beq_iff_eq] at nofollow
  obtain nofollow | new := nofollow
  · exact .inl nofollow
  · right
    -- Each bit of the two is one of both.
    have creat : flags &&& linuxOCreat = linuxOCreat := by
      have cut : flags &&& linuxOCreat = flags &&& (linuxOCreat ||| linuxOExcl) &&& linuxOCreat := by
        rw [UInt32.and_assoc]
        rfl
      rw [cut, new]
      rfl
    have excl : flags &&& linuxOExcl = linuxOExcl := by
      have cut : flags &&& linuxOExcl = flags &&& (linuxOCreat ||| linuxOExcl) &&& linuxOExcl := by
        rw [UInt32.and_assoc]
        rfl
      rw [cut, new]
      rfl
    rw [creat, excl]
    decide

theorem spares_open (refuses : RefusesLinks e) {flags : HostFlags} {mode : UInt32}
    (stays : flags.follows = false) : Spares e.paths.host (e.issue (.open path flags mode)) := by
  have reaches : (HostCall.open path flags mode).reaches e.paths.host = [.itself path] := by
    rw [HostCall.reaches, stays]
    rfl
  unfold Env.issue
  constructor
  · intro i member _ other
    split at member <;>
    · obtain rfl := List.mem_singleton.mp member
      rw [reaches]
      simp
  · intro i member other opens link
    split
    · exact linuxError_neg _
    · rename_i done
      rw [done] at member
      obtain rfl := List.mem_singleton.mp member
      cases opens
      obtain ⟨errno, refused⟩ := refuses path flags mode link stays
      rw [refused] at done
      cases done

theorem spares_readlink (hostPath : Text) (size : Nat) : Spares h (e.hostReadlink hostPath size) := by
  unfold Env.hostReadlink
  split
  · exact spares_single (by simp [HostCall.reaches]) rfl
  · exact spares_single (by simp [HostCall.reaches]) rfl

/-- The one call that follows: `utimensat` without times. -/
def TouchesThrough (e : Env) (c : FileCall) : Prop :=
  ∃ directoryFd guestPath flags hostPath result,
    c = .utimensat directoryFd guestPath none flags ∧
    flags &&& ~~~linuxAtSymlinkNofollow = 0 ∧
    e.resolveAt directoryFd guestPath false true = .ok hostPath ∧
    e.paths.host.lstat hostPath = .ok .symlink ∧
    e.answer (.utime hostPath none) = .ok result

theorem lstat_kind {status : Status} (found : e.lstat path = .ok status) :
    e.paths.host.lstat path = .ok status.kind := by
  unfold Env.lstat at found
  cases kind : e.paths.host.lstat path with
  | error errno =>
    rw [kind] at found
    cases found
  | ok kind' =>
    rw [kind] at found
    cases found
    rfl

theorem spares_utimensat {directoryFd : Int} {guestPath : Option Text}
    {guestTimes : Option GuestTimes} {flags : UInt32}
    (nofollow : (flags &&& linuxAtSymlinkNofollow != 0) = true)
    (apart : ¬ TouchesThrough e (.utimensat directoryFd guestPath guestTimes flags)) :
    Spares e.paths.host (e.linuxUtimensat directoryFd guestPath guestTimes flags) := by
  unfold Env.linuxUtimensat
  split
  · exact spares_returns _
  rename_i known
  rw [nofollow]
  dsimp only
  apply spares_resolved
  intro hostPath found
  have lookedItself (path : Text) :
      Object.pointee path ∉ (HostCall.lstat hostPath).reaches e.paths.host := by
    simp [HostCall.reaches]
  cases guestTimes with
  | none =>
    dsimp only
    by_cases link : e.paths.host.lstat hostPath = .ok .symlink
    · -- The call is made, so it must have failed.
      unfold Env.issue
      split
      · constructor
        · intro i member done
          obtain rfl := List.mem_singleton.mp member
          cases done
        · intro i member path opens
          obtain rfl := List.mem_singleton.mp member
          cases opens
      · rename_i result done
        exact absurd ⟨directoryFd, guestPath, flags, hostPath, result, rfl, not_not.mp known, found,
          link, done⟩ apart
    · apply spares_issue
      · simp [HostCall.reaches, itself_followed link]
      · rfl
  | some times =>
    dsimp only
    rw [if_pos rfl, if_pos rfl]
    split
    · exact spares_single lookedItself rfl
    · rename_i status looked
      split
      · exact spares_looked lookedItself rfl (spares_returns _)
      · rename_i other
        have noLink : e.paths.host.lstat hostPath ≠ .ok .symlink := by
          rw [lstat_kind looked]
          exact fun same => other ⟨rfl, Except.ok.inj same⟩
        split
        · exact spares_looked lookedItself rfl (spares_returns _)
        · split
          · apply spares_looked lookedItself rfl
            apply spares_issue
            · simp [HostCall.reaches, itself_followed noLink]
            · rfl
          · exact spares_looked lookedItself rfl (spares_returns _)

/-- The host is told to set the times of what the link points to. -/
theorem touchesThrough_reaches {c : FileCall} (nofollow : c.nofollow = true)
    (through : TouchesThrough e c) : ¬ Spares e.paths.host (c.perform e) := by
  obtain ⟨directoryFd, guestPath, flags, hostPath, result, rfl, known, found, link, done⟩ := through
  intro spares
  have follows : (flags &&& linuxAtSymlinkNofollow != 0) = true := nofollow
  have issued : (FileCall.perform e (.utimensat directoryFd guestPath none flags)).calls =
      [⟨.utime hostPath none, true⟩] := by
    simp only [FileCall.perform, Env.linuxUtimensat, known, ne_eq, not_true, if_false, follows,
      found, Env.resolved, Env.issue, done]
  have reached := spares.pointee ⟨.utime hostPath none, true⟩ (by simp [issued]) rfl hostPath
  exact reached (by simp [HostCall.reaches, followed, link])

/-- A call that leaves the last component alone leaves alone what a link there points to, unless
it is the one that sets times to the present. -/
theorem final_link_spared_iff (e : Env) (present : e.macros.nofollow = true)
    (refuses : RefusesLinks e) (c : FileCall) (nofollow : c.nofollow = true) :
    Spares e.paths.host (c.perform e) ↔ ¬ TouchesThrough e c := by
  constructor
  · intro spares through
    exact touchesThrough_reaches nofollow through spares
  · intro apart
    cases c with
    | openat directoryFd guestPath flags mode =>
      dsimp only [FileCall.perform]
      unfold Env.linuxOpenPath
      split
      · exact spares_returns _
      · rename_i hostFlags known
        exact spares_resolved fun hostPath _ =>
          spares_open refuses (hostOpenFlags_follows present known nofollow)
    | stat directoryFd guestPath follow =>
      obtain rfl : follow = false := by simpa [FileCall.nofollow] using nofollow
      apply spares_resolved
      intro hostPath _
      dsimp only
      split
      · exact spares_single (by simp [HostCall.reaches]) rfl
      · exact spares_single (by simp [HostCall.reaches]) rfl
    | mkdirat directoryFd guestPath mode =>
      exact spares_resolved fun hostPath _ => spares_issue (by simp [HostCall.reaches]) rfl
    | unlinkat directoryFd guestPath flags =>
      dsimp only [FileCall.perform]
      unfold Env.linuxUnlinkat
      split
      · exact spares_returns _
      · apply spares_resolved
        intro hostPath _
        split
        · exact spares_issue (by simp [HostCall.reaches]) rfl
        · exact spares_issue (by simp [HostCall.reaches]) rfl
    | renameat oldFd oldPath newFd newPath =>
      exact spares_resolved fun old _ => spares_resolved fun new _ =>
        spares_issue (by simp [HostCall.reaches]) rfl
    | faccessat directoryFd guestPath mode => cases nofollow
    | linkat oldFd oldPath newFd newPath flags =>
      dsimp only [FileCall.perform]
      unfold Env.linuxLinkat
      split
      · exact spares_returns _
      · exact spares_resolved fun old _ => spares_resolved fun new _ =>
          spares_issue (by simp [HostCall.reaches]) rfl
    | symlinkat target directoryFd guestLink =>
      cases target with
      | none => exact spares_returns _
      | some target =>
        exact spares_resolved fun hostLink _ => spares_issue (by simp [HostCall.reaches]) rfl
    | chmodat directoryFd guestPath mode => cases nofollow
    | readlink guestPath size => exact spares_resolved fun hostPath _ => spares_readlink hostPath size
    | readlinkat directoryFd guestPath size =>
      exact spares_resolved fun hostPath _ => spares_readlink hostPath size
    | utimensat directoryFd guestPath times flags => exact spares_utimensat nofollow apart

/-- A host that does everything but open a link that it is not to follow. -/
def smokeEnv : Env where
  paths := ⟨1024, bytes "/root", bytes "/tmp", smokeTree⟩
  tables := ⟨⟨16, fun _ => none, 0⟩, fun _ => none, fun _ => 0⟩
  macros := ⟨true, true, true, true, true⟩
  errno := .other 0
  answer
    | .open path flags _ =>
      if flags.follows = false ∧ smokeTree.lstat path = .ok .symlink then .error .eloop else .ok 3
    | _ => .ok 0
  times _ := (0, 0)
  stat path := (smokeTree.lstat path).map fun kind => ⟨kind, 0, 0⟩
  now := .ok 0

theorem smokeEnv_refuses : RefusesLinks smokeEnv := by
  intro path flags mode link stays
  have both : flags.follows = false ∧ smokeTree.lstat path = .ok .symlink := ⟨stays, link⟩
  exact ⟨.eloop, if_pos both⟩

theorem final_link_spared_times :
    let c : FileCall :=
      .utimensat linuxAtFdcwd (some (bytes "link")) (some ((7, 0), (7, 0))) linuxAtSymlinkNofollow
    c.nofollow = true ∧ (c.perform smokeEnv).result = eopnotsupp ∧
      Spares smokeTree (c.perform smokeEnv) := by
  intro c
  refine ⟨by decide, by decide +kernel, ?_⟩
  apply (final_link_spared_iff smokeEnv rfl smokeEnv_refuses c (by decide)).mpr
  rintro ⟨_, _, _, _, _, same, _⟩
  simp [c] at same

/-- Without times the link's target gets the present ones. -/
theorem present_times_followed :
    let c : FileCall :=
      .utimensat linuxAtFdcwd (some (bytes "link")) none linuxAtSymlinkNofollow
    let path := bytes "/root/tmp/link"
    c.nofollow = true ∧ smokeTree.lstat path = .ok .symlink ∧ (c.perform smokeEnv).result = 0 ∧
      ⟨.utime path none, true⟩ ∈ (c.perform smokeEnv).calls ∧
      .pointee path ∈ (HostCall.utime path none).reaches smokeTree := by
  decide +kernel

end Linuxemu.Files
