import Linuxemu.WorkingDirectory

/-! The working directory over a run of `chdir` and `fchdir` calls, failing ones included. The
start is the root by its name alone; every later directory was looked at when it was stored. -/
namespace Linuxemu.Path

inductive CwdCall where
  | chdir (path : Option Text)
  | fchdir (hostPath : Option Text)

def CwdCall.perform (f : HostFiles) (p : Paths) : CwdCall → Except (Option Errno) Paths
  | .chdir path => guestPathChdir f p path
  | .fchdir hostPath => guestPathFchdir f p hostPath

/-- The globals after a call, whatever it returned. -/
def CwdCall.after (f : HostFiles) (p : Paths) (call : CwdCall) : Paths :=
  match call.perform f p with
  | .ok q => q
  | .error _ => p

def afterCalls (f : HostFiles) (p : Paths) (calls : List CwdCall) : Paths :=
  calls.foldl (fun p call => call.after f p) p

variable {f : HostFiles} {start p q : Paths} {cs : List Text}

theorem CwdCall.perform_ok {call : CwdCall} (done : call.perform f p = .ok q) :
    ∃ cs, q = { p with guestCwd := absolute cs } ∧ Canonical f p cs := by
  cases call with
  | chdir path => exact chdir_canonical done
  | fchdir hostPath =>
    obtain ⟨path, done⟩ := fchdir_chdir done
    exact chdir_canonical done

/-- The directory is `cs`, and was looked at unless it is the root. -/
structure Located (f : HostFiles) (start p : Paths) (cs : List Text) : Prop where
  state : p = { start with guestCwd := absolute cs }
  plain : ∀ c ∈ cs, Plain c
  canonical : cs ≠ [] → Canonical f start cs

theorem Located.after (located : Located f start p cs) (call : CwdCall) :
    ∃ ds, Located f start (call.after f p) ds := by
  unfold CwdCall.after
  cases outcome : call.perform f p with
  | error e => exact ⟨cs, located⟩
  | ok q =>
    obtain ⟨ds, rfl, canonical⟩ := CwdCall.perform_ok outcome
    obtain rfl := located.state
    have looked : Canonical f start ds := canonical.cwd start.guestCwd
    exact ⟨ds, rfl, looked.plain, fun _ => looked⟩

theorem Located.afterCalls (located : Located f start p cs) (calls : List CwdCall) :
    ∃ ds, Located f start (afterCalls f p calls) ds := by
  induction calls generalizing p cs with
  | nil => exact ⟨cs, located⟩
  | cons call calls ih =>
    obtain ⟨ds, next⟩ := located.after call
    exact ih next

theorem Located.looked (located : Located f start p cs) (known : Rooted f start ∨ cs ≠ []) :
    Canonical f p cs := by
  have looked : Canonical f start cs := by
    by_cases root : cs = []
    · subst root
      exact (known.resolve_right fun other => other rfl).canonical
    · exact located.canonical root
  rw [located.state]
  exact looked.cwd _

theorem Canonical.no_link (canonical : Canonical f p cs) {k : Nat} (positive : 0 < k)
    (within : k ≤ cs.length) :
    ∃ kind, p.host.lstat (p.rootPath ++ absolute (cs.take k)) = .ok kind ∧ kind ≠ .symlink := by
  have seen := walk_done canonical.plain canonical.linkless k positive within
  rw [List.append_nil] at seen
  obtain found | ⟨missing, -⟩ := seen
  · exact found
  · cases missing

theorem getcwd_text {size : Nat} {text : Text}
    (returned : guestPathGetcwd p size = .ok (text ++ [0])) : text = p.guestCwd := by
  unfold guestPathGetcwd at returned
  dsimp only at returned
  split at returned
  · cases returned
  · exact (List.append_cancel_right (Except.ok.inj returned)).symm

/-- Whatever was called, the directory is a normal path, and one whose host path is a directory
with no link below the root, and which `chdir` stores again, if the root is a directory with
room for its slash or the directory is another one. -/
theorem cwd_canonical (f : HostFiles) (start : Paths) (fresh : start.guestCwd = [slash])
    (calls : List CwdCall) :
    let p := afterCalls f start calls
    (∃ cs, (∀ c ∈ cs, Plain c) ∧ p.guestCwd = absolute cs ∧
      (Rooted f start ∨ cs ≠ [] →
        f.stat (p.rootPath ++ p.guestCwd) = .ok .directory ∧
        (∀ k, 0 < k → k ≤ cs.length → ∃ kind,
          p.host.lstat (p.rootPath ++ absolute (cs.take k)) = .ok kind ∧ kind ≠ .symlink) ∧
        ∀ size text, guestPathGetcwd p size = .ok (text ++ [0]) →
          guestPathChdir f p (some text) = .ok p)) ∧
    ∀ call e, CwdCall.perform f p call = .error e → call.after f p = p := by
  intro p
  have begin : Located f start start [] := by
    refine ⟨?_, nofun, fun other => absurd rfl other⟩
    rw [absolute, joined, ← fresh]
  obtain ⟨cs, located⟩ := begin.afterCalls calls
  have stored : p.guestCwd = absolute cs := congrArg Paths.guestCwd located.state
  refine ⟨⟨cs, located.plain, stored, ?_⟩, ?_⟩
  · intro known
    have canonical : Canonical f p cs := located.looked known
    refine ⟨stored ▸ canonical.directory, fun k => canonical.no_link, ?_⟩
    intro size text returned
    rw [getcwd_text returned, stored, canonical.chdir, ← stored]
  · intro call e failed
    rw [CwdCall.after, failed]

def smokeFiles : HostFiles where
  stat path := if path = bytes "/root/" then .ok .directory else smokeTree.lstat path
  realpath path := .ok path

/-- Into a directory, then two calls that fail. -/
theorem cwd_canonical_smoke :
    let start : Paths := ⟨1024, bytes "/root", bytes "/", smokeTree⟩
    let p := afterCalls smokeFiles start
      [.chdir (some (bytes "tmp")), .fchdir (some (bytes "/rootless")), .chdir (some (bytes "link"))]
    p.guestCwd = bytes "/tmp" ∧ Rooted smokeFiles start ∧
      guestPathChdir smokeFiles p (some (bytes "/tmp")) = .ok p := by
  intro start p
  have rooted : Rooted smokeFiles start := ⟨by decide +kernel, by decide +kernel⟩
  obtain ⟨⟨cs, -, -, known⟩, -⟩ := cwd_canonical smokeFiles start (by decide +kernel)
    [.chdir (some (bytes "tmp")), .fchdir (some (bytes "/rootless")), .chdir (some (bytes "link"))]
  refine ⟨by decide +kernel, rooted, ?_⟩
  exact (known (.inl rooted)).2.2 1024 (bytes "/tmp") (by decide +kernel)

/-- There `chdir` does not take the directory of the start. -/
theorem deep_root_refused :
    let start : Paths := ⟨1024, deepRoot, bytes "/", smokeTree⟩
    guestPathInitialize deepFiles ⟨1024, [], bytes "/", smokeTree⟩ (some deepRoot) =
      .ok (afterCalls deepFiles start []) ∧
    deepFiles.stat start.rootPath = .ok .directory ∧
    guestPathGetcwd start 2 = .ok (bytes "/" ++ [0]) ∧
    ∀ p, guestPathChdir deepFiles start (some (bytes "/")) ≠ .ok p := by
  refine ⟨guestPathInitialize_real _ (by decide +kernel) rfl, ?_, ?_, ?_⟩
  · decide +kernel
  · decide +kernel
  · intro p
    apply chdir_refused
    decide +kernel

end Linuxemu.Path
