import Linuxemu.Exec
import Linuxemu.InitialStack
import Linuxemu.WorkingDirectory

/-! What a guest hands over to the program it executes: the vectors stay in their arrays,
and the new emulator process takes out of them what the old one put in. -/
namespace Linuxemu.Exec
open Linuxemu.Path
variable {xs guestArgv : List Text} {v : Pointers}
variable {shebang : Option Shebang} {host : HostTree} {f : HostFiles} {pathMax : Nat}

/-! ## Vectors -/

/-- The array starts with these strings. -/
def Holds (v : Pointers) (xs : List Text) : Prop := ∀ k, k < xs.length → v k = xs[k]?

theorem Holds.store (h : Holds v xs) (size : Nat) (x : Text) (room : xs.length < size) :
    ∃ w, v.store size xs.length (some x) = some w ∧ Holds w (xs ++ [x]) := by
  refine ⟨_, if_pos room, fun k small => ?_⟩
  rw [List.length_append, List.length_singleton] at small
  by_cases last : k = xs.length
  · subst last
    simp
  · rw [Function.update_of_ne last, List.getElem?_append_left (by omega)]
    exact h k (by omega)

theorem Holds.fill (h : Holds v xs) (size : Nat) (ys : List Text)
    (room : (xs ++ ys).length ≤ size) :
    ∃ w, v.fill size xs.length ys = some (w, (xs ++ ys).length) ∧ Holds w (xs ++ ys) := by
  induction ys generalizing v xs with
  | nil =>
    rw [List.append_nil]
    exact ⟨v, rfl, h⟩
  | cons y ys ih =>
    have split : xs ++ y :: ys = xs ++ [y] ++ ys := by simp
    rw [split] at room ⊢
    obtain ⟨w, stored, holds⟩ := h.store size y (by simp at room; omega)
    obtain ⟨u, filled, whole⟩ := ih holds room
    rw [List.length_append, List.length_singleton] at filled
    refine ⟨u, ?_, whole⟩
    rw [Pointers.fill, stored]
    exact filled

theorem Holds.strings (h : Holds v xs) (null : v xs.length = none) {size i : Nat}
    (start : i ≤ xs.length) (room : xs.length < i + size) : v.strings size i = xs.drop i := by
  induction size generalizing i with
  | zero => omega
  | succ size ih =>
    by_cases last : i = xs.length
    · subst last
      rw [Pointers.strings, null, List.drop_length]
    · have inside : i < xs.length := by omega
      rw [Pointers.strings, h i inside, List.getElem?_eq_getElem inside,
        List.drop_eq_getElem_cons inside]
      dsimp only
      rw [ih inside (by omega)]

/-- With a null pointer behind them, they are what `execve` finds. -/
theorem Holds.ended (h : Holds v xs) (size : Nat) (room : xs.length < size) :
    ∃ w, v.store size xs.length none = some w ∧ w.strings size 0 = xs := by
  refine ⟨_, if_pos room, ?_⟩
  have kept : Holds (Function.update v xs.length none) xs := by
    intro k small
    rw [Function.update_of_ne (Nat.ne_of_lt small)]
    exact h k small
  exact kept.strings (Function.update_self ..) (Nat.zero_le _) (by omega)

/-! ## The arrays of the old process -/

theorem keepEnvironment_holds (ys : List Text) (h : Holds v xs) (few : xs.length ≤ maxExecVector) :
    (keepEnvironment v xs.length ys = some (.error .e2big) ∧
        maxExecVector < (xs ++ ys.filter (!hiddenEnvironment ·)).length) ∨
      ∃ w, keepEnvironment v xs.length ys =
          some (.ok (w, (xs ++ ys.filter (!hiddenEnvironment ·)).length)) ∧
        Holds w (xs ++ ys.filter (!hiddenEnvironment ·)) ∧
        (xs ++ ys.filter (!hiddenEnvironment ·)).length ≤ maxExecVector := by
  induction ys generalizing v xs with
  | nil =>
    right
    simp only [List.filter_nil, List.append_nil]
    exact ⟨v, rfl, h, few⟩
  | cons y ys ih =>
    unfold keepEnvironment
    by_cases hidden : hiddenEnvironment y = true
    · rw [List.filter_cons_of_neg (by simp [hidden]), if_pos hidden]
      exact ih h few
    · have split : xs ++ y :: ys.filter (!hiddenEnvironment ·) =
          xs ++ [y] ++ ys.filter (!hiddenEnvironment ·) := by simp
      rw [List.filter_cons_of_pos (by simp [hidden]), if_neg hidden, split]
      by_cases full : xs.length = maxExecVector
      · left
        rw [if_pos full]
        refine ⟨rfl, ?_⟩
        simp
        omega
      · obtain ⟨w, stored, holds⟩ := h.store (maxExecVector + 2) y (by omega)
        have next := ih holds (by simp; omega)
        rw [List.length_append, List.length_singleton] at next
        rw [if_neg full, stored]
        exact next

/-- The environment of the new process. -/
def handedEnvironment (e : Emulator) (guestEnvp : List Text) : List Text :=
  guestEnvp.filter (!hiddenEnvironment ·) ++
    if e.traceEnabled then [bytes "LINUXEMU_SYSTRACE=1"] else []

/-- The entries that stay must fit into their array. -/
theorem hostEnvironment_cases (e : Emulator) (v : Pointers) (guestEnvp : List Text) :
    (maxExecVector < (guestEnvp.filter (!hiddenEnvironment ·)).length ∧
        hostEnvironment e v guestEnvp = some (.error .e2big)) ∨
      (guestEnvp.filter (!hiddenEnvironment ·)).length ≤ maxExecVector ∧
        ∃ w, hostEnvironment e v guestEnvp = some (.ok w) ∧
          w.strings (maxExecVector + 2) 0 = handedEnvironment e guestEnvp := by
  unfold hostEnvironment handedEnvironment
  have nothing : Holds v [] := nofun
  obtain ⟨full, many⟩ | ⟨w, kept, holds, few⟩ :=
    keepEnvironment_holds guestEnvp nothing (Nat.zero_le _)
  · rw [List.length_nil] at full
    rw [full]
    exact .inl ⟨many, rfl⟩
  · rw [List.length_nil] at kept
    rw [kept]
    right
    simp only [List.nil_append] at holds few ⊢
    refine ⟨few, ?_⟩
    cases e.traceEnabled with
    | false =>
      obtain ⟨u, stored, found⟩ := holds.ended (maxExecVector + 2) (by omega)
      exact ⟨u, by simp [stored], by simpa using found⟩
    | true =>
      obtain ⟨u, traced, holds⟩ := holds.store (maxExecVector + 2)
        (bytes "LINUXEMU_SYSTRACE=1") (by omega)
      obtain ⟨t, stored, found⟩ := holds.ended (maxExecVector + 2) (by simp; omega)
      rw [List.length_append, List.length_singleton] at stored
      exact ⟨t, by simp [traced, stored], by simpa using found⟩

/-- What the program is to find as its arguments. -/
def handedArguments (shebang : Option Shebang) (guestExecutable : Text) (guestArgv : List Text) :
    List Text :=
  match shebang with
  | none => guestArgv
  | some shebang => scriptArguments shebang guestExecutable guestArgv

/-- All strings of `host_arguments`. -/
def hostVector (e : Emulator) (hostExecutable guestExecutable : Text) (shebang : Option Shebang)
    (guestArgv : List Text) : List Text :=
  [e.emulatorPath, bytes "--linuxemu-exec", e.paths.rootPath, e.paths.guestCwd,
    (shebang.map (·.hostPath)).getD hostExecutable] ++
    handedArguments shebang guestExecutable guestArgv

theorem hostArguments_fill (e : Emulator) (v : Pointers) (hostExecutable guestExecutable : Text)
    (shebang : Option Shebang) (guestArgv : List Text) :
    hostArguments e v hostExecutable guestExecutable shebang guestArgv =
      (v.fill (maxExecVector + 6) 0
        (hostVector e hostExecutable guestExecutable shebang guestArgv)).bind
          fun x => x.1.store (maxExecVector + 6) x.2 none := by
  cases shebang <;>
    simp [hostArguments, hostVector, handedArguments, Pointers.fill, Option.bind_assoc]

theorem hostArguments_strings (e : Emulator) (v : Pointers) (hostExecutable guestExecutable : Text)
    (shebang : Option Shebang) (guestArgv : List Text)
    (few : (handedArguments shebang guestExecutable guestArgv).length ≤ maxExecVector) :
    ∃ w, hostArguments e v hostExecutable guestExecutable shebang guestArgv = some w ∧
      w.strings (maxExecVector + 6) 0 =
        hostVector e hostExecutable guestExecutable shebang guestArgv := by
  have room : (hostVector e hostExecutable guestExecutable shebang guestArgv).length <
      maxExecVector + 6 := by
    simp only [hostVector, List.length_append, List.length_cons, List.length_nil]
    omega
  have nothing : Holds v [] := nofun
  obtain ⟨u, filled, holds⟩ := nothing.fill (maxExecVector + 6)
    (hostVector e hostExecutable guestExecutable shebang guestArgv) (Nat.le_of_lt room)
  obtain ⟨w, stored, found⟩ := holds.ended (maxExecVector + 6) room
  refine ⟨w, ?_, found⟩
  rw [hostArguments_fill]
  rw [List.length_nil, List.nil_append] at filled
  rw [filled]
  exact stored

theorem handedArguments_length (shebang : Option Shebang) (guestExecutable : Text)
    (given : guestArgv ≠ []) :
    (handedArguments shebang guestExecutable guestArgv).length =
      guestArgv.length + extraArguments shebang := by
  cases shebang with
  | none => rfl
  | some shebang =>
    have := List.length_pos_iff.mpr given
    by_cases plain : shebang.option = []
    · simp [handedArguments, scriptArguments, extraArguments, plain]
      omega
    · simp [handedArguments, scriptArguments, extraArguments, plain]
      omega

/-- What a call comes to that gets past its checks. -/
structure Handed (e : Emulator) (hostExecutable guestExecutable : Text)
    (guestArgv guestEnvp : List Text) (buffer : Except Errno Text) (vectors : Arrays) : Prop where
  rooted : e.paths.rootPath ≠ []
  given : guestArgv ≠ []
  found : ∃ shebang, readShebang e.paths buffer = .ok shebang ∧
    vectors.arguments.strings (maxExecVector + 6) 0 =
      hostVector e hostExecutable guestExecutable shebang guestArgv
  environment :
    vectors.environment.strings (maxExecVector + 2) 0 = handedEnvironment e guestEnvp

/-- Nothing but the environment can stop the call now. -/
structure Ready (e : Emulator) (guestArgv : List Text) (buffer : Except Errno Text)
    (shebang : Option Shebang) : Prop where
  rooted : e.paths.rootPath ≠ []
  given : guestArgv ≠ []
  read : readShebang e.paths buffer = .ok shebang
  few : guestArgv.length + extraArguments shebang ≤ maxExecVector

section
variable {e : Emulator} {guestArgv : List Text} {buffer : Except Errno Text}

theorem guestProcessExec_unready (unready : ∀ shebang, ¬ Ready e guestArgv buffer shebang)
    (a : Arrays) (hostExecutable guestExecutable : Text) (guestEnvp : List Text) :
    ∃ errno, guestProcessExec e a (some hostExecutable) (some guestExecutable) (some guestArgv)
      (some guestEnvp) buffer = some (.error errno) := by
  unfold guestProcessExec
  dsimp only
  split
  · exact ⟨_, rfl⟩
  rename_i usable
  obtain ⟨given, rooted⟩ := not_or.mp usable
  split
  · exact ⟨_, rfl⟩
  rename_i few
  cases read : readShebang e.paths buffer with
  | error errno => exact ⟨_, rfl⟩
  | ok shebang =>
    dsimp only
    split
    · exact ⟨_, rfl⟩
    rename_i room
    refine absurd ⟨rooted, given, read, ?_⟩ (unready shebang)
    cases shebang with
    | none => exact Nat.le_of_not_lt few
    | some shebang => simpa using room

theorem guestProcessExec_ready (ready : Ready e guestArgv buffer shebang) (a : Arrays)
    (hostExecutable guestExecutable : Text) (guestEnvp : List Text) :
    (maxExecVector < (guestEnvp.filter (!hiddenEnvironment ·)).length ∧
        guestProcessExec e a (some hostExecutable) (some guestExecutable) (some guestArgv)
          (some guestEnvp) buffer = some (.error (some .e2big))) ∨
      (guestEnvp.filter (!hiddenEnvironment ·)).length ≤ maxExecVector ∧
        ∃ vectors, guestProcessExec e a (some hostExecutable) (some guestExecutable)
            (some guestArgv) (some guestEnvp) buffer = some (.ok vectors) ∧
          vectors.arguments.strings (maxExecVector + 6) 0 =
            hostVector e hostExecutable guestExecutable shebang guestArgv ∧
          vectors.environment.strings (maxExecVector + 2) 0 = handedEnvironment e guestEnvp := by
  obtain ⟨rooted, given, read, few⟩ := ready
  obtain ⟨arguments, stored, listed⟩ := hostArguments_strings e a.arguments hostExecutable
    guestExecutable shebang guestArgv (handedArguments_length shebang guestExecutable given ▸ few)
  have usable : ¬ (guestArgv = [] ∨ e.paths.rootPath = []) := not_or.mpr ⟨given, rooted⟩
  have room : ¬ (shebang ≠ none ∧ maxExecVector < guestArgv.length + extraArguments shebang) :=
    fun full => absurd full.2 (Nat.not_lt.mpr few)
  unfold guestProcessExec
  dsimp only
  rw [if_neg usable, if_neg (by omega), read]
  dsimp only
  rw [if_neg room]
  obtain ⟨many, full⟩ | ⟨fits, environment, kept, found⟩ :=
    hostEnvironment_cases e a.environment guestEnvp
  · rw [full]
    exact .inl ⟨many, rfl⟩
  · rw [kept, stored]
    exact .inr ⟨fits, _, rfl, listed, found⟩

end

/-- Every call ends with an error or with both vectors: no store is outside its array. -/
theorem guestProcessExec_cases (e : Emulator) (a : Arrays) (hostExecutable guestExecutable : Text)
    (guestArgv guestEnvp : List Text) (buffer : Except Errno Text) :
    (∃ errno, guestProcessExec e a (some hostExecutable) (some guestExecutable) (some guestArgv)
        (some guestEnvp) buffer = some (.error errno)) ∨
      ∃ vectors, guestProcessExec e a (some hostExecutable) (some guestExecutable) (some guestArgv)
          (some guestEnvp) buffer = some (.ok vectors) ∧
        Handed e hostExecutable guestExecutable guestArgv guestEnvp buffer vectors := by
  by_cases ready : ∃ shebang, Ready e guestArgv buffer shebang
  · obtain ⟨shebang, ready⟩ := ready
    obtain ⟨-, full⟩ | ⟨-, vectors, reached, listed, found⟩ :=
      guestProcessExec_ready ready a hostExecutable guestExecutable guestEnvp
    · exact .inl ⟨_, full⟩
    · exact .inr ⟨vectors, reached, ready.rooted, ready.given, ⟨shebang, ready.read, listed⟩, found⟩
  · exact .inl (guestProcessExec_unready (not_exists.mp ready) a hostExecutable guestExecutable
      guestEnvp)

/-! ## The new process -/

theorem guestEnvironmentEntry_hidden {x : Text} (hidden : hiddenEnvironment x = true) :
    Stack.guestEnvironmentEntry x = false := by
  -- the shorter names are the first bytes of the longer ones
  have shorter {n : Nat} {name : Text} (same : x.take n = name) (long : 9 ≤ n) :
      x.take 9 = name.take 9 := by
    rw [← same, List.take_take, Nat.min_eq_left long]
  simp only [hiddenEnvironment, Bool.or_eq_true, beq_iff_eq] at hidden
  rw [Stack.guestEnvironmentEntry, Bool.and_eq_false_iff]
  obtain (root | guest) | library := hidden
  · left
    rw [shorter root (by decide)]
    decide +kernel
  · left
    rw [shorter guest (by decide)]
    decide +kernel
  · right
    rw [library]
    decide +kernel

/-- Both filters leave the guest what the second one alone leaves. -/
theorem handedEnvironment_filter (e : Emulator) (guestEnvp : List Text) :
    (handedEnvironment e guestEnvp).filter Stack.guestEnvironmentEntry =
      guestEnvp.filter Stack.guestEnvironmentEntry := by
  have traced : Stack.guestEnvironmentEntry (bytes "LINUXEMU_SYSTRACE=1") = false := by
    decide +kernel
  have own : (if e.traceEnabled then [bytes "LINUXEMU_SYSTRACE=1"] else []).filter
      Stack.guestEnvironmentEntry = [] := by
    split
    · rw [List.filter_cons_of_neg (by simp [traced]), List.filter_nil]
    · rfl
  rw [handedEnvironment, List.filter_append, own, List.append_nil, List.filter_filter]
  apply List.filter_congr
  intro x _
  cases hidden : hiddenEnvironment x with
  | false => simp
  | true => simp [guestEnvironmentEntry_hidden hidden]

/-- The states of an emulator process: after `main`, and after the guest's `chdir` and
`fchdir`. -/
inductive Running (f : HostFiles) : Emulator → Prop
  | main {pathMax : Nat} {host : HostTree} {argv environ : List Text} {b : Boot}
      (booted : boot f pathMax host argv environ = .ok b) : Running f b.emulator
  | chdir {e : Emulator} {path : Option Text} {paths : Paths} (before : Running f e)
      (done : guestPathChdir f e.paths path = .ok paths) : Running f { e with paths }
  | fchdir {e : Emulator} {hostPath : Option Text} {paths : Paths} (before : Running f e)
      (done : guestPathFchdir f e.paths hostPath = .ok paths) : Running f { e with paths }

theorem boot_emulator {argv environ : List Text} {b : Boot}
    (booted : boot f pathMax host argv environ = .ok b) :
    ∃ emulator trace root cwd,
      initializeEmulator f pathMax host emulator trace root cwd = .ok b.emulator := by
  have mapped {x : Except Nat Emulator} {g : Emulator → Boot} (same : ∀ e, (g e).emulator = e)
      (done : x.map g = .ok b) : x = .ok b.emulator := by
    cases x with
    | error status => cases done
    | ok e =>
      cases done
      rw [same]
  unfold boot at booted
  dsimp only at booted
  split at booted
  · split at booted
    · exact ⟨_, _, _, _, mapped (fun _ => rfl) booted⟩
    · exact ⟨_, _, _, _, mapped (fun _ => rfl) booted⟩
  · exact ⟨_, _, _, _, mapped (fun _ => rfl) booted⟩
  · cases booted

/-- What stays true of a process: its own path and its root are real paths, and its
directory was stored by a `chdir`. -/
structure Settled (f : HostFiles) (e : Emulator) : Prop where
  emulator : ∃ given, f.realpath given = .ok e.emulatorPath
  root : ∃ given, f.realpath given = .ok e.paths.rootPath
  stored : Stored f e.paths

section
variable {f : HostFiles} {e : Emulator}

theorem initializeEmulator_settled {emulator : Text} {trace : Bool} {root cwd : Option Text}
    (done : initializeEmulator f pathMax host emulator trace root cwd = .ok e)
    (rooted : e.paths.rootPath ≠ []) : Settled f e := by
  unfold initializeEmulator at done
  split at done
  · cases done
  rename_i emulatorPath own
  dsimp only at done
  split at done
  · cases done
    exact absurd rfl rooted
  rename_i root
  split at done
  · cases done
  rename_i start initialized
  obtain ⟨real, fresh⟩ := guestPathInitialize_ok initialized
  have cwd : start.guestCwd = [slash] := by rw [fresh]
  split at done
  · cases done
    exact ⟨⟨_, own⟩, ⟨_, real⟩, .boot rooted cwd⟩
  · split at done
    · cases done
    rename_i paths moved
    cases done
    obtain ⟨cs, rfl, -⟩ := chdir_canonical moved
    have booted : Stored f start := .boot rooted cwd
    exact ⟨⟨_, own⟩, ⟨_, real⟩, booted.chdir moved⟩

theorem Running.settled (running : Running f e) (rooted : e.paths.rootPath ≠ []) :
    Settled f e := by
  -- `chdir` leaves the root as it is, so the process was settled before it
  have moved {e : Emulator} {path : Option Text} {paths : Paths}
      (done : guestPathChdir f e.paths path = .ok paths)
      (before : Settled f e) : Settled f { e with paths } := by
    have stored := before.stored.chdir done
    obtain ⟨cs, rfl, -⟩ := chdir_canonical done
    exact ⟨before.emulator, before.root, stored⟩
  induction running with
  | main booted =>
    obtain ⟨_, _, _, _, done⟩ := boot_emulator booted
    exact initializeEmulator_settled done rooted
  | chdir before done ih =>
    obtain ⟨cs, rfl, -⟩ := chdir_canonical done
    exact moved done (ih rooted)
  | fchdir before done ih =>
    obtain ⟨path, done⟩ := fchdir_chdir done
    obtain ⟨cs, rfl, -⟩ := chdir_canonical done
    exact moved done (ih rooted)

theorem handedArguments_given (shebang : Option Shebang) (guestExecutable : Text)
    (given : guestArgv ≠ []) :
    handedArguments shebang guestExecutable guestArgv ≠ [] := by
  rw [← List.length_pos_iff, handedArguments_length shebang guestExecutable given]
  exact Nat.add_pos_left (List.length_pos_iff.mpr given) _

theorem boot_hostVector {hostExecutable guestExecutable : Text} (given : guestArgv ≠ [])
    (environ : List Text) :
    boot f e.paths.pathMax e.paths.host
        (hostVector e hostExecutable guestExecutable shebang guestArgv) environ =
      (initializeEmulator f e.paths.pathMax e.paths.host e.emulatorPath
        (getenv environ (bytes "LINUXEMU_SYSTRACE")).isSome (some e.paths.rootPath)
        (some e.paths.guestCwd)).map fun next =>
          ⟨next, (shebang.map (·.hostPath)).getD hostExecutable,
            handedArguments shebang guestExecutable guestArgv, environ⟩ := by
  unfold hostVector
  cases handed : handedArguments shebang guestExecutable guestArgv with
  | nil => exact absurd handed (handedArguments_given shebang guestExecutable given)
  | cons first rest =>
    simp only [boot, List.cons_append, List.nil_append, List.headD_cons, if_pos]

/-- The new process is where the old one was. -/
theorem Settled.again (settled : Settled f e)
    (known : Rooted f e.paths ∨ e.paths.guestCwd ≠ [slash]) (trace : Bool)
    (idempotent : ∀ a b, f.realpath a = .ok b → f.realpath b = .ok b) :
    initializeEmulator f e.paths.pathMax e.paths.host e.emulatorPath trace
        (some e.paths.rootPath) (some e.paths.guestCwd) =
      .ok ⟨e.emulatorPath, e.paths, trace⟩ := by
  obtain ⟨⟨_, own⟩, ⟨_, real⟩, stored⟩ := settled
  unfold initializeEmulator
  rw [idempotent _ _ own]
  dsimp only
  rw [guestPathInitialize_real _ stored.rooted (idempotent _ _ real)]
  dsimp only
  rw [stored.chdir_again known [slash]]

theorem guestEnvironmentEntry_names (x : Text) : Stack.guestEnvironmentEntry x =
    (!(bytes "LINUXEMU_").isPrefixOf x && !(bytes "LD_LIBRARY_PATH=").isPrefixOf x) := by
  have named (name : Text) : name.isPrefixOf x = (x.take name.length == name) := by
    rw [Bool.eq_iff_iff, List.isPrefixOf_iff_prefix, List.prefix_iff_eq_take, beq_iff_eq, eq_comm]
  have emulator : (bytes "LINUXEMU_").length = 9 := by decide +kernel
  have library : (bytes "LD_LIBRARY_PATH=").length = 16 := by decide +kernel
  rw [named, named, emulator, library]
  rfl

/-- **Executing a program loses nothing**, as long as real paths are their own and, where the
working directory is still `/`, the root is a directory with room for its slash. No store of
`guest_process_exec` is outside its array. When it comes to `execve`, the new process has the
same root and directory, and its program finds the given arguments, or those of the script's
interpreter, and the entries of the environment that are for a guest. -/
theorem exec_hands_over (running : Running f e)
    (known : Rooted f e.paths ∨ e.paths.guestCwd ≠ [slash])
    (idempotent : ∀ a b, f.realpath a = .ok b → f.realpath b = .ok b)
    (a : Arrays) (hostExecutable guestExecutable : Text) (guestArgv guestEnvp : List Text)
    (buffer : Except Errno Text) :
    let outcome := guestProcessExec e a (some hostExecutable) (some guestExecutable)
      (some guestArgv) (some guestEnvp) buffer
    outcome ≠ none ∧ ∀ vectors, outcome = some (.ok vectors) →
      ∃ shebang b, readShebang e.paths buffer = .ok shebang ∧
        boot f e.paths.pathMax e.paths.host (vectors.arguments.strings (maxExecVector + 6) 0)
          (vectors.environment.strings (maxExecVector + 2) 0) = .ok b ∧
        b.emulator.paths.rootPath = e.paths.rootPath ∧
        b.emulator.paths.guestCwd = e.paths.guestCwd ∧
        Stack.Gives b.guestArgv b.environ
          (match shebang with
            | none => guestArgv
            | some x => [x.interpreter] ++ (if x.option = [] then [] else [x.option]) ++
                [guestExecutable] ++ guestArgv.drop 1)
          (guestEnvp.filter fun x => !(bytes "LINUXEMU_").isPrefixOf x &&
            !(bytes "LD_LIBRARY_PATH=").isPrefixOf x) := by
  intro outcome
  obtain ⟨errno, failed⟩ | ⟨found, reached, handed⟩ := guestProcessExec_cases e a hostExecutable
    guestExecutable guestArgv guestEnvp buffer
  · constructor
    · rw [show outcome = _ from failed]
      exact nofun
    · intro vectors reached
      cases failed.symm.trans reached
  · constructor
    · rw [show outcome = _ from reached]
      exact nofun
    · intro vectors same
      cases reached.symm.trans same
      obtain ⟨rooted, given, ⟨shebang, read, arguments⟩, environment⟩ := handed
      have settled := running.settled rooted
      rw [arguments, environment, boot_hostVector given, settled.again known _ idempotent]
      refine ⟨shebang, _, read, rfl, rfl, rfl, ?_⟩
      have gives := Stack.createGuestStack_gives
        (handedArguments_given shebang guestExecutable given) (handedEnvironment e guestEnvp)
      rw [handedEnvironment_filter, funext guestEnvironmentEntry_names] at gives
      cases shebang with
      | none => exact gives
      | some x => exact gives

end

/-- A host where every path is real and names a directory, and no guest path is a link. -/
def plainFiles : HostFiles := ⟨fun _ => .ok .directory, .ok⟩

def plainTree : HostTree := ⟨fun _ => .ok .regular, fun _ => .error .einval⟩

def firstProcess : Emulator :=
  ⟨bytes "/linuxemu", ⟨1024, bytes "/root", [slash], plainTree⟩, false⟩

def noArrays : Arrays := ⟨fun _ => none, fun _ => none⟩

/-- A process that `LINUXEMU_ROOT` gives its root. -/
theorem rooted_running {root : Text} (entry : Text) (host : HostTree)
    (real : ∀ path, f.realpath path = .ok path) (given : root ≠ [])
    (rooted : getenv [entry] (bytes "LINUXEMU_ROOT") = some root)
    (quiet : getenv [entry] (bytes "LINUXEMU_SYSTRACE") = none) :
    Running f ⟨bytes "/linuxemu", ⟨1024, root, [slash], host⟩, false⟩ := by
  have booted : boot f 1024 host [bytes "/linuxemu", bytes "/bin/sh"] [entry] =
      .ok ⟨⟨bytes "/linuxemu", ⟨1024, root, [slash], host⟩, false⟩, bytes "/bin/sh",
        [bytes "/bin/sh"], [entry]⟩ := by
    simp only [boot, rooted, quiet, List.headD_cons, initializeEmulator, real]
    rw [guestPathInitialize_real _ given (real root)]
    rfl
  exact .main booted

theorem firstProcess_running : Running plainFiles firstProcess := by
  apply rooted_running (bytes "LINUXEMU_ROOT=/root") plainTree (fun _ => rfl)
  all_goals decide +kernel

theorem firstProcess_rooted : Rooted plainFiles firstProcess.paths := ⟨rfl, by decide +kernel⟩

/-- A script with an option, called with one argument. -/
theorem exec_hands_over_script :
    ∃ vectors b, guestProcessExec firstProcess noArrays (some (bytes "/root/run"))
        (some (bytes "/run")) (some [bytes "run", bytes "all"])
        (some [bytes "LD_LIBRARY_PATH=/lib", bytes "HOME=/"]) (.ok (bytes "#!/bin/sh -e\n")) =
          some (.ok vectors) ∧
      boot plainFiles 1024 plainTree (vectors.arguments.strings (maxExecVector + 6) 0)
        (vectors.environment.strings (maxExecVector + 2) 0) = .ok b ∧
      Stack.Gives b.guestArgv b.environ [bytes "/bin/sh", bytes "-e", bytes "/run", bytes "all"]
        [bytes "HOME=/"] := by
  have result := exec_hands_over firstProcess_running (.inl firstProcess_rooted) (fun _ _ _ => rfl)
    noArrays (bytes "/root/run") (bytes "/run") [bytes "run", bytes "all"]
    [bytes "LD_LIBRARY_PATH=/lib", bytes "HOME=/"] (.ok (bytes "#!/bin/sh -e\n"))
  dsimp only at result
  have reaches : ((guestProcessExec firstProcess noArrays (some (bytes "/root/run"))
      (some (bytes "/run")) (some [bytes "run", bytes "all"])
      (some [bytes "LD_LIBRARY_PATH=/lib", bytes "HOME=/"])
      (.ok (bytes "#!/bin/sh -e\n"))).bind Except.toOption).isSome = true := by decide +kernel
  obtain ⟨vectors, found⟩ := Option.isSome_iff_exists.mp reaches
  obtain ⟨outcome, reached, accepted⟩ := Option.bind_eq_some_iff.mp found
  cases outcome with
  | error => cases accepted
  | ok _ =>
    cases accepted
    obtain ⟨shebang, b, read, booted, -, -, gives⟩ := result.2 vectors reached
    have script : readShebang firstProcess.paths (.ok (bytes "#!/bin/sh -e\n")) =
        .ok (some ⟨bytes "/bin/sh", bytes "-e", bytes "/root/bin/sh"⟩) := by decide +kernel
    cases script.symm.trans read
    have kept : [bytes "LD_LIBRARY_PATH=/lib", bytes "HOME=/"].filter (fun x =>
        !(bytes "LINUXEMU_").isPrefixOf x && !(bytes "LD_LIBRARY_PATH=").isPrefixOf x) =
          [bytes "HOME=/"] := by decide +kernel
    have option : bytes "-e" ≠ [] := by decide +kernel
    rw [kept] at gives
    simp only [if_neg option] at gives
    exact ⟨vectors, b, reached, booted, gives⟩

/-- A process whose root fills its buffer, and where no guest path but a device is found. -/
def deepProcess : Emulator := ⟨bytes "/linuxemu", ⟨1024, deepRoot, [slash], plainTree⟩, false⟩

/-- It executes `/dev/null`, and the new process does not get past its rootfs. -/
theorem deep_root_not_handed_over :
    Running deepFiles deepProcess ∧
    guestPathResolve deepProcess.paths (some (bytes "/dev/null")) false 1024 =
      .ok (bytes "/dev/null") ∧
    ∃ vectors, guestProcessExec deepProcess noArrays (some (bytes "/dev/null"))
        (some (bytes "/dev/null")) (some [bytes "null"]) (some []) (.ok []) = some (.ok vectors) ∧
      boot deepFiles 1024 plainTree (vectors.arguments.strings (maxExecVector + 6) 0)
        (vectors.environment.strings (maxExecVector + 2) 0) = .error 1 := by
  refine ⟨?_, by decide +kernel, ?_⟩
  · apply rooted_running (bytes "LINUXEMU_ROOT=" ++ deepRoot) plainTree (fun _ => rfl)
    all_goals decide +kernel
  · have ready : Ready deepProcess [bytes "null"] (.ok []) none :=
      ⟨by decide +kernel, by simp, by decide +kernel, by decide⟩
    obtain ⟨many, -⟩ | ⟨-, vectors, reached, arguments, -⟩ :=
      guestProcessExec_ready ready noArrays (bytes "/dev/null") (bytes "/dev/null") []
    · cases many
    have again : guestPathInitialize deepFiles ⟨1024, [], [slash], plainTree⟩ (some deepRoot) =
        .ok deepProcess.paths := guestPathInitialize_real _ (by decide +kernel) rfl
    have refused (q : Paths) : guestPathChdir deepFiles deepProcess.paths (some [slash]) ≠ .ok q :=
      chdir_refused (by decide +kernel)
    have ends (trace : Bool) : initializeEmulator deepFiles 1024 plainTree (bytes "/linuxemu") trace
        (some deepRoot) (some [slash]) = .error 1 := by
      simp only [initializeEmulator, show deepFiles.realpath _ = .ok _ from rfl, again]
      split
      · rfl
      · rename_i q done
        exact absurd done (refused q)
    refine ⟨vectors, reached, ?_⟩
    rw [arguments]
    exact (boot_hostVector (e := deepProcess) ready.given _).trans (congrArg _ (ends _))

end Linuxemu.Exec
