import Linuxemu.ExecHandover

/-! The settings that a new emulator process takes from its environment (`getenv` in
`linuxemu.c`, `elf_loader.c` and `guest_process.c`), and how far the environment that a guest
gives to `execve` can change them. -/
namespace Linuxemu.Exec
open Linuxemu.Path
variable {shebang : Option Shebang} {name x : Text}

/-! ## The settings -/

/-- `ULONG_MAX` of the 32-bit host. -/
def ulongMax : Nat := 2 ^ 32 - 1

def isSpace (b : UInt8) : Bool := b == 32 || (9 ≤ b && b ≤ 13)

def isDigit (b : UInt8) : Bool := 48 ≤ b && b ≤ 57

/-- `strtoul` in base ten: the number, and what is left of the text. All of it is left when
there is no number. -/
def strtoul (value : Text) : Nat × Text :=
  let body := value.dropWhile isSpace
  let negative := body.head? == some 45
  let unsigned := if negative || body.head? == some 43 then body.drop 1 else body
  let digits := unsigned.takeWhile isDigit
  if digits = [] then (0, value)
  else
    let magnitude := digits.foldl (fun n b => 10 * n + (b.toNat - 48)) 0
    let number := if ulongMax < magnitude then ulongMax
      else if negative then (ulongMax + 1 - magnitude) % (ulongMax + 1) else magnitude
    (number, unsigned.drop digits.length)

/-- The number that goes into `LINUXEMU_LOAD_RETRY` of the process that tries again. -/
def guestProcessRetryLoad (environ : List Text) : Except Errno Nat :=
  match getenv environ (bytes "LINUXEMU_LOAD_RETRY") with
  | none => .ok 1
  | some value =>
    let (attempt, rest) := strtoul value
    if rest.length = value.length ∨ rest ≠ [] ∨ 31 ≤ attempt then .error .eexist
    else .ok (attempt + 1)

/-- What `main` does when the load fails with `EEXIST`; the tests have a switch that forbids
another try. -/
def loadAgain (environ : List Text) : Except Errno Nat :=
  if (getenv environ (bytes "LINUXEMU_TEST_OCCUPY_STATIC")).isSome then .error .eexist
  else guestProcessRetryLoad environ

def verbose (environ : List Text) : Bool := (getenv environ (bytes "LINUXEMU_VERBOSE")).isSome

/-- What a process decides on its own: its paths, what to load with which arguments, what to
print, and what to do when the load fails. -/
structure Decisions where
  emulator : Emulator
  loadPath : Text
  guestArgv : List Text
  verbose : Bool
  loadAgain : Except Errno Nat

def Boot.decisions (b : Boot) : Decisions :=
  ⟨b.emulator, b.loadPath, b.guestArgv, Exec.verbose b.environ, Exec.loadAgain b.environ⟩

/-- The environment of the guest. -/
def Boot.shown (b : Boot) : List Text := b.environ.filter Stack.guestEnvironmentEntry

/-- The process after `execve`, once it has its paths: what it decides and what it shows to its
guest. There is none when the call fails or the process gives up before. -/
def nextProcess (f : HostFiles) (e : Emulator) (a : Arrays) (hostExecutable guestExecutable : Text)
    (guestArgv guestEnvp : List Text) (buffer : Except Errno Text) :
    Option (Decisions × List Text) :=
  match guestProcessExec e a (some hostExecutable) (some guestExecutable) (some guestArgv)
      (some guestEnvp) buffer with
  | some (.ok vectors) =>
    match boot f e.paths.pathMax e.paths.host (vectors.arguments.strings (maxExecVector + 6) 0)
        (vectors.environment.strings (maxExecVector + 2) 0) with
    | .ok b => some (b.decisions, b.shown)
    | .error _ => none
  | _ => none

/-! ## What becomes of a setting -/

/-- The entry sets this variable. -/
def Sets (name : Text) (x : Text) : Bool := (name ++ bytes "=").isPrefixOf x

theorem getenv_isSome (environ : List Text) (name : Text) :
    (getenv environ name).isSome = environ.any (Sets name) := by
  unfold getenv
  rw [Option.isSome_map, List.isSome_find?]
  rfl

/-- Only the first bytes of an entry say whether it is hidden. -/
theorem hiddenEnvironment_append (long : 16 ≤ x.length) (rest : Text) :
    hiddenEnvironment (x ++ rest) = hiddenEnvironment x := by
  have same {n : Nat} (small : n ≤ 16) : (x ++ rest).take n = x.take n :=
    List.take_append_of_le_length (by omega)
  simp only [hiddenEnvironment, same (show 14 ≤ 16 by decide), same (show 15 ≤ 16 by decide),
    same (show 16 ≤ 16 by decide)]

/-- The first filter lets settings of this name through. -/
def Passes (name : Text) : Prop :=
  16 ≤ (name ++ bytes "=").length ∧ hiddenEnvironment (name ++ bytes "=") = false

instance (name : Text) : Decidable (Passes name) := inferInstanceAs (Decidable (_ ∧ _))

theorem Passes.sets (passes : Passes name) (sets : Sets name x = true) :
    hiddenEnvironment x = false := by
  rw [Sets, List.isPrefixOf_iff_prefix] at sets
  obtain ⟨rest, rfl⟩ := sets
  rw [hiddenEnvironment_append passes.1]
  exact passes.2

theorem Passes.find (passes : Passes name) (guestEnvp : List Text) :
    (guestEnvp.filter (!hiddenEnvironment ·)).find? (Sets name) = guestEnvp.find? (Sets name) := by
  rw [List.find?_filter]
  congr 1
  funext x
  cases sets : Sets name x with
  | false => simp
  | true => simp [passes.sets sets]

/-- A variable other than the one for tracing reaches the new process as the guest set it. -/
theorem Passes.getenv (passes : Passes name)
    (other : Sets name (bytes "LINUXEMU_SYSTRACE=1") = false) (e : Emulator)
    (guestEnvp : List Text) :
    getenv (handedEnvironment e guestEnvp) name = getenv guestEnvp name := by
  have found : (handedEnvironment e guestEnvp).find? (Sets name) =
      guestEnvp.find? (Sets name) := by
    rw [handedEnvironment, List.find?_append, passes.find]
    cases guestEnvp.find? (Sets name) with
    | some x => rfl
    | none =>
      cases e.traceEnabled with
      | false => rfl
      | true => simp [other]
  change ((handedEnvironment e guestEnvp).find? (Sets name)).map _ =
    (guestEnvp.find? (Sets name)).map _
  rw [found]

def systrace : Text := bytes "LINUXEMU_SYSTRACE"

theorem getenv_systrace (e : Emulator) (guestEnvp : List Text) :
    (getenv (handedEnvironment e guestEnvp) systrace).isSome =
      (e.traceEnabled || guestEnvp.any (Sets systrace)) := by
  have passes : Passes systrace := by decide +kernel
  have own : Sets systrace (bytes "LINUXEMU_SYSTRACE=1") = true := by decide +kernel
  rw [getenv_isSome, handedEnvironment, List.any_append, ← List.isSome_find?, passes.find,
    List.isSome_find?, Bool.or_comm]
  cases e.traceEnabled with
  | false => rfl
  | true => simp [own]

theorem verbose_handed (e : Emulator) (guestEnvp : List Text) :
    verbose (handedEnvironment e guestEnvp) = verbose guestEnvp := by
  have passes : Passes (bytes "LINUXEMU_VERBOSE") := by decide +kernel
  rw [verbose, passes.getenv (by decide +kernel), verbose]

theorem loadAgain_handed (e : Emulator) (guestEnvp : List Text) :
    loadAgain (handedEnvironment e guestEnvp) = loadAgain guestEnvp := by
  have occupy : Passes (bytes "LINUXEMU_TEST_OCCUPY_STATIC") := by decide +kernel
  have retry : Passes (bytes "LINUXEMU_LOAD_RETRY") := by decide +kernel
  rw [loadAgain, guestProcessRetryLoad, occupy.getenv (by decide +kernel),
    retry.getenv (by decide +kernel), loadAgain, guestProcessRetryLoad]

/-! ## The next process -/

/-- Tracing is no more than a flag of the process. -/
theorem initializeEmulator_trace (f : HostFiles) (pathMax : Nat) (host : HostTree) (emulator : Text)
    (trace : Bool) (root cwd : Option Text) :
    initializeEmulator f pathMax host emulator trace root cwd =
      (initializeEmulator f pathMax host emulator false root cwd).map
        ({ · with traceEnabled := trace }) := by
  unfold initializeEmulator
  split
  · rfl
  dsimp only
  split
  · rfl
  split
  · rfl
  split
  · rfl
  split
  · rfl
  · rfl

section
variable {f : HostFiles} {e : Emulator} {guestArgv : List Text} {buffer : Except Errno Text}

/-- The new process as `main` sets it up, but for the trace flag. -/
def successor (f : HostFiles) (e : Emulator) : Except Nat Emulator :=
  initializeEmulator f e.paths.pathMax e.paths.host e.emulatorPath false
    (some e.paths.rootPath) (some e.paths.guestCwd)

theorem boot_successor {hostExecutable guestExecutable : Text} (given : guestArgv ≠ [])
    (environ : List Text) :
    boot f e.paths.pathMax e.paths.host
        (hostVector e hostExecutable guestExecutable shebang guestArgv) environ =
      (successor f e).map fun next =>
        ⟨{ next with traceEnabled := (getenv environ systrace).isSome },
          (shebang.map (·.hostPath)).getD hostExecutable,
          handedArguments shebang guestExecutable guestArgv, environ⟩ := by
  rw [boot_hostVector given, initializeEmulator_trace, ← successor]
  cases successor f e with
  | error status => rfl
  | ok next => rfl

/-- The entries that are not hidden fit into the array. -/
def Fits (guestEnvp : List Text) : Prop :=
  (guestEnvp.filter (!hiddenEnvironment ·)).length ≤ maxExecVector

instance (guestEnvp : List Text) : Decidable (Fits guestEnvp) :=
  inferInstanceAs (Decidable (_ ≤ _))

theorem nextProcess_ready (ready : Ready e guestArgv buffer shebang) (a : Arrays)
    (hostExecutable guestExecutable : Text) (guestEnvp : List Text) :
    nextProcess f e a hostExecutable guestExecutable guestArgv guestEnvp buffer =
      if Fits guestEnvp then (successor f e).toOption.map fun next =>
        (⟨{ next with traceEnabled := e.traceEnabled || guestEnvp.any (Sets systrace) },
          (shebang.map (·.hostPath)).getD hostExecutable,
          handedArguments shebang guestExecutable guestArgv, verbose guestEnvp,
          loadAgain guestEnvp⟩, guestEnvp.filter Stack.guestEnvironmentEntry)
      else none := by
  unfold nextProcess
  obtain ⟨many, full⟩ | ⟨fits, vectors, reached, listed, found⟩ :=
    guestProcessExec_ready ready a hostExecutable guestExecutable guestEnvp
  · have beyond : ¬ Fits guestEnvp := Nat.not_le.mpr many
    rw [full, if_neg beyond]
  · have within : Fits guestEnvp := fits
    rw [reached, if_pos within]
    dsimp only
    rw [listed, found, boot_successor ready.given]
    cases successor f e with
    | error status => rfl
    | ok next =>
      simp only [Except.map, Except.toOption, Option.map_some, Boot.decisions, Boot.shown,
        getenv_systrace, verbose_handed, loadAgain_handed, handedEnvironment_filter]

theorem nextProcess_unready (unready : ∀ shebang, ¬ Ready e guestArgv buffer shebang)
    (a : Arrays) (hostExecutable guestExecutable : Text) (guestEnvp : List Text) :
    nextProcess f e a hostExecutable guestExecutable guestArgv guestEnvp buffer = none := by
  obtain ⟨errno, failed⟩ :=
    guestProcessExec_unready unready a hostExecutable guestExecutable guestEnvp
  rw [nextProcess, failed]

end

/-! ## Two environments -/

/-- Entries that are not the emulator's. -/
def others (guestEnvp : List Text) : List Text :=
  guestEnvp.filter fun x => !(bytes "LINUXEMU_").isPrefixOf x

/-- The guest is shown none of the emulator's entries. -/
theorem shown_others (guestEnvp : List Text) :
    guestEnvp.filter Stack.guestEnvironmentEntry =
      (others guestEnvp).filter fun x => !(bytes "LD_LIBRARY_PATH=").isPrefixOf x := by
  rw [others, List.filter_filter]
  apply List.filter_congr
  intro x _
  rw [guestEnvironmentEntry_names, Bool.and_comm]

/-- Nothing but the environment can keep the next process from coming to its load. -/
structure Starts (f : HostFiles) (e : Emulator) (guestArgv : List Text)
    (buffer : Except Errno Text) : Prop where
  ready : ∃ shebang, Ready e guestArgv buffer shebang
  boots : ∃ next, successor f e = .ok next

/-- Two environments that set the emulator's switches alike; a process that traces passes
that on whatever they say. -/
structure Alike (e : Emulator) (first second : List Text) : Prop where
  trace : e.traceEnabled = true ∨ first.any (Sets systrace) = second.any (Sets systrace)
  verbose : Exec.verbose first = Exec.verbose second
  loadAgain : Exec.loadAgain first = Exec.loadAgain second

theorem alike_iff {e : Emulator} {first second : List Text} : Alike e first second ↔
    (e.traceEnabled || first.any (Sets systrace)) = (e.traceEnabled || second.any (Sets systrace)) ∧
      Exec.verbose first = Exec.verbose second ∧ Exec.loadAgain first = Exec.loadAgain second := by
  have trace : (e.traceEnabled = true ∨ first.any (Sets systrace) = second.any (Sets systrace)) ↔
      (e.traceEnabled || first.any (Sets systrace)) =
        (e.traceEnabled || second.any (Sets systrace)) := by
    cases e.traceEnabled <;> simp
  rw [← trace]
  exact ⟨fun h => ⟨h.trace, h.verbose, h.loadAgain⟩, fun h => ⟨h.1, h.2.1, h.2.2⟩⟩

/-- **Two environments that differ in the emulator's entries alone** lead to the same process
exactly when they set its switches alike. -/
theorem environment_steers_iff (f : HostFiles) (e : Emulator) (a : Arrays)
    (hostExecutable guestExecutable : Text) (guestArgv : List Text) (buffer : Except Errno Text)
    {first second : List Text} (same : others first = others second) :
    nextProcess f e a hostExecutable guestExecutable guestArgv first buffer =
        nextProcess f e a hostExecutable guestExecutable guestArgv second buffer ↔
      (Starts f e guestArgv buffer →
        (Fits first ↔ Fits second) ∧ (Fits first → Alike e first second)) := by
  by_cases ready : ∃ shebang, Ready e guestArgv buffer shebang
  · obtain ⟨shebang, ready⟩ := ready
    rw [nextProcess_ready ready, nextProcess_ready ready]
    cases booted : successor f e with
    | error status =>
      refine iff_of_true ?_ fun starts => ?_
      · simp [Except.toOption]
      · obtain ⟨next, ok⟩ := starts.boots
        cases booted.symm.trans ok
    | ok next =>
      have starts : Starts f e guestArgv buffer := ⟨⟨shebang, ready⟩, next, booted⟩
      have shown : first.filter Stack.guestEnvironmentEntry =
          second.filter Stack.guestEnvironmentEntry := by
        rw [shown_others, shown_others, same]
      by_cases one : Fits first
      · by_cases two : Fits second
        · simp only [if_pos one, if_pos two, Except.toOption, Option.map_some, Option.some.injEq,
            Prod.mk.injEq, Decisions.mk.injEq, Emulator.mk.injEq, shown, true_and, and_true]
          rw [← alike_iff]
          exact ⟨fun alike _ => ⟨iff_of_true one two, fun _ => alike⟩,
            fun condition => (condition starts).2 one⟩
        · rw [if_pos one, if_neg two]
          refine iff_of_false nofun fun condition => two ?_
          exact (condition starts).1.mp one
      · by_cases two : Fits second
        · rw [if_neg one, if_pos two]
          refine iff_of_false nofun fun condition => one ?_
          exact (condition starts).1.mpr two
        · rw [if_neg one, if_neg two]
          exact iff_of_true rfl fun _ => ⟨iff_of_false one two, fun fits => absurd fits one⟩
  · refine iff_of_true ?_ fun starts => absurd starts.ready ready
    rw [nextProcess_unready (not_exists.mp ready), nextProcess_unready (not_exists.mp ready)]

/-- What comes of a call of `/run` with this environment. -/
def runNext (guestEnvp : List Text) : Option (Decisions × List Text) :=
  nextProcess plainFiles firstProcess noArrays (bytes "/root/run") (bytes "/run") [bytes "run"]
    guestEnvp (.ok [])

/-- A variable of the emulator's kind that nothing reads makes no difference. -/
theorem environment_steers_unread :
    runNext [bytes "LINUXEMU_COLOR=1", bytes "HOME=/"] = runNext [bytes "HOME=/"] :=
  (environment_steers_iff plainFiles firstProcess noArrays (bytes "/root/run") (bytes "/run")
    [bytes "run"] (.ok []) (by decide +kernel)).mpr fun _ =>
      ⟨by decide +kernel, fun _ => ⟨.inr (by decide +kernel), by decide +kernel, by decide +kernel⟩⟩

/-- A guest that sets the variable for tracing has the next process trace. -/
theorem guest_starts_trace :
    others [bytes "LINUXEMU_SYSTRACE=1"] = others [] ∧
      (runNext [bytes "LINUXEMU_SYSTRACE=1"]).map (·.1.emulator.traceEnabled) = some true ∧
      (runNext []).map (·.1.emulator.traceEnabled) = some false := by
  have ready : Ready firstProcess [bytes "run"] (.ok []) none :=
    ⟨by decide +kernel, nofun, by decide +kernel, by decide +kernel⟩
  have booted : successor plainFiles firstProcess = .ok firstProcess :=
    (firstProcess_running.settled ready.rooted).again (.inl firstProcess_rooted) false
      fun _ _ _ => rfl
  have set : [bytes "LINUXEMU_SYSTRACE=1"].any (Sets systrace) = true := by decide +kernel
  have fits : Fits [bytes "LINUXEMU_SYSTRACE=1"] := by decide +kernel
  refine ⟨by decide +kernel, ?_, ?_⟩
  · rw [runNext, nextProcess_ready ready, booted, if_pos fits, set]
    rfl
  · rw [runNext, nextProcess_ready ready, booted, if_pos (by decide +kernel)]
    rfl

end Linuxemu.Exec
