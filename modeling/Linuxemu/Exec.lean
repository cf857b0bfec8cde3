import Linuxemu.Path
import Mathlib.Data.List.DropRight
import Mathlib.Logic.Function.Basic

/-! `execve` (`guest_process.c`): the guest's vectors become those of a new emulator
process, whose `main` (`linuxemu.c`) takes them apart again. -/
namespace Linuxemu.Exec
open Linuxemu.Path

def maxExecVector : Nat := 4096

/-! ## Vectors -/

/-- A static array of pointers to strings; `none` is a null pointer. -/
abbrev Pointers := Nat → Option Text

/-- A store to an array of this size; `none` is a store outside it. -/
def Pointers.store (size : Nat) (v : Pointers) (i : Nat) (x : Option Text) : Option Pointers :=
  if i < size then some (Function.update v i x) else none

/-- Store these strings one behind the other, and say where the next one goes. -/
def Pointers.fill (size : Nat) : Pointers → Nat → List Text → Option (Pointers × Nat)
  | v, i, [] => some (v, i)
  | v, i, x :: rest => do
    let v ← v.store size i (some x)
    fill size v (i + 1) rest

/-- What `execve` finds in an array of this size: the strings up to the null pointer. -/
def Pointers.strings (v : Pointers) : Nat → Nat → List Text
  | 0, _ => []
  | size + 1, i =>
    match v i with
    | none => []
    | some x => x :: v.strings size (i + 1)

/-! ## Scripts -/

structure Shebang where
  interpreter : Text
  option : Text
  hostPath : Text
  deriving DecidableEq, Repr

def blank (b : UInt8) : Bool := b == 32 || b == 9

def newline : UInt8 := 10

/-- `buffer` is what `open` and one `read` of 255 bytes give. -/
def readShebang (p : Paths) (buffer : Except Errno Text) :
    Except (Option Errno) (Option Shebang) :=
  match buffer with
  | .error e => .error (some e)
  | .ok buffer =>
    if buffer.take 2 ≠ bytes "#!" then .ok none
    else
      let cursor := ((buffer.drop 2).takeWhile (· != 0)).dropWhile blank
      let interpreter := cursor.takeWhile fun b => b != newline && !blank b
      let rest := (cursor.dropWhile fun b => b != newline && !blank b).dropWhile blank
      let option := (rest.takeWhile (· != newline)).rdropWhile fun b => blank b || b == 13
      if interpreter = [] then .error (some .enoexec)
      else if p.pathMax ≤ interpreter.length then .error (some .enametoolong)
      else if 256 ≤ option.length then .error (some .e2big)
      else match guestPathResolve p (some interpreter) false p.pathMax with
        | .error e => .error e
        | .ok hostPath => .ok (some ⟨interpreter, option, hostPath⟩)

/-! ## The old process -/

def hiddenEnvironment (value : Text) : Bool :=
  value.take 14 == bytes "LINUXEMU_ROOT=" || value.take 15 == bytes "LINUXEMU_GUEST_" ||
    value.take 16 == bytes "LD_LIBRARY_PATH="

/-- What an emulator process keeps: its own path, its paths and whether it traces. -/
structure Emulator where
  emulatorPath : Text
  paths : Paths
  traceEnabled : Bool

/-- The loop over `guest_envp`, with the number of entries kept so far. -/
def keepEnvironment : Pointers → Nat → List Text → Option (Except Errno (Pointers × Nat))
  | v, count, [] => some (.ok (v, count))
  | v, count, x :: rest =>
    if hiddenEnvironment x then keepEnvironment v count rest
    else if count = maxExecVector then some (.error .e2big)
    else do
      let v ← v.store (maxExecVector + 2) count (some x)
      keepEnvironment v (count + 1) rest

def hostEnvironment (e : Emulator) (v : Pointers) (guestEnvp : List Text) :
    Option (Except Errno Pointers) := do
  match ← keepEnvironment v 0 guestEnvp with
  | .error errno => return .error errno
  | .ok (v, count) =>
    if e.traceEnabled then
      let v ← v.store (maxExecVector + 2) count (some (bytes "LINUXEMU_SYSTRACE=1"))
      let v ← v.store (maxExecVector + 2) (count + 1) none
      return .ok v
    else
      let v ← v.store (maxExecVector + 2) count none
      return .ok v

/-- The strings of `host_arguments` behind the load path. -/
def scriptArguments (shebang : Shebang) (guestExecutable : Text) (guestArgv : List Text) : List Text :=
  [shebang.interpreter] ++ (if shebang.option = [] then [] else [shebang.option]) ++
    [guestExecutable] ++ guestArgv.drop 1

def hostArguments (e : Emulator) (v : Pointers) (hostExecutable guestExecutable : Text)
    (shebang : Option Shebang) (guestArgv : List Text) : Option Pointers := do
  let size := maxExecVector + 6
  let v ← v.store size 0 (some e.emulatorPath)
  let v ← v.store size 1 (some (bytes "--linuxemu-exec"))
  let v ← v.store size 2 (some e.paths.rootPath)
  let v ← v.store size 3 (some e.paths.guestCwd)
  let v ← v.store size 4 (some ((shebang.map (·.hostPath)).getD hostExecutable))
  let (v, hostIndex) ← match shebang with
    | some shebang => v.fill size 5 (scriptArguments shebang guestExecutable guestArgv)
    | none => v.fill size 5 guestArgv
  v.store size hostIndex none

/-- How many more arguments a script has than its call. -/
def extraArguments : Option Shebang → Nat
  | none => 0
  | some shebang => if shebang.option ≠ [] then 2 else 1

/-- The static arrays at the time of a call. -/
structure Arrays where
  arguments : Pointers
  environment : Pointers

/-- Up to the call of `execve`: its two vectors, or an error; `none` is a store outside an
array. `guestArgv` and `guestEnvp` are the strings before the null pointer, and no list
for a null pointer; `buffer` is the start of the executable. -/
def guestProcessExec (e : Emulator) (a : Arrays) (hostExecutable guestExecutable : Option Text)
    (guestArgv guestEnvp : Option (List Text)) (buffer : Except Errno Text) :
    Option (Except (Option Errno) Arrays) :=
  match hostExecutable, guestExecutable, guestArgv, guestEnvp with
  | some hostExecutable, some guestExecutable, some guestArgv, some guestEnvp =>
    if guestArgv = [] ∨ e.paths.rootPath = [] then some (.error (some .einval))
    else if maxExecVector < guestArgv.length then some (.error (some .e2big))
    else match readShebang e.paths buffer with
      | .error errno => some (.error errno)
      | .ok shebang =>
        if shebang ≠ none ∧ maxExecVector < guestArgv.length + extraArguments shebang then
          some (.error (some .e2big))
        else do
          match ← hostEnvironment e a.environment guestEnvp with
          | .error errno => return .error (some errno)
          | .ok environment =>
            let arguments ←
              hostArguments e a.arguments hostExecutable guestExecutable shebang guestArgv
            return .ok ⟨arguments, environment⟩
  | _, _, _, _ => some (.error (some .einval))

/-! ## The new process -/

/-- `getenv`. -/
def getenv (environ : List Text) (name : Text) : Option Text :=
  (environ.find? fun x => (name ++ bytes "=").isPrefixOf x).map (·.drop (name.length + 1))

/-- `runtime_initialize`, `guest_process_initialize` and the rootfs; the error is the exit
status. The process starts in `/`. -/
def initializeEmulator (f : HostFiles) (pathMax : Nat) (host : HostTree) (emulator : Text)
    (trace : Bool) (root cwd : Option Text) : Except Nat Emulator :=
  match f.realpath emulator with
  | .error _ => .error 1
  | .ok emulatorPath =>
    let start : Paths := ⟨pathMax, [], [slash], host⟩
    match root with
    | none => .ok ⟨emulatorPath, start, trace⟩
    | some root =>
      match guestPathInitialize f start (some root) with
      | .error _ => .error 1
      | .ok rooted =>
        match cwd with
        | none => .ok ⟨emulatorPath, rooted, trace⟩
        | some cwd =>
          match guestPathChdir f rooted (some cwd) with
          | .error _ => .error 1
          | .ok paths => .ok ⟨emulatorPath, paths, trace⟩

/-- What `main` has found out when it goes on to load the program. -/
structure Boot where
  emulator : Emulator
  loadPath : Text
  guestArgv : List Text
  environ : List Text

/-- `main` up to its rootfs. -/
def boot (f : HostFiles) (pathMax : Nat) (host : HostTree) (argv environ : List Text) :
    Except Nat Boot :=
  let trace := (getenv environ (bytes "LINUXEMU_SYSTRACE")).isSome
  let run (root cwd : Option Text) (loadPath : Text) (guestArgv : List Text) : Except Nat Boot :=
    (initializeEmulator f pathMax host (argv.headD []) trace root cwd).map fun emulator =>
      ⟨emulator, loadPath, guestArgv, environ⟩
  match argv with
  | _ :: second :: root :: cwd :: loadPath :: first :: rest =>
    if second = bytes "--linuxemu-exec" then run (some root) (some cwd) loadPath (first :: rest)
    else run (getenv environ (bytes "LINUXEMU_ROOT")) none second (argv.drop 1)
  | _ :: loadPath :: _ => run (getenv environ (bytes "LINUXEMU_ROOT")) none loadPath (argv.drop 1)
  | _ => .error 2

end Linuxemu.Exec
