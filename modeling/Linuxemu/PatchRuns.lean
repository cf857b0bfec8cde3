import Linuxemu.HeapWindow
import Linuxemu.LoadedImage
import Linuxemu.ProtectedPage

/-! The patch table over whole runs: which calls keep it sound, and the one that can
give an address a second record. -/
namespace Linuxemu.Guest
open Lib Registry
variable {m : Machine} {address : Nat}
variable {result : Int × Machine} {protection : Protection} {e : MprotectHost} {length : Nat}
  {m' : Machine} {code : Int}

/-- No address of the range that has a record holds an instruction to be patched. -/
def Machine.noStale (m : Machine) (address length : Nat) : Bool :=
  m.image.patches.all fun r =>
    !(decide (address ≤ r.address) && decide (r.address < address + length)) ||
      !(m.image.host.peek r.address).any patchable

theorem noStale_quiet (fresh : m.noStale address length = true) :
    m.image.Quiet fun a => address ≤ a ∧ a < address + length := by
  intro r member inside w seen
  have one := List.all_eq_true.mp fresh r member
  simpa [inside.1, inside.2, seen] using one

/-- Making owned memory executable must not meet a recorded address that holds an
instruction to be patched. Other calls are free. -/
def PatchesFresh (m : Machine) : MemoryCall → Prop
  | .mprotect address length protection _ =>
    protection &&& 4 ≠ 0 →
    m.guestMemoryRuntimeOwned address.toNat (alignUp length.toNat m.pageBytes) = true →
    m.noStale address.toNat (alignUp length.toNat m.pageBytes) = true
  | _ => True

/-! ## mmap2 -/

section Mmap2
variable {m : Machine} {r : Registers} {e : MmapHost} {protection : Protection} {address : Nat}
  {host filled : Host}

/-- The new pages have no traps and no records. -/
theorem cleared_sound (sound : m.image.Sound) (maps : m.Maps r e protection address host)
    (high : address + m.mappedLength r ≤ guestMaxAddress) :
    (m.cleared r address filled).Sound ∧
      (m.cleared r address filled).Quiet fun a => address ≤ a ∧ a < address + m.mappedLength r := by
  have aligned := (mmap_granted maps.asked).aligned
  constructor
  · apply (sound.remap filled address r.length).forget
    intro a low below
    rw [maps_mappedLength maps] at below
    have inside := (inSpan_iff m.image.host aligned r.length a).mpr ⟨low, below⟩
    show m.image.untrap address r.length a = none
    rw [Image.untrap, if_pos inside]
  · intro record member inside
    obtain ⟨-, outside⟩ := mem_forget.mp member
    rw [if_neg (by unfold guestMaxAddress at high; unfold uintptrMax; omega)] at outside
    omega

theorem linuxMmap2_sound (sound : m.image.Sound) (call : linuxMmap2 r e m = some result) :
    result.2.image.Sound := by
  cases linuxMmap2_outcome call with
  | refused _ _ image =>
    rw [image]
    exact sound
  | dropped _ maps image =>
    rw [image]
    exact (sound.remap _ _ _).remap _ _ _
  | @abandoned _ _ protection address host filled patched _ maps high copied scan image =>
    obtain ⟨cleared, quiet⟩ := cleared_sound sound maps high
    obtain ⟨bytes, frame⟩ := scan.frame
    have aligned : address % patched.host.pageSize.bytes = 0 := by
      have size : patched.host.pageSize = m.image.host.pageSize := by
        rw [frame]
        exact copied.pages.1.trans (maps_pages maps 0).1
      rw [size]
      exact (mmap_granted maps.asked).aligned
    rw [image]
    exact (scan.sound cleared quiet).1.abandon aligned
  | mapped maps _ high _ _ scan _ image =>
    obtain ⟨cleared, quiet⟩ := cleared_sound sound maps high
    have patched := (scan.sound cleared quiet).1
    obtain image | image := image
    · rw [image]
      exact patched
    · rw [image]
      exact patched.host _

end Mmap2

/-! ## mprotect -/

/-- However the call ends, the scan has met nothing stale, and what it added is there or has
been rolled back. -/
theorem MprotectOutcome.sound (sound : m.image.Sound)
    (fresh : protection.exec = true → m.noStale address length = true)
    (outcome : MprotectOutcome m address length protection e result) : result.2.image.Sound := by
  have scanned {error : Option Errno} {patched : Image} (exec : protection.exec = true)
      (scan : armPatchRange address length (m.opened address length) = some (error, patched)) :
      patched.Sound := by
    refine ((armPatchRange_patched scan).sound (sound.host _) ?_).1
    intro r member inside w seen
    exact noStale_quiet (fresh exec) r member inside w ((peek_protect _ _ _ _ _).symm.trans seen)
  cases outcome with
  | refused _ _ image =>
    rw [image]
    exact sound
  | undone _ exec _ _ scan _ rolled image =>
    have restored := (scanned exec scan).rollback rolled
    rw [image]
    split
    · exact restored.host _
    · exact restored
  | left _ exec _ _ scan _ _ rolled image =>
    rw [image]
    exact (scanned exec scan).rollback rolled
  | @settled _ _ patched _ _ data scan image =>
    have kept : patched.Sound := by
      cases exec : protection.exec with
      | false => exact data exec ▸ sound
      | true => exact scanned exec (scan exec).2.2
    rw [image]
    exact kept.host _

theorem translateProtection_exec {linux : UInt32}
    (translated : translateProtection linux = some protection) (exec : protection.exec = true) :
    linux &&& 4 ≠ 0 := by
  unfold translateProtection at translated
  split at translated
  · cases translated
  · cases translated
    exact of_decide_eq_true exec

theorem linuxMprotectRuntime_sound {address length protection : UInt32} (sound : m.image.Sound)
    (fresh : PatchesFresh m (.mprotect address length protection e))
    (call : linuxMprotectRuntime address length protection e m = some (code, m')) :
    m'.image.Sound := by
  obtain ⟨-, -, image, -⟩ | ⟨-, -, _, image⟩ | ⟨wanted, protects, outcome⟩ :=
    linuxMprotectRuntime_outcome call
  · rw [image]
    exact sound
  · rw [image]
    exact sound.host _
  · exact outcome.sound sound
      fun exec => fresh (translateProtection_exec protects.translated exec) protects.owned

/-! ## munmap and brk -/

theorem linuxMunmapRuntime_sound (address length : UInt32) (e : MunmapHost)
    (sound : m.image.Sound) :
    (linuxMunmapRuntime address length e m).2.image.Sound := by
  have outcome := linuxMunmapRuntime_outcome address length e m
  generalize linuxMunmapRuntime address length e m = result at outcome
  cases outcome with
  | refused => exact sound
  | deferred => exact sound
  | failed => exact sound
  | unmapped aligned =>
    exact (sound.remap _ _ _).forget fun a low high => munmap_trapped aligned low high

theorem guestBrkSet_sound (sound : m.image.Sound) (requested : Nat) (outcome : Except Errno Nat) :
    (guestBrkSet requested outcome m).2.image.Sound := by
  have step := guestBrkSet_step requested outcome m
  generalize guestBrkSet requested outcome m = result at step
  cases step with
  | refused | moved | failed => exact sound
  | released => exact sound.remap _ _ _
  | elsewhere | full => exact (sound.remap _ _ _).remap _ _ _
  | grown => exact sound.remap _ _ _

/-! ## Runs -/

theorem call_sound {c : MemoryCall} (sound : m.image.Sound) (fresh : PatchesFresh m c)
    (done : m.call c = some (code, m')) : m'.image.Sound := by
  have entered : m.entered.image.Sound := sound
  cases c with
  | mmap2 r e => exact linuxMmap2_sound entered done
  | mprotect address length protection e => exact linuxMprotectRuntime_sound entered fresh done
  | munmap address length e =>
    have kept := linuxMunmapRuntime_sound address length e entered
    rw [Machine.call, Option.some.injEq] at done
    rw [done] at kept
    exact kept
  | brk requested outcome =>
    have kept := guestBrkSet_sound entered requested.toNat outcome
    rw [Machine.call, Option.some.injEq, Prod.mk.injEq] at done
    rw [done.2] at kept
    exact kept

theorem run_sound {start : Machine} (sound : start.image.Sound)
    (run : RunUnder PatchesFresh start m) : m.image.Sound := by
  induction run with
  | start => exact sound
  | call _ fresh done ih => exact call_sound ih fresh done
  | store _ done ih =>
    obtain ⟨image, rfl, -, patches, -, trapped⟩ := guestStore_frame done
    exact ih.fewer patches trapped
  | emulator _ _ _ ih => exact ih.host _

/-- In a run that never makes memory executable while a recorded address in it holds
a new instruction to patch, the table has one record an address and answers with
the instruction under every trap. -/
theorem patch_table_sound {start m : Machine} (loaded : Loaded start)
    (run : RunUnder PatchesFresh start m) :
    (m.image.patches.map PatchRecord.address).Nodup ∧
      ∀ a w, m.image.trapped a = some w → armPatchOriginal m.image.patches a = some w := by
  have sound := run_sound (loaded_sound loaded) run
  exact ⟨sound.nodup, fun _ _ trapped => sound.original trapped⟩

/-! ### A mapped executable -/

/-- The file of the small program, mapped again as code at 0x20000000. -/
def mappedCode : Machine :=
  after smallProgram (smallProgram.call (.mmap2 ⟨0, 4096, 5, 0x2, 3, 0⟩ (willingHost 0x20000000)))

def protecting (protection : UInt32) : MemoryCall :=
  .mprotect 0x20000000 4096 protection ⟨none, none, none, none, .enomem⟩

theorem mappedCode_facts :
    (smallProgram.call (.mmap2 ⟨0, 4096, 5, 0x2, 3, 0⟩ (willingHost 0x20000000))).map Prod.fst =
      some 0x20000000 ∧
    mappedCode.entered.pageBytes = 4096 ∧
    mappedCode.entered.image.host.pages ((0x20000000 : UInt32).toNat / 4096) =
      some ⟨⟨true, false, true⟩, none, false⟩ ∧
    mappedCode.entered.guestMemoryRuntimeOwned (0x20000000 : UInt32).toNat 4096 = true ∧
    mappedCode.entered.image.patches.length ≤ 3072 ∧
    mappedCode.noStale 0x20000000 (alignUp 4096 mappedCode.pageBytes) = true ∧
    (guestMemoryRuntimeProtect mappedCode.entered.registry (0x20000000 : UInt32).toNat 4096
      1).code = 0 := by decide +kernel

theorem mappedCode_step :
    smallProgram.call (.mmap2 ⟨0, 4096, 5, 0x2, 3, 0⟩ (willingHost 0x20000000)) =
      some (0x20000000, mappedCode) :=
  after_eq mappedCode_facts.1

/-- Making the code executable again finds its trap in place and adds no record. -/
theorem protected_again_sound :
    ((after mappedCode (mappedCode.call (protecting 5))).image.patches.map
      PatchRecord.address).Nodup := by
  have mapping : PatchesFresh smallProgram
      (.mmap2 ⟨0, 4096, 5, 0x2, 3, 0⟩ (willingHost 0x20000000)) := trivial
  obtain ⟨-, size, page, owned, few, quiet, granted⟩ := mappedCode_facts
  have fresh : PatchesFresh mappedCode (protecting 5) := fun _ _ => quiet
  have own : OwnPage mappedCode.entered 0x20000000 := ⟨size, by decide, ⟨_, page⟩, owned, few⟩
  obtain ⟨patched, scan⟩ := own.scan
  obtain ⟨m, call, -⟩ := own.settles scan ⟨none, none, none, none, .enomem⟩ rfl granted
  have step : mappedCode.call (protecting 5) =
      some (0, after mappedCode (mappedCode.call (protecting 5))) := after_eq (congrArg (Option.map Prod.fst) call)
  exact (patch_table_sound smallProgram_loaded
    (.call (.call .start mapping mappedCode_step) fresh step)).1

/-- The code opened for writing. -/
def openedCode : Machine := after mappedCode (mappedCode.call (protecting 3))

/-- A guest store, or nothing if it is not possible. -/
def Machine.stored (m : Machine) (address : Nat) (value : UInt8) : Machine :=
  (m.guestStore address value).getD m

theorem Reached.stored (h : Reached m) {value : UInt8}
    (possible : (m.guestStore address value).isSome = true) : Reached (m.stored address value) :=
  h.store (eq_some_getD m possible)

/-- The guest has written a thread-pointer read over the trap at 0x20000054. -/
def rewrittenCode : Machine :=
  (((openedCode.stored 0x20000054 0x70).stored 0x20000055 0x0f).stored 0x20000056 0x1d).stored
    0x20000057 0xee

theorem rewrittenCode_facts :
    (mappedCode.call (protecting 3)).map Prod.fst = some 0 ∧
    (openedCode.guestStore 0x20000054 0x70).isSome = true ∧
    ((openedCode.stored 0x20000054 0x70).guestStore 0x20000055 0x0f).isSome = true ∧
    (((openedCode.stored 0x20000054 0x70).stored 0x20000055 0x0f).guestStore 0x20000056
      0x1d).isSome = true ∧
    ((((openedCode.stored 0x20000054 0x70).stored 0x20000055 0x0f).stored 0x20000056
      0x1d).guestStore 0x20000057 0xee).isSome = true ∧
    rewrittenCode.entered.pageBytes = 4096 ∧
    rewrittenCode.entered.image.host.pages ((0x20000000 : UInt32).toNat / 4096) =
      some ⟨⟨true, true, false⟩, none, false⟩ ∧
    rewrittenCode.entered.guestMemoryRuntimeOwned (0x20000000 : UInt32).toNat 4096 = true ∧
    rewrittenCode.entered.image.patches =
      [⟨0x10054, armLinuxSvc0⟩, ⟨0x20000054, armLinuxSvc0⟩] ∧
    wordAt rewrittenCode.entered.image.host.bytes ⟨none, 0x20000054⟩ = 0xee1d0f70 ∧
    (guestMemoryRuntimeProtect rewrittenCode.entered.registry (0x20000000 : UInt32).toNat 4096
      1).code = 0 := by decide +kernel

theorem rewrittenCode_reached : Reached rewrittenCode := by
  obtain ⟨code, first, second, third, fourth, -⟩ := rewrittenCode_facts
  have small : Reached smallProgram := ⟨_, smallProgram_loaded, .start⟩
  have opened : Reached openedCode := (small.call mappedCode_step).call (after_eq code)
  exact (((opened.stored first).stored second).stored third).stored fourth

/-- Made executable again, the new instruction gets a second record, and the table
still answers with the system call that was there first. -/
theorem rewritten_code_unsound :
    ∃ m, Reached m ∧ ¬ (m.image.patches.map PatchRecord.address).Nodup ∧
      m.image.trapped 0x20000054 = some 0xee1d0f70 ∧
      armPatchOriginal m.image.patches 0x20000054 = some armLinuxSvc0 := by
  obtain ⟨-, -, -, -, -, size, page, owned, before, shown, granted⟩ := rewrittenCode_facts
  have few : rewrittenCode.entered.image.patches.length ≤ 3072 := by
    rw [before]
    decide
  have own : OwnPage rewrittenCode.entered 0x20000000 := ⟨size, by decide, ⟨_, page⟩, owned, few⟩
  obtain ⟨patched, scan⟩ := own.scan
  obtain ⟨m, call, image⟩ := own.settles scan ⟨none, none, none, none, .enomem⟩ rfl granted
  have inside : (0x20000000 : UInt32).toNat ≤ 0x20000054 ∧
      0x20000054 < (0x20000000 : UInt32).toNat + 4096 := by decide
  obtain ⟨new, records, member, trapped⟩ := own.recorded scan inside.1 inside.2
    (by decide) shown (by decide)
  rw [before] at records
  have patches : m.image.patches = patched.patches := by rw [image]
  have done : rewrittenCode.call (protecting 5) = some (0, m) := call
  refine ⟨m, rewrittenCode_reached.call done, ?_, ?_, ?_⟩
  · rw [patches, records, List.map_append]
    intro nodup
    exact (List.disjoint_of_nodup_append nodup) (by decide) (List.mem_map_of_mem member)
  · rw [image]
    exact trapped
  · rw [patches, records]
    rfl

end Linuxemu.Guest
