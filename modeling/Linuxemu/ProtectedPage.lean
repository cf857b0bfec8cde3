import Linuxemu.MprotectOutcome
import Linuxemu.PatchCount

/-! One page of the guest's own memory made executable: what the scan of `mprotect` comes to,
and how the call ends with it. -/
namespace Linuxemu.Guest
open Lib Registry
variable {protection : Protection} {e : MprotectHost} {patched : Image} {m : Machine}
  {address length : Nat}

/-! ## The last part of a call -/

/-- The last call is granted. -/
theorem finalProtect_settles {before : Nat} (there : m.spanMapped address length = true)
    (final : e.final = none) (granted : (m.protectReply address length protection).code = 0) :
    ∃ m', m.finalProtect before address length protection e = some (0, m') ∧
      m'.image = { m.image with host := m.image.host.protect address length protection } := by
  unfold Machine.finalProtect
  rw [final, mprotect_done m protection there]
  refine ⟨_, congrArg some (Prod.ext ?_ rfl), rfl⟩
  exact if_neg (not_not.mpr granted)

/-- Where the host and the registry grant everything and the range is patched, the call
succeeds. -/
theorem protectRuntime_settles (exec : protection.exec = true) (unlock : e.unlock = none)
    (there : m.spanMapped address length = true)
    (scan : armPatchRange address length (m.opened address length) = some (none, patched))
    (msync : e.msync = none) (final : e.final = none)
    (granted : (m.protectReply address length protection).code = 0) :
    ∃ m', m.protectRuntime address length protection e = some (0, m') ∧
      m'.image = { patched with host := patched.host.protect address length protection } := by
  have still : patched.host.spanAll address length Option.isSome = true := by
    rw [(armPatchRange_patched scan).spanAll, spanAll_protect]
    exact there
  unfold Machine.protectRuntime
  dsimp only
  rw [exec, unlock, mprotect_done m ⟨true, true, true⟩ there]
  simp only [Bool.not_true, Bool.false_eq_true, ↓reduceIte]
  rw [scan, msync]
  dsimp only
  refine finalProtect_settles ?_ final granted
  exact still

theorem linuxMprotectRuntime_owned {address length linux : UInt32}
    (protects : m.Protects address length linux protection) (e : MprotectHost) :
    linuxMprotectRuntime address length linux e m =
      m.protectRuntime address.toNat (alignUp length.toNat m.pageBytes) protection e := by
  have aligned := protects.aligned
  unfold linuxMprotectRuntime
  rw [protects.translated]
  dsimp only
  rw [protects.size, protects.owned, if_neg (by simpa using aligned), if_pos rfl]

/-- Without the instruction cache the patches are taken back, and the page has its new
protection. -/
theorem protectRuntime_unsynced {errno : Errno} (exec : protection.exec = true)
    (unlock : e.unlock = none) (there : m.spanMapped address length = true)
    (scan : armPatchRange address length (m.opened address length) = some (none, patched))
    (msync : e.msync = some errno) (relock : e.relock = none) :
    ∃ m', m.protectRuntime address length protection e = some (linuxError errno, m') ∧
      m'.image.host = (m.image.host.protect address length ⟨true, true, true⟩).protect address
        length protection := by
  obtain ⟨restored, rolled, host, -⟩ := (armPatchRange_patched scan).rollback
  have still : restored.host.spanAll address length Option.isSome = true := by
    rw [host, spanAll_protect]
    exact there
  unfold Machine.protectRuntime
  dsimp only
  rw [exec, unlock, mprotect_done m ⟨true, true, true⟩ there]
  simp only [Bool.not_true, Bool.false_eq_true, ↓reduceIte]
  rw [scan, msync]
  dsimp only
  unfold Machine.undoPatches
  dsimp only
  rw [show armPatchRollback m.image.patches.length patched = some restored from rolled]
  refine ⟨_, rfl, ?_⟩
  rw [relock, mprotect_done _ protection]
  · show restored.host.protect address length protection = _
    rw [host]
  · exact still

/-! ## A page -/

/-- A page of the process's own memory that the registry knows, with room to patch all of
it. -/
structure OwnPage (m : Machine) (address : UInt32) : Prop where
  size : m.pageBytes = 4096
  aligned : address.toNat % 4096 = 0 ∧ address.toNat + 4096 ≤ uintptrMax
  page : ∃ protection, m.image.host.pages (address.toNat / 4096) = some ⟨protection, none, false⟩
  owned : m.guestMemoryRuntimeOwned address.toNat 4096 = true
  few : m.image.patches.length ≤ 3072

section
variable {m : Machine} {address : UInt32} (h : OwnPage m address)
include h

theorem OwnPage.first :
    m.image.host.inSpan address.toNat 4096 (address.toNat / 4096) = true := by
  have size : m.image.host.pageSize.bytes = 4096 := h.size
  unfold Host.inSpan Host.pageCount
  rw [size]
  simp

/-- Opened for patching, all of it can be read and written. -/
theorem OwnPage.access {allowed : Page → Bool} (all : allowed ⟨⟨true, true, true⟩, none, false⟩)
    {a : Nat} (low : address.toNat ≤ a) (high : a < address.toNat + 4096) :
    (m.opened address.toNat 4096).host.access allowed a = some ⟨none, a⟩ := by
  have size : m.image.host.pageSize.bytes = 4096 := h.size
  obtain ⟨aligned, -⟩ := h.aligned
  obtain ⟨protection, page⟩ := h.page
  have number : a / 4096 = address.toNat / 4096 := by omega
  have shown : (m.opened address.toNat 4096).host.page a =
      some ⟨⟨true, true, true⟩, none, false⟩ := by
    show (m.image.host.protect address.toNat 4096 ⟨true, true, true⟩).pages
      (a / m.image.host.pageSize.bytes) = _
    rw [size, number]
    show (if m.image.host.inSpan address.toNat 4096 (address.toNat / 4096) then
      (m.image.host.pages (address.toNat / 4096)).map
        ({ · with protection := ⟨true, true, true⟩ }) else _) = _
    rw [if_pos h.first, page]
    rfl
  rw [Host.access, shown]
  dsimp only
  rw [all]
  rfl

/-- The scan ends with everything patched. -/
theorem OwnPage.scan :
    ∃ patched, armPatchRange address.toNat 4096 (m.opened address.toNat 4096) =
      some (none, patched) := by
  obtain ⟨aligned, inside⟩ := h.aligned
  have few := h.few
  refine armPatchRange_room (by omega) (by decide) inside (fun a low high => ?_)
    (show m.image.patches.length + 1024 ≤ 4096 by omega)
  rw [h.access rfl low high]
  rfl

theorem OwnPage.mapped : m.spanMapped address.toNat 4096 = true := by
  have size : m.image.host.pageSize.bytes = 4096 := h.size
  obtain ⟨protection, page⟩ := h.page
  show m.image.host.spanAll address.toNat 4096 Option.isSome = true
  unfold Host.spanAll Host.pageCount
  rw [size]
  show (Option.isSome (m.image.host.pages (address.toNat / 4096)) && true) = true
  rw [page]
  rfl

/-- The call comes to the range of the registry. -/
theorem OwnPage.call (e : MprotectHost) : linuxMprotectRuntime address 4096 5 e m =
    m.protectRuntime address.toNat 4096 ⟨true, false, true⟩ e := by
  have length : alignUp (4096 : UInt32).toNat m.pageBytes = 4096 := by
    rw [h.size]
    decide
  have protects : m.Protects address 4096 5 ⟨true, false, true⟩ := by
    constructor
    · decide
    · rw [h.size]
      exact h.aligned.1
    · unfold Machine.badLength
      rw [h.size]
      decide
    · rw [length]
      exact h.owned
  rw [linuxMprotectRuntime_owned protects, length]

theorem OwnPage.settles
    (scan : armPatchRange address.toNat 4096 (m.opened address.toNat 4096) = some (none, patched))
    (e : MprotectHost) (willing : (e.unlock, e.msync, e.final) = (none, none, none))
    (granted : (guestMemoryRuntimeProtect m.registry address.toNat 4096 1).code = 0) :
    ∃ m', linuxMprotectRuntime address 4096 5 e m = some (0, m') ∧ m'.image = { patched with
      host := patched.host.protect address.toNat 4096 ⟨true, false, true⟩ } := by
  simp only [Prod.mk.injEq] at willing
  obtain ⟨unlock, msync, final⟩ := willing
  have exec : (⟨true, false, true⟩ : Protection).exec = true := rfl
  rw [h.call]
  exact protectRuntime_settles exec unlock h.mapped scan msync final granted

/-- Where the instruction cache cannot be synchronised, the call fails and has changed the
protection. -/
theorem OwnPage.unsynced {errno : Errno} (unlock : e.unlock = none) (msync : e.msync = some errno)
    (relock : e.relock = none) :
    ∃ m', linuxMprotectRuntime address 4096 5 e m = some (linuxError errno, m') ∧
      (m'.image.host.pages (address.toNat / 4096)).map Page.protection =
        some ⟨true, false, true⟩ := by
  obtain ⟨patched, scan⟩ := h.scan
  obtain ⟨protection, page⟩ := h.page
  have exec : (⟨true, false, true⟩ : Protection).exec = true := rfl
  obtain ⟨m', done, host⟩ := protectRuntime_unsynced exec unlock h.mapped scan msync relock
  refine ⟨m', (h.call e).trans done, ?_⟩
  rw [host, protect_protect]
  show (if m.image.host.inSpan address.toNat 4096 (address.toNat / 4096) then
    (m.image.host.pages (address.toNat / 4096)).map
      ({ · with protection := ⟨true, false, true⟩ }) else _).map Page.protection = _
  rw [if_pos h.first, page]
  rfl

/-- An instruction to patch gets a record, and its trap. -/
theorem OwnPage.recorded {word : UInt32}
    (scan : armPatchRange address.toNat 4096 (m.opened address.toNat 4096) = some (none, patched))
    {a : Nat} (low : address.toNat ≤ a) (high : a < address.toNat + 4096) (aligned : a % 4 = 0)
    (shown : wordAt m.image.host.bytes ⟨none, a⟩ = word) (code : patchable word = true) :
    ∃ new, patched.patches = m.image.patches ++ new ∧ ⟨a, word⟩ ∈ new ∧
      patched.trapped a = some word := by
  have once : (m.opened address.toNat 4096).host.ShownOnce
      fun a => address.toNat ≤ a ∧ a < address.toNat + 4096 := by
    intro a b place insideA insideB foundA foundB
    rw [h.access rfl insideA.1 insideA.2] at foundA
    rw [h.access rfl insideB.1 insideB.2, ← foundA] at foundB
    cases foundB
    rfl
  have loaded : (m.opened address.toNat 4096).host.loadWord a = some word := by
    rw [Host.loadWord, Host.wordVia, h.access rfl low high, Option.map_some, ← shown]
    rfl
  obtain ⟨new, records, -, each, rest⟩ := (armPatchRange_patched scan).new (fun _ => id) once
  have member : a ∈ new.map PatchRecord.address := by
    by_contra absent
    obtain ⟨left, seen, plain⟩ := armPatchRange_complete scan low high aligned
    rw [(rest a absent).2 ⟨low, high⟩ aligned, loaded, Option.some.injEq] at seen
    rw [← seen, code] at plain
    cases plain
  obtain ⟨r, known, rfl⟩ := List.mem_map.mp member
  obtain ⟨-, -, old, -, -, history⟩ := each r known
  rw [loaded, Option.some.injEq] at old
  subst old
  exact ⟨new, records, known, history⟩

end

end Linuxemu.Guest
