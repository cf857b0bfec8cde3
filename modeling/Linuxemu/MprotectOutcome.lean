import Linuxemu.MmapOutcome

/-! Every way `mprotect` can end, said once: which pages, words, records and registry
entries it leaves. -/
namespace Linuxemu.Guest
open Lib Registry
variable {patched : Image} {error : Option Errno} {m m₁ m' : Machine}
  {address length linux : UInt32} {e : MprotectHost} {code : Int}

/-- The call passes its checks on a range that the registry owns. -/
structure Machine.Protects (m : Machine) (address length linux : UInt32)
    (protection : Protection) : Prop where
  translated : translateProtection linux = some protection
  aligned : address.toNat % m.pageBytes = 0
  size : m.badLength length.toNat = false
  owned : m.guestMemoryRuntimeOwned address.toNat (alignUp length.toNat m.pageBytes) = true

/-- The pages of the range are all there. -/
abbrev Machine.spanMapped (m : Machine) (address length : Nat) : Bool :=
  m.image.host.spanAll address length Option.isSome

/-- The image that is patched: the pages of the range opened for writing. -/
abbrev Machine.opened (m : Machine) (address length : Nat) : Image :=
  { m.image with host := m.image.host.protect address length ⟨true, true, true⟩ }

/-- What the registry replies at the end. -/
abbrev Machine.protectReply (m : Machine) (address length : Nat) (protection : Protection) :
    Reply :=
  guestMemoryRuntimeProtect m.registry address length (if protection.exec then 1 else 0)

/-- Every way a call on a range of the registry can end. `refused` is before anything has
changed; `undone` has rolled the patches back and asks for the new protection, `left` has
only rolled them back; `settled` has changed the pages and comes to the registry. -/
inductive MprotectOutcome (m : Machine) (address length : Nat) (protection : Protection)
    (e : MprotectHost) : Int × Machine → Prop
  | refused {code : Int} {m' : Machine} (failed : code < 0)
      (why : (if protection.exec then e.unlock else e.final) ≠ none ∨
        m.spanMapped address length = false)
      (image : m'.image = m.image) (registry : m'.registry = m.registry) :
      MprotectOutcome m address length protection e (code, m')
  | undone {code : Int} {m' : Machine} {error : Option Errno} {patched restored : Image}
      (failed : code < 0) (exec : protection.exec = true) (unlock : e.unlock = none)
      (there : m.spanMapped address length = true)
      (scan : armPatchRange address length (m.opened address length) = some (error, patched))
      (why : error ≠ none ∨ e.msync ≠ none)
      (rolled : armPatchRollback m.image.patches.length patched = some restored)
      (image : m'.image = if e.relock = none then
        { restored with host := restored.host.protect address length protection } else restored)
      (registry : m'.registry = m.registry) :
      MprotectOutcome m address length protection e (code, m')
  | left {code : Int} {m' : Machine} {patched restored : Image}
      (failed : code < 0) (exec : protection.exec = true) (unlock : e.unlock = none)
      (there : m.spanMapped address length = true)
      (scan : armPatchRange address length (m.opened address length) = some (none, patched))
      (msync : e.msync = none) (final : e.final ≠ none)
      (rolled : armPatchRollback m.image.patches.length patched = some restored)
      (image : m'.image = restored) (registry : m'.registry = m.registry) :
      MprotectOutcome m address length protection e (code, m')
  | settled {code : Int} {m' : Machine} {patched : Image} (final : e.final = none)
      (there : m.spanMapped address length = true)
      (data : protection.exec = false → patched = m.image)
      (scan : protection.exec = true → e.unlock = none ∧ e.msync = none ∧
        armPatchRange address length (m.opened address length) = some (none, patched))
      (image : m'.image = { patched with host := patched.host.protect address length protection })
      (result : code = if (m.protectReply address length protection).code ≠ 0 then
        linuxError ((m.protectReply address length protection).errno.getD e.stale) else 0)
      (registry : m'.registry = (m.protectReply address length protection).table) :
      MprotectOutcome m address length protection e (code, m')

theorem protect_protect (h : Host) (start length : Nat) (first second : Protection) :
    (h.protect start length first).protect start length second =
      h.protect start length second := by
  have pages (n : Nat) : ((h.protect start length first).protect start length second).pages n =
      (h.protect start length second).pages n := by
    show (if h.inSpan start length n then
        (if h.inSpan start length n then _ else _ : Option Page).map _ else
        (if h.inSpan start length n then _ else _ : Option Page)) =
      if h.inSpan start length n then _ else _
    by_cases inside : h.inSpan start length n = true
    · rw [if_pos inside, if_pos inside, if_pos inside, Option.map_map]
      rfl
    · rw [if_neg inside, if_neg inside, if_neg inside]
  exact congrArg (fun pages : Nat → Option Page => ({ h with pages } : Host)) (funext pages)

theorem spanAll_protect (h : Host) (start length first count : Nat) (protection : Protection) :
    (h.protect start length protection).spanAll first count Option.isSome =
      h.spanAll first count Option.isSome := by
  unfold Host.spanAll
  simp only [protect_isSome]
  rfl

theorem Patched.spanAll {within : Nat → Prop} {s t : Image} (h : Patched within s t)
    (first count : Nat) :
    t.host.spanAll first count Option.isSome = s.host.spanAll first count Option.isSome := by
  obtain ⟨bytes, frame⟩ := h.frame
  rw [frame]
  rfl

section Runtime
variable {m : Machine} {address length : Nat} {protection : Protection} {e : MprotectHost}
  {result : Int × Machine}

/-- The end of the call with the pages of the range there, opened or not. -/
theorem finalProtect_outcome (image : m₁.image = patched) (registry : m₁.registry = m.registry)
    (there : m.spanMapped address length = true) (still : m₁.spanMapped address length = true)
    (data : protection.exec = false → patched = m.image)
    (scan : protection.exec = true → e.unlock = none ∧ e.msync = none ∧
      armPatchRange address length (m.opened address length) = some (none, patched))
    (done : m₁.finalProtect m.image.patches.length address length protection e = some result) :
    MprotectOutcome m address length protection e result := by
  unfold Machine.finalProtect at done
  cases final : e.final with
  | none =>
    rw [final, mprotect_done m₁ protection still] at done
    cases done
    have reply : m.protectReply address length protection =
        m₁.protectReply address length protection := by
      rw [Machine.protectReply, ← registry]
    refine .settled final there data scan ?_ ?_ ?_
    · rw [← image]
    · rw [reply]
      rfl
    · rw [reply]
      rfl
  | some errno =>
    obtain ⟨errno', asked⟩ := mprotect_refused m₁ address length protection e.final
      (.inl (by simp [final]))
    rw [asked] at done
    dsimp only at done
    cases exec : protection.exec with
    | false =>
      rw [exec] at done
      cases done
      refine .refused (linuxError_neg errno') (.inl ?_) ?_ registry
      · simp [exec, final]
      · exact image.trans (data exec)
    | true =>
      rw [exec] at done
      split at done
      · cases done
      · rename_i restored rolled
        cases done
        obtain ⟨unlock, msync, scanned⟩ := scan exec
        refine .left (linuxError_neg errno') exec unlock there scanned msync (by simp [final]) ?_
          rfl registry
        rw [← image]
        exact rolled

theorem undoPatches_outcome {errno : Errno} (exec : protection.exec = true)
    (unlock : e.unlock = none) (there : m.spanMapped address length = true)
    (scan : armPatchRange address length (m.opened address length) = some (error, patched))
    (why : error ≠ none ∨ e.msync ≠ none) (image : m₁.image = patched)
    (registry : m₁.registry = m.registry)
    (done : m₁.undoPatches m.image.patches.length address length protection errno e =
      some result) : MprotectOutcome m address length protection e result := by
  unfold Machine.undoPatches at done
  rw [image] at done
  split at done
  · cases done
  · rename_i restored rolled
    have still : ({ m₁ with image := restored } : Machine).spanMapped address length = true := by
      obtain ⟨⟨bytes, frame⟩, -⟩ := armPatchRollback_spec rolled
      show restored.host.spanAll address length Option.isSome = true
      rw [frame]
      show patched.host.spanAll address length Option.isSome = true
      rw [(armPatchRange_patched scan).spanAll, spanAll_protect]
      exact there
    cases done
    cases relock : e.relock with
    | none =>
      rw [mprotect_done _ protection still]
      exact .undone (linuxError_neg errno) exec unlock there scan why rolled
        (if_pos relock).symm registry
    | some refusal =>
      obtain ⟨errno', asked⟩ := mprotect_refused { m₁ with image := restored } address length
        protection (some refusal) (.inl (by simp))
      rw [asked]
      exact .undone (linuxError_neg errno) exec unlock there scan why rolled
        (if_neg (by simp [relock])).symm registry

theorem protectRuntime_outcome
    (done : m.protectRuntime address length protection e = some result) :
    MprotectOutcome m address length protection e result := by
  unfold Machine.protectRuntime at done
  dsimp only at done
  cases exec : protection.exec with
  | false =>
    rw [exec] at done
    cases there : m.spanMapped address length with
    | true =>
      exact finalProtect_outcome rfl rfl there there (fun _ => rfl)
        (fun wrong => by rw [exec] at wrong; cases wrong) done
    | false =>
      obtain ⟨errno, asked⟩ := mprotect_refused m address length protection e.final (.inr there)
      replace done : m.finalProtect m.image.patches.length address length protection e =
        some result := done
      unfold Machine.finalProtect at done
      rw [asked, exec] at done
      cases done
      exact .refused (linuxError_neg errno) (.inr there) rfl rfl
  | true =>
    rw [exec] at done
    by_cases refused : e.unlock ≠ none ∨ m.spanMapped address length = false
    · obtain ⟨errno, asked⟩ := mprotect_refused m address length ⟨true, true, true⟩ e.unlock refused
      rw [asked] at done
      cases done
      exact .refused (linuxError_neg errno) (by simpa [exec] using refused) rfl rfl
    · obtain ⟨unlock, there⟩ : e.unlock = none ∧ m.spanMapped address length = true := by
        simpa using refused
      rw [unlock, mprotect_done m ⟨true, true, true⟩ there] at done
      simp only [Bool.not_true, Bool.false_eq_true, ↓reduceIte] at done
      split at done
      · cases done
      · rename_i errno patched scan
        refine undoPatches_outcome exec unlock there scan (.inl (by simp)) ?_ ?_ done
        · rfl
        · rfl
      · rename_i patched scan
        have still : patched.host.spanAll address length Option.isSome = true := by
          rw [(armPatchRange_patched scan).spanAll, spanAll_protect]
          exact there
        split at done
        · rename_i errno failed
          refine undoPatches_outcome exec unlock there scan (.inr (by simp [failed])) ?_ ?_ done
          · rfl
          · rfl
        · rename_i synced
          refine finalProtect_outcome ?_ ?_ there ?_
            (fun wrong => by rw [exec] at wrong; cases wrong)
            (fun _ => ⟨unlock, synced, scan⟩) done
          · rfl
          · rfl
          · exact still

end Runtime

/-- Every result of `mprotect` is one of these: nothing has happened, a load segment has
its new protection, or the range is the registry's. -/
theorem linuxMprotectRuntime_outcome
    (call : linuxMprotectRuntime address length linux e m = some (code, m')) :
    (code < 0 ∧ (∀ protection, ¬ m.Protects address length linux protection) ∧
      m'.image = m.image ∧ m'.registry = m.registry) ∨
    (code = 0 ∧ m'.registry = m.registry ∧ ∃ protection, m'.image = { m.image with
      host := m.image.host.protect address.toNat (alignUp length.toNat m.pageBytes) protection }) ∨
    ∃ protection, m.Protects address length linux protection ∧
      MprotectOutcome m address.toNat (alignUp length.toNat m.pageBytes) protection e (code, m') := by
  unfold linuxMprotectRuntime at call
  split at call
  · rename_i unknown
    cases call
    refine .inl ⟨by decide, ?_, rfl, rfl⟩
    intro protection protects
    rw [protects.translated] at unknown
    cases unknown
  · rename_i protection translated
    split at call
    · rename_i bad
      cases call
      refine .inl ⟨by decide, ?_, rfl, rfl⟩
      intro protection protects
      obtain off | wrong := bad
      · exact off protects.aligned
      · rw [protects.size] at wrong
        cases wrong
    · rename_i good
      dsimp only at call
      have aligned : address.toNat % m.pageBytes = 0 := by omega
      have size : m.badLength length.toNat = false := by simpa using fun bad => good (.inr bad)
      split at call
      · rename_i owned
        exact .inr (.inr ⟨protection, ⟨translated, aligned, size, owned⟩,
          protectRuntime_outcome call⟩)
      · rename_i foreign
        have never (protection : Protection) : ¬ m.Protects address length linux protection :=
          fun protects => foreign protects.owned
        replace call := Option.some.inj call
        unfold Machine.protectSegment at call
        split at call
        · cases call
          exact .inl ⟨by decide, never, rfl, rfl⟩
        split at call
        · cases call
          exact .inl ⟨by decide, never, rfl, rfl⟩
        obtain ⟨errno, asked⟩ | asked := mprotect_cases m address.toNat
          (alignUp length.toNat m.pageBytes) protection e.final
        · rw [asked] at call
          cases call
          exact .inl ⟨linuxError_neg errno, never, rfl, rfl⟩
        · rw [asked] at call
          cases call
          exact .inr (.inl ⟨rfl, rfl, protection, rfl⟩)

/-- A rolled back scan leaves the opened pages and nothing else. -/
theorem rolled_opened {address length : Nat} {restored : Image}
    (scan : armPatchRange address length (m.opened address length) = some (error, patched))
    (rolled : armPatchRollback m.image.patches.length patched = some restored) :
    restored.host = m.image.host.protect address length ⟨true, true, true⟩ ∧
      restored.patches = m.image.patches := by
  obtain ⟨u, undone, host, patches⟩ := (armPatchRange_patched scan).rollback
  cases rolled.symm.trans undone
  exact ⟨host, patches⟩

/-- The same pages are there, whatever becomes of their protection. -/
theorem linuxMprotectRuntime_pages
    (call : linuxMprotectRuntime address length linux e m = some (code, m')) (page : Nat) :
    (m'.image.host.pages page).isSome = (m.image.host.pages page).isSome := by
  obtain ⟨-, -, image, -⟩ | ⟨-, -, protection, image⟩ | ⟨protection, -, outcome⟩ :=
    linuxMprotectRuntime_outcome call
  · rw [image]
  · rw [image]
    exact protect_isSome _ _ _ _ _
  · cases outcome with
    | refused _ _ image => rw [image]
    | undone _ _ _ _ scan _ rolled image =>
      obtain ⟨host, -⟩ := rolled_opened scan rolled
      rw [image]
      split
      · dsimp only
        rw [protect_isSome, host, protect_isSome]
      · rw [host, protect_isSome]
    | left _ _ _ _ scan _ _ rolled image =>
      rw [image, (rolled_opened scan rolled).1, protect_isSome]
    | settled _ _ data scan image =>
      rw [image]
      dsimp only
      rw [protect_isSome]
      cases exec : protection.exec with
      | false => rw [data exec]
      | true =>
        obtain ⟨bytes, frame⟩ := (armPatchRange_patched (scan exec).2.2).frame
        rw [frame]
        exact protect_isSome _ _ _ _ _

end Linuxemu.Guest
