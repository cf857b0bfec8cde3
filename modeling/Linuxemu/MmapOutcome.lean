import Linuxemu.MemoryCalls
import Linuxemu.PatchScan
import Linuxemu.RegistryMap

/-! Every way `mmap2` and `munmap` can end, said once: which pages, records and registry
entries they leave. -/
namespace Linuxemu.Guest
open Lib Registry
variable {r : Registers} {m : Machine} {protection : Protection} {result : Int × Machine}
  {e : MmapHost} {address : Nat}
variable {m₁ : Machine} {host : Host} {code : Int}

theorem linuxError_neg (errno : Errno) : linuxError errno < 0 := by
  have := linuxErrnoNumber_pos errno
  unfold linuxError
  omega

/-! ## The checks -/

/-- What a call has passed when it asks the host for pages. -/
structure Machine.Checked (m : Machine) (r : Registers) (protection : Protection) : Prop where
  translated : translateProtection r.r2 = some protection
  oneKind : r.mapShared = !r.mapPrivate
  positive : 0 < r.length
  fits : r.length ≤ uintptrMax - (m.pageBytes - 1)
  fixed : r.mapFixed = true → r.address % m.pageBytes = 0 ∧
    m.guestMemoryRuntimeOwned r.address (alignUp r.length m.pageBytes) = true
  sharedData : r.mapShared = true → protection.exec = false

theorem checkMmap2_ok (ok : m.checkMmap2 r = .ok protection) : m.Checked r protection := by
  unfold Machine.checkMmap2 at ok
  split at ok
  · cases ok
  · rename_i translated
    simp only [ite_eq_iff, reduceCtorEq, and_false, false_or] at ok
    obtain ⟨-, both, neither, length, fixed, shared, same⟩ := ok
    cases same
    refine ⟨translated, ?_, ?_, ?_, ?_, ?_⟩
    · revert both neither
      cases r.mapShared <;> cases r.mapPrivate <;> decide
    · simp only [Machine.badLength, Bool.or_eq_true, decide_eq_true_iff, not_or] at length
      omega
    · simp only [Machine.badLength, Bool.or_eq_true, decide_eq_true_iff, not_or] at length
      omega
    · intro set
      simpa [set] using fixed
    · intro set
      simpa [set] using shared

theorem Machine.Checked.ok (checked : m.Checked r protection) (known : r.r3 &&& ~~~0x33 = 0) :
    m.checkMmap2 r = .ok protection := by
  have length : m.badLength r.length = false := by
    have := checked.positive
    have := checked.fits
    simp only [Machine.badLength, Bool.or_eq_false_iff, decide_eq_false_iff_not]
    omega
  have fixed : (r.mapFixed && (decide (r.address % m.pageBytes ≠ 0) ||
      !m.guestMemoryRuntimeOwned r.address (alignUp r.length m.pageBytes))) = false := by
    cases set : r.mapFixed with
    | false => rfl
    | true =>
      obtain ⟨aligned, owned⟩ := checked.fixed set
      simp [aligned, owned]
  have shared : (r.mapShared && protection.exec) = false := by
    cases set : r.mapShared with
    | false => rfl
    | true => exact checked.sharedData set
  unfold Machine.checkMmap2
  rw [checked.translated]
  dsimp only
  rw [if_neg (not_not.mpr known), length, fixed, shared, checked.oneKind]
  cases r.mapPrivate <;> rfl

theorem checkMmap2_error (refused : m.checkMmap2 r = .error code) : code < 0 := by
  unfold Machine.checkMmap2 at refused
  have codes : code = einval ∨ code = enomem ∨ code = hostEopnotsupp := by
    repeat' split at refused
    all_goals cases refused
    all_goals simp
  rcases codes with rfl | rfl | rfl <;> decide

/-- The host call that `mmap2` makes. -/
def Machine.askHost (m : Machine) (r : Registers) (e : MmapHost) (protection : Protection) :
    Except Errno (Nat × Host) :=
  m.image.host.mmap r.address r.length (r.mappingProtection protection) (r.hostFlags protection)
    (if r.copies protection then -1 else r.descriptor)
    (if r.copies protection then 0 else r.offset) e.mmap

/-- The checks pass and the host maps the pages. -/
def Machine.mmapGranted (m : Machine) (r : Registers) (e : MmapHost) : Bool :=
  match m.checkMmap2 r with
  | .error _ => false
  | .ok protection => (m.askHost r e protection).isOk

/-! ## The stages after the host call -/

/-- The bytes that the executable copy reads in. -/
def Filled (address : Nat) (host filled : Host) : Prop :=
  filled = host ∨ ∃ length value, filled = host.fill address length value

theorem munmap_protect (h : Host) (start length : Nat) (protection : Protection) :
    (h.protect start length protection).munmap start length = h.munmap start length := by
  have pages (n : Nat) :
      (if h.inSpan start length n then none else (h.protect start length protection).pages n) =
        if h.inSpan start length n then none else h.pages n := by
    by_cases inside : h.inSpan start length n = true
    · simp only [inside, ↓reduceIte]
    · simp [Host.protect, inside]
  exact congrArg (fun pages : Nat → Option Page => ({ h with pages } : Host)) (funext pages)

/-- Protection does not decide which pages are there. -/
theorem protect_isSome (h : Host) (start length : Nat) (protection : Protection) (page : Nat) :
    ((h.protect start length protection).pages page).isSome = (h.pages page).isSome := by
  show (if _ then _ else _ : Option Page).isSome = _
  split
  · exact Option.isSome_map
  · rfl

theorem mprotect_done (m : Machine) {start length : Nat} (protection : Protection)
    (mapped : m.image.host.spanAll start length Option.isSome = true) :
    m.mprotect start length protection none =
      (none, { m.note .mprotect start length with
        image := { m.image with host := m.image.host.protect start length protection } }) := by
  unfold Machine.mprotect Host.mprotect
  rw [if_pos mapped]

theorem mprotect_refused (m : Machine) (start length : Nat) (protection : Protection)
    (failure : Option Errno)
    (refused : failure ≠ none ∨ m.image.host.spanAll start length Option.isSome = false) :
    ∃ errno, m.mprotect start length protection failure =
      (some errno, m.note .mprotect start length) := by
  unfold Machine.mprotect Host.mprotect
  cases failure with
  | some errno => exact ⟨errno, rfl⟩
  | none =>
    obtain wrong | absent := refused
    · exact absurd rfl wrong
    · rw [absent]
      exact ⟨_, rfl⟩

/-- `mprotect` fails and only has been noted, or gives the pages their protection. -/
theorem mprotect_cases (m : Machine) (start length : Nat) (protection : Protection)
    (failure : Option Errno) :
    (∃ errno, m.mprotect start length protection failure =
      (some errno, m.note .mprotect start length)) ∨
    m.mprotect start length protection failure =
      (none, { m.note .mprotect start length with
        image := { m.image with host := m.image.host.protect start length protection } }) := by
  cases failure with
  | some errno => exact .inl (mprotect_refused m _ _ protection _ (.inl (by simp)))
  | none =>
    cases mapped : m.image.host.spanAll start length Option.isSome with
    | true => exact .inr (mprotect_done m protection mapped)
    | false => exact .inl (mprotect_refused m _ _ protection _ (.inr mapped))

/-- `mmap` fails and at most has been noted, or has remapped the pages it got. -/
theorem mmap_cases (m : Machine) (address length : Nat) (protection : Protection)
    (flags : MapFlags) (descriptor offset : Int) (outcome : Except Errno Nat) :
    (∃ errno, m.image.host.mmap address length protection flags descriptor offset outcome =
        .error errno ∧
      m.mmap address length protection flags descriptor offset outcome =
        (.error errno, m.noteFixed flags address (alignUp length m.pageBytes))) ∨
    ∃ mapping host,
      m.image.host.mmap address length protection flags descriptor offset outcome =
        .ok (mapping, host) ∧
      m.mmap address length protection flags descriptor offset outcome =
        (.ok mapping, { m.noteFixed flags address (alignUp length m.pageBytes) with
          image := m.image.remap host mapping length
          received := some (mapping, alignUp length m.pageBytes) }) := by
  unfold Machine.mmap
  cases asked : m.image.host.mmap address length protection flags descriptor offset outcome with
  | error errno => exact Or.inl ⟨errno, rfl, rfl⟩
  | ok pair => exact Or.inr ⟨pair.1, pair.2, rfl, rfl⟩

theorem noteFixed_frame (m : Machine) (flags : MapFlags) (start length : Nat) :
    ∃ calls, m.noteFixed flags start length = { m with calls } := by
  unfold Machine.noteFixed
  split
  · exact ⟨_, rfl⟩
  · exact ⟨_, rfl⟩

/-- Taking the mapping back gives the same image whatever protection it had. -/
theorem abandon_protect (s : Image) (address length : Nat) (protection : Protection) :
    (armPatchForgetRange address length
      { s with host := s.host.protect address length protection }).munmap address length =
    (armPatchForgetRange address length s).munmap address length := by
  simp only [Image.munmap, armPatchForgetRange, Image.remap, munmap_protect]
  rfl

/-- The end of a call that has patched its mapping: taken back, or registered with
its final protection. -/
inductive Settled (m : Machine) (protection : Protection) (address length : Nat) :
    Int × Machine → Prop
  | undone {code : Int} {m' : Machine} (failed : code < 0)
      (image : m'.image = (armPatchForgetRange address length m.image).munmap address length)
      (registry : m'.registry = m.registry ∨
        let reply := guestMemoryRuntimeMap m.registry address length
          (if protection.exec then 1 else 0)
        reply.code ≠ 0 ∧ m'.registry = reply.table) :
      Settled m protection address length (code, m')
  | registered {m' : Machine}
      (image : m'.image = m.image ∨
        m'.image = { m.image with host := m.image.host.protect address length protection })
      (done : (guestMemoryRuntimeMap m.registry address length
        (if protection.exec then 1 else 0)).code = 0)
      (registry : m'.registry = (guestMemoryRuntimeMap m.registry address length
        (if protection.exec then 1 else 0)).table) :
      Settled m protection address length ((address : Int), m')

theorem registerMapping_cases (m : Machine) (protection : Protection) (address length : Nat) :
    let reply := guestMemoryRuntimeMap m.registry address length (if protection.exec then 1 else 0)
    (reply.code ≠ 0 ∧ m.registerMapping protection address length =
      (linuxError (reply.errno.getD .enomem),
        { m with registry := reply.table }.abandon address length)) ∨
    (reply.code = 0 ∧ m.registerMapping protection address length =
      ((address : Int), { m with registry := reply.table })) := by
  intro reply
  by_cases done : reply.code = 0
  · exact Or.inr ⟨done, if_neg (not_not.mpr done)⟩
  · exact Or.inl ⟨done, if_pos done⟩

theorem settleMapping_settled (m : Machine) (r : Registers) (e : MmapHost)
    (protection : Protection) (address length : Nat) :
    Settled m protection address length (m.settleMapping r e protection address length) := by
  unfold Machine.settleMapping
  split
  · exact .undone (linuxError_neg _) rfl (Or.inl rfl)
  · split
    · obtain ⟨full, result⟩ | ⟨done, result⟩ := registerMapping_cases m protection address length
      · rw [result]
        exact .undone (linuxError_neg _) rfl (Or.inr ⟨full, rfl⟩)
      · rw [result]
        exact .registered (Or.inl rfl) done rfl
    · obtain ⟨errno, asked⟩ | asked :=
        mprotect_cases m address length protection e.mprotect
      · rw [asked]
        exact .undone (linuxError_neg errno) rfl (Or.inl rfl)
      · rw [asked]
        dsimp only
        generalize opened : ({ m.note .mprotect address length with
          image := { m.image with host := m.image.host.protect address length protection } } :
          Machine) = m₁
        have registry : m₁.registry = m.registry := opened ▸ rfl
        have image : m₁.image =
            { m.image with host := m.image.host.protect address length protection } := opened ▸ rfl
        obtain ⟨full, result⟩ | ⟨done, result⟩ := registerMapping_cases m₁ protection address length
        · rw [result]
          rw [registry] at full ⊢
          refine .undone (linuxError_neg _) ?_ (Or.inr ⟨full, rfl⟩)
          rw [← abandon_protect m.image address length protection, ← image]
          rfl
        · rw [result]
          rw [registry] at done ⊢
          exact .registered (Or.inr image) done rfl

/-! ## The whole call -/

/-- The length of the mapping, in whole pages. -/
abbrev Machine.mappedLength (m : Machine) (r : Registers) : Nat := alignUp r.length m.pageBytes

/-- The call passes its checks and the host maps the pages at `address`. -/
structure Machine.Maps (m : Machine) (r : Registers) (e : MmapHost) (protection : Protection)
    (address : Nat) (host : Host) : Prop where
  checked : m.checkMmap2 r = .ok protection
  asked : m.askHost r e protection = .ok (address, host)

/-- The image that is patched: the new pages, with no record left in them. -/
abbrev Machine.cleared (m : Machine) (r : Registers) (address : Nat) (host : Host) : Image :=
  armPatchForgetRange address (m.mappedLength r) (m.image.remap host address r.length)

/-- Every way `mmap2` can end. `refused` is before the host has mapped anything;
`dropped` unmaps before the patch table was looked at, `abandoned` after it. -/
inductive Mmap2Outcome (m : Machine) (r : Registers) (e : MmapHost) : Int × Machine → Prop
  | refused {code : Int} {m' : Machine} (failed : code < 0) (granted : m.mmapGranted r e = false)
      (image : m'.image = m.image) (registry : m'.registry = m.registry) :
      Mmap2Outcome m r e (code, m')
  | dropped {code : Int} {m' : Machine} {protection : Protection} {address : Nat} {host : Host}
      (failed : code < 0) (maps : m.Maps r e protection address host)
      (image : m'.image =
        (m.image.remap host address r.length).munmap address (m.mappedLength r))
      (registry : m'.registry = m.registry) : Mmap2Outcome m r e (code, m')
  | abandoned {code : Int} {m' : Machine} {protection : Protection} {address : Nat}
      {host filled : Host} {patched : Image}
      (failed : code < 0) (maps : m.Maps r e protection address host)
      (high : address + m.mappedLength r ≤ guestMaxAddress)
      (copied : Filled address host filled)
      (scan : Patched (fun a => address ≤ a ∧ a < address + m.mappedLength r)
        (m.cleared r address filled) patched)
      (image : m'.image =
        (armPatchForgetRange address (m.mappedLength r) patched).munmap address (m.mappedLength r))
      (registry : m'.registry = m.registry ∨
        let reply := guestMemoryRuntimeMap m.registry address (m.mappedLength r)
          (if protection.exec then 1 else 0)
        reply.code ≠ 0 ∧ m'.registry = reply.table) :
      Mmap2Outcome m r e (code, m')
  | mapped {m' : Machine} {protection : Protection} {address : Nat} {host filled : Host}
      {patched : Image} (maps : m.Maps r e protection address host)
      (low : guestMinAddress ≤ address) (high : address + m.mappedLength r ≤ guestMaxAddress)
      (copied : Filled address host filled)
      (plain : r.copies protection = false → filled = host)
      (scan : Patched (fun a => address ≤ a ∧ a < address + m.mappedLength r)
        (m.cleared r address filled) patched)
      (elf : r.mapAnonymous = false →
        armPatchElfMapping r.descriptor r.offset address (m.mappedLength r) e.elf
          (m.cleared r address filled) = some (none, patched))
      (image : m'.image = patched ∨ m'.image = { patched with
        host := patched.host.protect address (m.mappedLength r) protection })
      (done : (guestMemoryRuntimeMap m.registry address (m.mappedLength r)
        (if protection.exec then 1 else 0)).code = 0)
      (registry : m'.registry = (guestMemoryRuntimeMap m.registry address (m.mappedLength r)
        (if protection.exec then 1 else 0)).table) :
      Mmap2Outcome m r e ((address : Int), m')

theorem copyExecutableFile_cases {result : Except Int Machine}
    (done : m.copyExecutableFile r e address = some result) :
    (∃ code < 0, result = .error code) ∨
    ∃ length value, result = .ok { m with
      image := { m.image with host := m.image.host.fill address length value } } := by
  unfold Machine.copyExecutableFile at done
  split at done
  · cases done
    exact Or.inl ⟨_, linuxError_neg _, rfl⟩
  · dsimp only at done
    split at done
    · cases done
      exact Or.inl ⟨_, by decide, rfl⟩
    · split at done
      · cases done
      · cases done
        exact Or.inl ⟨_, linuxError_neg _, rfl⟩
      · cases done
        exact Or.inr ⟨_, _, rfl⟩

theorem maps_granted (maps : m.Maps r e protection address host) :
    m.mmapGranted r e = true := by
  rw [Machine.mmapGranted, maps.checked]
  dsimp only
  rw [maps.asked]
  rfl

/-- The mapping that the host gave has whole pages at an aligned address. -/
theorem maps_mappedLength (maps : m.Maps r e protection address host) :
    m.mappedLength r = m.image.host.pageCount r.length * m.pageBytes :=
  alignUp_eq m.image.host (checkMmap2_ok maps.checked).fits

section Pages
variable {m : Machine} {r : Registers} {e : MmapHost} {protection : Protection} {address : Nat}
  {host : Host}

theorem maps_pages (maps : m.Maps r e protection address host) (page : Nat) :
    host.pageSize = m.image.host.pageSize ∧
    (m.image.host.inSpan address r.length page = false →
      host.pages page = m.image.host.pages page) := by
  rw [(mmap_granted maps.asked).after]
  refine ⟨rfl, ?_⟩
  intro outside
  simp [Host.map, outside]

/-- Unmapping what the call has mapped leaves the other pages as they were. -/
theorem taken_pages (maps : m.Maps r e protection address host) {left : Host}
    (size : left.pageSize = host.pageSize) (pages : left.pages = host.pages) (page : Nat) :
    (left.munmap address (m.mappedLength r)).pages page =
      if m.image.host.inSpan address r.length page then none else m.image.host.pages page := by
  have same := (maps_pages maps page).1
  have span : left.inSpan address (m.mappedLength r) page =
      m.image.host.inSpan address r.length page := by
    rw [maps_mappedLength maps, ← inSpan_rounded m.image.host]
    exact inSpan_congr (size.trans same) _ _ _
  show (if left.inSpan address (m.mappedLength r) page then none else left.pages page) = _
  rw [span, pages]
  by_cases outside : m.image.host.inSpan address r.length page = false
  · simp only [outside, Bool.false_eq_true, ↓reduceIte]
    exact (maps_pages maps page).2 outside
  · simp only [Bool.not_eq_false] at outside
    simp only [outside, ↓reduceIte]

theorem Filled.pages {filled : Host} (copied : Filled address host filled) :
    filled.pageSize = host.pageSize ∧ filled.pages = host.pages := by
  obtain rfl | ⟨length, value, rfl⟩ := copied
  · exact ⟨rfl, rfl⟩
  · exact ⟨rfl, rfl⟩

end Pages

section Stages
variable {m : Machine} {r : Registers} {e : MmapHost} {protection : Protection} {address : Nat}
  {host filled : Host}

theorem patchMapping_outcome (maps : m.Maps r e protection address host)
    (copied : Filled address host filled) (plain : r.copies protection = false → filled = host)
    (low : guestMinAddress ≤ address) (high : address + m.mappedLength r ≤ guestMaxAddress)
    (image : m₁.image = m.image.remap filled address r.length) (registry : m₁.registry = m.registry)
    (done : m₁.patchMapping r e protection address (m.mappedLength r) = some result) :
    Mmap2Outcome m r e result := by
  unfold Machine.patchMapping at done
  rw [image] at done
  dsimp only at done
  have fits : address + m.mappedLength r ≤ 2 ^ 32 := Nat.le_trans high (by decide)
  have scan {error : Option Errno} {patched : Image}
      (step : (if r.mapAnonymous then some (none, m.cleared r address filled)
        else armPatchElfMapping r.descriptor r.offset address (m.mappedLength r) e.elf
          (m.cleared r address filled)) = some (error, patched)) :
      Patched (fun a => address ≤ a ∧ a < address + m.mappedLength r)
        (m.cleared r address filled) patched := by
    split at step
    · cases step
      exact .refl _
    · exact armPatchElfMapping_patched fits step
  split at done
  · cases done
  · rename_i errno patched step
    cases done
    exact .abandoned (linuxError_neg errno) maps high copied (scan step) rfl (Or.inl registry)
  · rename_i patched step
    cases done
    have last := settleMapping_settled { m₁ with image := patched } r e protection address
      (m.mappedLength r)
    generalize ({ m₁ with image := patched } : Machine).settleMapping r e protection address
      (m.mappedLength r) = final at last
    cases last with
    | undone failed taken table =>
      dsimp only at taken table
      rw [registry] at table
      exact .abandoned failed maps high copied (scan step) taken table
    | registered kept full table =>
      dsimp only at kept full table
      rw [registry] at full table
      refine .mapped maps low high copied plain (scan step) ?_ kept full table
      intro named
      rwa [named] at step

theorem finishMmap2_outcome (maps : m.Maps r e protection address host)
    (image : m₁.image = m.image.remap host address r.length) (registry : m₁.registry = m.registry)
    (done : m₁.finishMmap2 r e protection address (m.mappedLength r) = some result) :
    Mmap2Outcome m r e result := by
  have taken {code : Int} (failed : code < 0) :
      Mmap2Outcome m r e (code, m₁.munmap address (m.mappedLength r)) :=
    .dropped failed maps (congrArg (Image.munmap · address (m.mappedLength r)) image) registry
  unfold Machine.finishMmap2 at done
  split at done
  · cases done
    exact taken (by decide)
  · rename_i inside
    have low : guestMinAddress ≤ address := by omega
    have high : address + m.mappedLength r ≤ guestMaxAddress := by omega
    by_cases copies : r.copies protection = true
    · rw [if_pos copies] at done
      split at done
      · cases done
      · rename_i code copied
        cases done
        obtain ⟨code', failed, same⟩ | ⟨_, _, wrong⟩ := copyExecutableFile_cases copied
        · cases same
          exact taken failed
        · cases wrong
      · rename_i m₂ copied
        obtain ⟨_, _, wrong⟩ | ⟨length, value, same⟩ := copyExecutableFile_cases copied
        · cases wrong
        · cases same
          have filling : ({ m₁ with image := { m₁.image with
              host := m₁.image.host.fill address length value } } : Machine).image =
              m.image.remap (host.fill address length value) address r.length := by
            dsimp only
            rw [image]
            rfl
          exact patchMapping_outcome maps (Or.inr ⟨length, value, rfl⟩)
            (fun no => by rw [copies] at no; cases no) low high filling registry done
    · rw [if_neg copies] at done
      exact patchMapping_outcome maps (Or.inl rfl) (fun _ => rfl) low high image registry done

end Stages

/-- Every result of `mmap2` is one of these. -/
theorem linuxMmap2_outcome (call : linuxMmap2 r e m = some result) : Mmap2Outcome m r e result := by
  unfold linuxMmap2 at call
  split at call
  · rename_i code refused
    cases call
    exact .refused (checkMmap2_error refused) (by rw [Machine.mmapGranted, refused]) rfl rfl
  · rename_i protection checked
    obtain ⟨errno, asked, result⟩ | ⟨address, host, asked, result⟩ := mmap_cases m r.address r.length
      (r.mappingProtection protection) (r.hostFlags protection)
      (if r.copies protection then -1 else r.descriptor)
      (if r.copies protection then 0 else r.offset) e.mmap
    · rw [result] at call
      cases call
      obtain ⟨calls, noted⟩ := noteFixed_frame m (r.hostFlags protection) r.address
        (alignUp r.length m.pageBytes)
      have granted : m.mmapGranted r e = false := by
        rw [Machine.mmapGranted, checked]
        dsimp only [Machine.askHost]
        rw [asked]
        rfl
      rw [noted]
      exact .refused (linuxError_neg errno) granted rfl rfl
    · rw [result] at call
      have size : host.pageSize = m.image.host.pageSize := by
        rw [(mmap_granted asked).after]
        rfl
      obtain ⟨calls, noted⟩ := noteFixed_frame m (r.hostFlags protection) r.address
        (alignUp r.length m.pageBytes)
      rw [noted] at call
      dsimp only [Machine.pageBytes, Image.remap] at call
      rw [size] at call
      refine finishMmap2_outcome ⟨checked, asked⟩ ?_ ?_ call
      · rfl
      · rfl

/-- Pages that the call was not given are there or not as before. -/
theorem Mmap2Outcome.page_kept {m' : Machine} (outcome : Mmap2Outcome m r e (code, m')) {page : Nat}
    (outside : ∀ protection address host, m.Maps r e protection address host →
      m.image.host.inSpan address r.length page = false) :
    (m'.image.host.pages page).isSome = (m.image.host.pages page).isSome := by
  have taken {protection : Protection} {address : Nat} {host left : Host}
      (maps : m.Maps r e protection address host) (size : left.pageSize = host.pageSize)
      (pages : left.pages = host.pages) :
      (left.munmap address (m.mappedLength r)).pages page = m.image.host.pages page := by
    rw [taken_pages maps size pages, outside _ _ _ maps]
    rfl
  have scanned {within : Nat → Prop} {address : Nat} {host filled : Host} {patched : Image}
      (copied : Filled address host filled)
      (scan : Patched within (m.cleared r address filled) patched) :
      patched.host.pageSize = host.pageSize ∧ patched.host.pages = host.pages := by
    obtain ⟨bytes, frame⟩ := scan.frame
    rw [frame]
    exact copied.pages
  cases outcome with
  | refused _ _ image => rw [image]
  | dropped _ maps image =>
    rw [image]
    exact congrArg Option.isSome (taken maps rfl rfl)
  | abandoned _ maps _ copied scan image =>
    rw [image]
    obtain ⟨size, pages⟩ := scanned copied scan
    exact congrArg Option.isSome (taken maps size pages)
  | mapped maps _ _ copied _ scan _ image =>
    obtain ⟨size, pages⟩ := scanned copied scan
    have same := (maps_pages maps page).2 (outside _ _ _ maps)
    obtain image | image := image
    · rw [image, pages, same]
    · rw [image]
      dsimp only
      rw [protect_isSome, pages, same]

/-! ## munmap -/

/-- Every way `munmap` can end. An active stack is unmapped later, so that only the range to
unmap then is noted. -/
inductive MunmapOutcome (m : Machine) (address length : UInt32) (e : MunmapHost) :
    Int × Machine → Prop
  | refused : MunmapOutcome m address length e (einval, m)
  | deferred {start count : Nat}
      (later : guestThreadDeferActiveStackUnmap address.toNat (alignUp length.toNat m.pageBytes)
        e.activeStack m ≠ none) :
      MunmapOutcome m address length e
        (0, { m with deferredUnmapStart := start, deferredUnmapLength := count })
  | failed {errno : Errno}
      (owned : m.guestMemoryRuntimeOwned address.toNat (alignUp length.toNat m.pageBytes) = true) :
      MunmapOutcome m address length e
        (linuxError errno, m.note .munmap address.toNat (alignUp length.toNat m.pageBytes))
  | unmapped (aligned : address.toNat % m.pageBytes = 0) (size : m.badLength length.toNat = false)
      (owned : m.guestMemoryRuntimeOwned address.toNat (alignUp length.toNat m.pageBytes) = true) :
      MunmapOutcome m address length e
        (0, { m.munmap address.toNat (alignUp length.toNat m.pageBytes) with
          image := armPatchForgetRange address.toNat (alignUp length.toNat m.pageBytes)
            (m.image.munmap address.toNat (alignUp length.toNat m.pageBytes))
          registry := guestMemoryRuntimeUnmap m.registry address.toNat
            (alignUp length.toNat m.pageBytes) })

theorem linuxMunmapRuntime_outcome (address length : UInt32) (e : MunmapHost) (m : Machine) :
    MunmapOutcome m address length e (linuxMunmapRuntime address length e m) := by
  unfold linuxMunmapRuntime
  dsimp only
  split
  · exact .refused
  rename_i good
  split
  · exact .refused
  rename_i foreign
  have owned : m.guestMemoryRuntimeOwned address.toNat (alignUp length.toNat m.pageBytes) = true := by
    simpa using foreign
  split
  · rename_i deferred
    have later := Option.ne_none_iff_exists'.mpr ⟨_, deferred⟩
    unfold guestThreadDeferActiveStackUnmap at deferred
    split at deferred
    · cases deferred
    · split at deferred
      · cases deferred
      · cases deferred
        exact .deferred later
  · split
    · exact .failed owned
    · exact .unmapped (by omega) (by simpa using fun bad => good (.inr bad)) owned

end Linuxemu.Guest
