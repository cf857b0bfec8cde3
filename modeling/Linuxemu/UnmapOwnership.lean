import Linuxemu.MmapOutcome
import Linuxemu.Load
import Linuxemu.RegistryRuns

/-! What `guest_memory_runtime_unmap` leaves owned. A range inside one entry leaves two
entries, for which a full table has no room. -/
namespace Linuxemu.Registry
open Lib
variable {r : Table} {address length start stop : Nat}

/-- The table is full, and one entry goes beyond the range on both sides. -/
def Table.FullAround (r : Table) (start stop : Nat) : Prop :=
  r.runtimeMappings.length = maxRuntimeMappings ∧
    ∃ p ∈ r.runtimeMappings, p.start < start ∧ stop < p.stop

instance (r : Table) (start stop : Nat) : Decidable (r.FullAround start stop) :=
  inferInstanceAs (Decidable (_ ∧ _))

/-- No byte of the range is owned any more, and every other byte is as it was. -/
def Table.Removed (r : Table) (address length : Nat) (after : Table) : Prop :=
  (∀ x, address ≤ x → x < address + length → guestMemoryRuntimeOwned after x 1 = false) ∧
  ∀ x, ¬ (address ≤ x ∧ x < address + length) → after.flagAt x = r.flagAt x

theorem owned_one_iff {x : Nat} (fits : x < uintptrMax) :
    guestMemoryRuntimeOwned r x 1 = true ↔ r.flagAt x ≠ none := by
  rw [guestMemoryRuntimeOwned_iff]
  constructor
  · rintro ⟨-, -, owned⟩
    exact owned x (Nat.le_refl x) (Nat.lt_succ_self x)
  · intro owned
    refine ⟨Nat.one_pos, fits, ?_⟩
    intro y low high
    obtain rfl : y = x := by omega
    exact owned

/-- The sorted list is decided by the entries, so a sorted list of them is what is joined. -/
theorem replace_code_iff (valid : r.Valid) (lt : start < stop) {add : Bool} {executable : Int}
    (canonical : Piece.Canonical (replacement r.runtimeMappings start stop add executable)) :
    let done := runtimeReplaceLocked r start stop add executable
    let entries := replacement r.runtimeMappings start stop add executable
    (done.1 = 0 ↔ entries.length ≤ maxRuntimeMappings) ∧
      (done.1 = 0 → done.2.runtimeMappings = entries) := by
  intro done entries
  obtain ⟨sorted, perm, order, full, fits, -⟩ :=
    runtimeReplaceLocked_spec r start stop add executable
  have apart := replacement_apart lt add executable valid.canonical.apart
  obtain rfl : sorted = entries :=
    ((apart.perm perm.symm).sorted order).eq_of_perm canonical.sorted perm
  rw [Piece.coalesce_self canonical.split] at full fits
  by_cases above : maxRuntimeMappings < entries.length
  · have code : done.1 = -1 := (full above).1
    rw [code]
    exact ⟨iff_of_false (by decide) (by omega), fun wrong => absurd wrong (by decide)⟩
  · exact ⟨iff_of_true (fits above).1 (by omega), fun _ => (fits above).2⟩

theorem unmap_code_iff (valid : r.Valid) (lt : start < stop) :
    (runtimeReplaceLocked r start stop false 0).1 = 0 ↔ ¬ r.FullAround start stop := by
  have canonical := valid.canonical.carveAll lt
  have entries : replacement r.runtimeMappings start stop false 0 =
      Piece.carveAll start stop r.runtimeMappings := List.append_nil _
  rw [(replace_code_iff valid lt (entries ▸ canonical)).1, entries]
  have more := valid.canonical.apart.length_lt_carveAll lt
  have most := valid.canonical.apart.length_carveAll (s := start) (e := stop)
  have bounded := valid.bounded
  constructor
  · rintro short ⟨full, around⟩
    have := more.mpr around
    omega
  · intro room
    by_contra long
    exact room ⟨by omega, more.mp (by omega)⟩

theorem unmap_eq (positive : 0 < length) (fits : address + length ≤ uintptrMax) :
    guestMemoryRuntimeUnmap r address length =
      (runtimeReplaceLocked r address (address + length) false 0).2 := by
  unfold guestMemoryRuntimeUnmap
  rw [badRange_eq_false.mpr ⟨positive, fits⟩]
  rfl

/-- In a full table around the range, everything stays owned. -/
theorem unmap_kept (valid : r.Valid) (positive : 0 < length) (fits : address + length ≤ uintptrMax)
    (full : r.FullAround address (address + length)) :
    (guestMemoryRuntimeUnmap r address length).runtimeMappings = r.runtimeMappings := by
  rw [unmap_eq positive fits]
  apply replace_failed
  exact fun done => (unmap_code_iff valid (by omega)).mp done full

theorem unmap_flagAt (valid : r.Valid) (positive : 0 < length)
    (fits : address + length ≤ uintptrMax) (room : ¬ r.FullAround address (address + length))
    (x : Nat) : (guestMemoryRuntimeUnmap r address length).flagAt x =
      if address ≤ x ∧ x < address + length then none else r.flagAt x := by
  have lt : address < address + length := by omega
  rw [unmap_eq positive fits]
  exact replace_flagAt valid lt false 0 ((unmap_code_iff valid lt).mpr room) x

theorem FullAround.owned {x : Nat} (full : r.FullAround start stop) (low : start ≤ x)
    (high : x < stop) : r.flagAt x ≠ none := by
  obtain ⟨-, p, member, before, after⟩ := full
  rw [Table.flagAt, ne_eq, Piece.flagAt_eq_none]
  exact fun none => none p member ⟨by omega, by omega⟩

theorem removed_iff (valid : r.Valid) (positive : 0 < length)
    (fits : address + length ≤ uintptrMax) :
    r.Removed address length (guestMemoryRuntimeUnmap r address length) ↔
      ¬ r.FullAround address (address + length) := by
  constructor
  · rintro ⟨gone, -⟩ full
    have owned : guestMemoryRuntimeOwned (guestMemoryRuntimeUnmap r address length) address 1 =
        true := by
      rw [owned_one_iff (by omega), flagAt_congr (unmap_kept valid positive fits full)]
      exact FullAround.owned full (Nat.le_refl _) (by omega)
    rw [gone address (Nat.le_refl _) (by omega)] at owned
    cases owned
  · intro room
    have flags := unmap_flagAt valid positive fits room
    constructor
    · intro x low high
      rw [← Bool.not_eq_true, owned_one_iff (by omega), flags, if_pos ⟨low, high⟩]
      simp
    · intro x outside
      rw [flags, if_neg outside]

/-! ## A full table -/

/-- Mappings of three pages with a page between them. -/
def row (k : Nat) : RuntimeMapping := ⟨0x10000 + k * 0x4000, 0x13000 + k * 0x4000, 0⟩

def rows (n : Nat) : List RuntimeMapping := (List.range n).map row

theorem rows_succ (n : Nat) : rows (n + 1) = rows n ++ [row n] := by
  simp [rows, List.range_succ]

theorem rows_canonical (n : Nat) : Piece.Canonical (rows n) := by
  apply Piece.Canonical.of_pairwise
  · intro p member
    obtain ⟨k, -, rfl⟩ := List.mem_map.mp member
    simp only [row]
    omega
  · refine List.pairwise_map.mpr (List.pairwise_lt_range.imp ?_)
    intro k l before
    have gap : (row k).stop < (row l).start := by
      simp only [row]
      omega
    refine ⟨gap.le, ?_⟩
    rw [← Bool.not_eq_true, Piece.touches_iff]
    exact fun touch => gap.ne touch.1

theorem carveAll_rows (n : Nat) : Piece.carveAll (row n).start (row n).stop (rows n) = rows n := by
  have spared (p : RuntimeMapping) (member : p ∈ rows n) :
      Piece.carve (row n).start (row n).stop p = [p] := by
    obtain ⟨k, below, rfl⟩ := List.mem_map.mp member
    rw [List.mem_range] at below
    refine Piece.carve_outside (Or.inl ?_)
    simp only [row]
    omega
  exact (List.flatMap_congr spared).trans (List.flatMap_singleton' _)

/-- Mapping one row after another fills the table. -/
theorem reachable_rows {n : Nat} (few : n ≤ maxRuntimeMappings) :
    ∃ r, Reachable r ∧ r.runtimeMappings = rows n := by
  induction n with
  | zero => exact ⟨empty, .start, rfl⟩
  | succ n ih =>
    obtain ⟨r, reached, entries⟩ := ih (by omega)
    refine ⟨_, .map (row n).start 0x3000 0 reached, ?_⟩
    have few' : n < 2048 := few
    have lt : (row n).start < (row n).start + 0x3000 := by omega
    have stop : (row n).start + 0x3000 = (row n).stop := by
      simp only [row]
      omega
    have next : replacement r.runtimeMappings (row n).start ((row n).start + 0x3000) true 0 =
        rows (n + 1) := by
      rw [replacement, entries, stop, carveAll_rows, rows_succ]
      rfl
    obtain ⟨code, mapped⟩ := replace_code_iff (reachable_valid reached) lt
      (next ▸ rows_canonical (n + 1))
    have done := code.mpr (by rw [next]; simpa [rows] using few)
    have good : badRange (row n).start 0x3000 = false := by
      rw [badRange_eq_false, uintptrMax]
      simp only [row]
      omega
    unfold guestMemoryRuntimeMap
    rw [good]
    simp only [Bool.false_eq_true, ↓reduceIte, done]
    exact (mapped done).trans next

end Linuxemu.Registry

namespace Linuxemu.Guest
open Lib Registry
variable {address length : UInt32} {m m' : Machine}

/-- The host is asked for no fixed mapping that meets the range. -/
def Machine.KeepsOut (m : Machine) (start stop : Nat) : Prop :=
  ∀ (r : Registers) (e : MmapHost), r.mapFixed = true → r.address < stop →
    start < r.address + m.mappedLength r → m.mmapGranted r e = false

/-- What a call has done that unmaps now and returns 0. -/
structure Unmapped (m : Machine) (address length : UInt32) (m' : Machine) : Prop where
  aligned : address.toNat % m.pageBytes = 0
  size : m.badLength length.toNat = false
  owned : m.guestMemoryRuntimeOwned address.toNat (alignUp length.toNat m.pageBytes) = true
  pageSize : m'.image.host.pageSize = m.image.host.pageSize
  registry : m'.registry =
    guestMemoryRuntimeUnmap m.registry address.toNat (alignUp length.toNat m.pageBytes)

theorem linuxMunmapRuntime_unmapped {e : MunmapHost}
    (now : guestThreadDeferActiveStackUnmap address.toNat (alignUp length.toNat m.pageBytes)
      e.activeStack m = none) (done : linuxMunmapRuntime address length e m = (0, m')) :
    Unmapped m address length m' := by
  have outcome := linuxMunmapRuntime_outcome address length e m
  rw [done] at outcome
  generalize result : (0 : Int) = code at outcome
  cases outcome with
  | refused => cases result
  | deferred later => exact absurd now later
  | @failed errno =>
    have negative := linuxError_neg errno
    omega
  | unmapped aligned size owned => exact ⟨aligned, size, owned, rfl, rfl⟩

theorem linuxMunmapRuntime_now (aligned : address.toNat % m.pageBytes = 0)
    (size : m.badLength length.toNat = false)
    (owned : m.guestMemoryRuntimeOwned address.toNat (alignUp length.toNat m.pageBytes) = true) :
    ∃ m', linuxMunmapRuntime address length ⟨none, none⟩ m = (0, m') := by
  unfold linuxMunmapRuntime
  rw [if_neg (by simp [aligned, size])]
  dsimp only
  rw [if_neg (by simp [owned])]
  exact ⟨_, rfl⟩

theorem granted_fixed_owned {r : Registers} {e : MmapHost} (granted : m.mmapGranted r e = true)
    (fixed : r.mapFixed = true) :
    m.guestMemoryRuntimeOwned r.address (m.mappedLength r) = true := by
  unfold Machine.mmapGranted at granted
  split at granted
  · cases granted
  · rename_i checked
    exact ((checkMmap2_ok checked).fixed fixed).2

/-- Anonymous private memory without access, on the pages it is asked for. -/
def fixedAnonymous (address length : UInt32) : Registers := ⟨address, length, 0, 0x32, 0, 0⟩

theorem fixedAnonymous_flags (address length : UInt32) :
    let r := fixedAnonymous address length
    r.mapShared = false ∧ r.mapPrivate = true ∧ r.mapFixed = true ∧ r.mapAnonymous = true := by
  have bits : decide ((0x32 : UInt32) &&& 0x1 ≠ 0) = false ∧
      decide ((0x32 : UInt32) &&& 0x2 ≠ 0) = true ∧ decide ((0x32 : UInt32) &&& 0x10 ≠ 0) = true ∧
      decide ((0x32 : UInt32) &&& 0x20 ≠ 0) = true := by decide
  exact bits

/-- The registry alone keeps a fixed mapping away: some host maps what it owns. -/
theorem fixedAnonymous_granted (aligned : address.toNat % m.pageBytes = 0)
    (size : m.badLength length.toNat = false)
    (owned : m.guestMemoryRuntimeOwned address.toNat (alignUp length.toNat m.pageBytes) = true) :
    ∃ e, m.mmapGranted (fixedAnonymous address length) e = true := by
  obtain ⟨shared, own, fixed, anonymous⟩ := fixedAnonymous_flags address length
  have bounds := size
  rw [Machine.badLength, Bool.or_eq_false_iff, decide_eq_false_iff_not,
    decide_eq_false_iff_not, not_lt] at bounds
  have translated : translateProtection 0 = some ⟨false, false, false⟩ := by decide
  have known : (0x32 : UInt32) &&& ~~~0x33 = 0 := by decide
  have checked : m.Checked (fixedAnonymous address length) ⟨false, false, false⟩ :=
    ⟨translated, by rw [shared, own]; rfl, Nat.pos_of_ne_zero bounds.1, bounds.2,
      fun _ => ⟨aligned, owned⟩, fun _ => rfl⟩
  have flags : (fixedAnonymous address length).hostFlags ⟨false, false, false⟩ =
      ⟨false, true, true⟩ := by
    rw [Registers.hostFlags, Registers.copies, shared, fixed, anonymous]
    rfl
  have whole : alignUp length.toNat m.pageBytes =
      m.image.host.pageCount length.toNat * m.image.host.pageSize.bytes :=
    alignUp_eq m.image.host bounds.2
  have fits := ((guestMemoryRuntimeOwned_iff _ _ _).mp owned).2.1
  rw [whole, uintptrMax] at fits
  have can (descriptor offset : Int) : m.image.host.canMap address.toNat length.toNat
      ⟨false, true, true⟩ descriptor offset address.toNat = true := by
    have inside := Nat.le_trans fits (show 2 ^ 32 - 1 ≤ 2 ^ 32 by decide)
    have start : address.toNat % m.image.host.pageSize.bytes = 0 := aligned
    have positive : 0 < length.toNat := Nat.pos_of_ne_zero bounds.1
    simp only [Host.canMap, start, inside, positive, decide_true, Bool.and_self, ↓reduceIte,
      Bool.true_or]
  refine ⟨⟨.ok address.toNat, none, [], ⟨none, [], true, []⟩, none, none⟩, ?_⟩
  unfold Machine.mmapGranted
  rw [checked.ok known]
  dsimp only [Machine.askHost]
  rw [flags]
  unfold Host.mmap
  exact (congrArg Except.isOk (if_pos (can _ _))).trans rfl

/-- In a full table around the range, the pages can be had again. -/
theorem Unmapped.granted (unmapped : Unmapped m address length m') (valid : m.registry.Valid)
    (full : m.registry.FullAround address.toNat
      (address.toNat + alignUp length.toNat m.pageBytes)) :
    ∃ e, m'.mmapGranted (fixedAnonymous address length) e = true := by
  have pages : m'.pageBytes = m.pageBytes := congrArg PageSize.bytes unmapped.pageSize
  obtain ⟨positive, fits, -⟩ := (guestMemoryRuntimeOwned_iff _ _ _).mp unmapped.owned
  have kept : m'.registry.runtimeMappings = m.registry.runtimeMappings := by
    rw [unmapped.registry]
    exact unmap_kept valid positive fits full
  apply fixedAnonymous_granted
  · exact pages ▸ unmapped.aligned
  · rw [Machine.badLength, pages]
    exact unmapped.size
  · rw [Machine.guestMemoryRuntimeOwned, Registry.guestMemoryRuntimeOwned, kept, pages]
    exact unmapped.owned

theorem Unmapped.keepsOut_iff (unmapped : Unmapped m address length m') (valid : m.registry.Valid) :
    let mapped := alignUp length.toNat m.pageBytes
    m'.KeepsOut address.toNat (address.toNat + mapped) ↔
      ¬ m.registry.FullAround address.toNat (address.toNat + mapped) := by
  intro mapped
  have pages : m'.pageBytes = m.pageBytes := congrArg PageSize.bytes unmapped.pageSize
  obtain ⟨positive, fits, -⟩ := (guestMemoryRuntimeOwned_iff _ _ _).mp unmapped.owned
  constructor
  · intro out full
    obtain ⟨e, granted⟩ := unmapped.granted valid full
    have above : address.toNat < address.toNat + m'.mappedLength (fixedAnonymous address length) := by
      rw [Machine.mappedLength, pages]
      exact Nat.lt_add_of_pos_right positive
    rw [out _ e (fixedAnonymous_flags address length).2.2.1
      (Nat.lt_add_of_pos_right positive) above] at granted
    cases granted
  · intro room r e fixed below above
    rw [← Bool.not_eq_true]
    intro granted
    obtain ⟨some, -, all⟩ :=
      (guestMemoryRuntimeOwned_iff _ _ _).mp (granted_fixed_owned granted fixed)
    -- the first byte that both ranges have
    refine all (max r.address address.toNat) (Nat.le_max_left _ _) (by omega) ?_
    rw [unmapped.registry]
    refine (unmap_flagAt valid positive fits room _).trans (if_pos ⟨Nat.le_max_right _ _, ?_⟩)
    omega

/-- Unmapping takes the range out of the registry, and keeps fixed mappings out of it,
except where one entry of a full table goes beyond it on both sides. -/
theorem unmap_removes_iff {r : Table} (reached : Registry.Reachable r) {address length : Nat}
    (positive : 0 < length) (fits : address + length ≤ uintptrMax) :
    (r.Removed address length (guestMemoryRuntimeUnmap r address length) ↔
      ¬ r.FullAround address (address + length)) ∧
    ∀ (m m' : Machine) (a l : UInt32) (e : MunmapHost), m.registry = r → a.toNat = address →
      alignUp l.toNat m.pageBytes = length →
      guestThreadDeferActiveStackUnmap address length e.activeStack m = none →
      linuxMunmapRuntime a l e m = (0, m') →
      (m'.KeepsOut address (address + length) ↔ ¬ r.FullAround address (address + length)) := by
  have valid := reachable_valid reached
  refine ⟨removed_iff valid positive fits, ?_⟩
  rintro m m' a l e rfl rfl rfl now done
  exact (linuxMunmapRuntime_unmapped now done).keepsOut_iff valid

/-- The middle page of three goes, and nothing can be mapped over it. -/
theorem unmap_removes_middle :
    let r := (guestMemoryRuntimeMap empty 0x10000 0x3000 0).table
    r.Removed 0x11000 0x1000 (guestMemoryRuntimeUnmap r 0x11000 0x1000) ∧
    (linuxMunmapRuntime 0x11000 0x1000 ⟨none, none⟩ { bareMachine with registry := r }).2.KeepsOut
      0x11000 0x12000 := by
  intro r
  have spec := unmap_removes_iff (.map 0x10000 0x3000 0 .start) (show 0 < 0x1000 by decide)
    (show 0x11000 + 0x1000 ≤ uintptrMax by decide)
  have room : ¬ r.FullAround 0x11000 0x12000 := by decide +kernel
  have zero : (linuxMunmapRuntime 0x11000 0x1000 ⟨none, none⟩
      { bareMachine with registry := r }).1 = 0 := by decide +kernel
  refine ⟨spec.1.mpr room, ?_⟩
  exact (spec.2 _ _ 0x11000 0x1000 ⟨none, none⟩ rfl rfl (by decide +kernel) rfl
    (Prod.ext zero rfl)).mpr room

/-- With 2048 mappings of three pages, unmapping the middle page of the first returns 0;
the page stays owned and the host maps it again for the guest. -/
theorem unmap_full_table_keeps :
    ∃ r, Registry.Reachable r ∧
      guestMemoryRuntimeOwned (guestMemoryRuntimeUnmap r 0x11000 0x1000) 0x11000 0x1000 = true ∧
      ∃ m' e, linuxMunmapRuntime 0x11000 0x1000 ⟨none, none⟩ { bareMachine with registry := r } =
        (0, m') ∧ m'.mmapGranted (fixedAnonymous 0x11000 0x1000) e = true := by
  obtain ⟨r, reached, entries⟩ := reachable_rows (Nat.le_refl maxRuntimeMappings)
  have first : row 0 ∈ r.runtimeMappings := by
    rw [entries]
    exact List.mem_map.mpr ⟨0, List.mem_range.mpr (by decide), rfl⟩
  have full : r.FullAround 0x11000 (0x11000 + 0x1000) :=
    ⟨by rw [entries]; simp [rows], row 0, first, by decide, by decide⟩
  have owned : guestMemoryRuntimeOwned r 0x11000 0x1000 = true := by
    rw [guestMemoryRuntimeOwned_iff]
    exact ⟨by decide, by decide, fun x => FullAround.owned full⟩
  have still : guestMemoryRuntimeOwned (guestMemoryRuntimeUnmap r 0x11000 0x1000) 0x11000 0x1000 =
      true := by
    rw [Registry.guestMemoryRuntimeOwned, unmap_kept (reachable_valid reached) (by decide)
      (by decide) full]
    exact owned
  have pages : alignUp (0x1000 : UInt32).toNat bareMachine.pageBytes = 0x1000 := by decide +kernel
  obtain ⟨m', done⟩ := linuxMunmapRuntime_now (m := { bareMachine with registry := r })
    (show (0x11000 : UInt32).toNat % bareMachine.pageBytes = 0 by decide +kernel)
    (show bareMachine.badLength (0x1000 : UInt32).toNat = false by decide +kernel)
    (show guestMemoryRuntimeOwned r 0x11000 (alignUp _ bareMachine.pageBytes) = true from
      pages.symm ▸ owned)
  have unmapped := linuxMunmapRuntime_unmapped rfl done
  obtain ⟨e, granted⟩ := unmapped.granted (reachable_valid reached)
    (show r.FullAround 0x11000 (0x11000 + alignUp _ bareMachine.pageBytes) from pages.symm ▸ full)
  exact ⟨r, reached, still, m', e, done, granted⟩

end Linuxemu.Guest
