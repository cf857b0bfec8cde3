import Linuxemu.MmapOutcome

/-! Soundness of the patch table: one record an address, and a record for every trap
that is in place. What each change of memory and table does to it. -/
namespace Linuxemu.Guest
open Lib Registry
variable {s t : Image} {length address start a : Nat}
variable {within : Nat → Prop} {r : PatchRecord} {m : Machine} {w : UInt32}

structure Image.Sound (s : Image) : Prop where
  nodup : (s.patches.map PatchRecord.address).Nodup
  aligned : ∀ r ∈ s.patches, r.address % 4 = 0
  recorded : ∀ a w, s.trapped a = some w → ⟨a, w⟩ ∈ s.patches

/-- No recorded address `within` holds an instruction that would be patched. -/
def Image.Quiet (s : Image) (within : Nat → Prop) : Prop :=
  ∀ r ∈ s.patches, within r.address → ∀ w, s.host.peek r.address = some w → patchable w = false

theorem armPatchOriginal_mem {patches : List PatchRecord}
    (nodup : (patches.map PatchRecord.address).Nodup) (member : r ∈ patches) :
    armPatchOriginal patches r.address = some r.original := by
  induction patches with
  | nil => cases member
  | cons first rest ih =>
    rw [List.map_cons, List.nodup_cons] at nodup
    unfold armPatchOriginal
    cases member with
    | head => rw [List.find?_cons_of_pos (by simp), Option.map_some]
    | tail _ later =>
      have other : first.address ≠ r.address := by
        intro same
        exact nodup.1 (same ▸ List.mem_map_of_mem later)
      rw [List.find?_cons_of_neg (by simpa using other)]
      exact ih nodup.2 later

/-- The table answers for every trap in place. -/
theorem Image.Sound.original (sound : s.Sound) (trapped : s.trapped a = some w) :
    armPatchOriginal s.patches a = some w :=
  armPatchOriginal_mem sound.nodup (sound.recorded a w trapped)

/-! ## Changes of memory -/

/-- Fewer traps in place and the same table. -/
theorem Image.Sound.fewer (sound : s.Sound) (patches : t.patches = s.patches)
    (trapped : ∀ a w, t.trapped a = some w → s.trapped a = some w) : t.Sound where
  nodup := patches ▸ sound.nodup
  aligned := patches ▸ sound.aligned
  recorded a w found := patches ▸ sound.recorded a w (trapped a w found)

theorem untrap_some (found : s.untrap start length a = some w) :
    s.host.inSpan start length (a / s.host.pageSize.bytes) = false ∧ s.trapped a = some w := by
  unfold Image.untrap at found
  split at found
  · cases found
  · rename_i outside
    exact ⟨by simpa using outside, found⟩

theorem Image.Sound.remap (sound : s.Sound) (host : Host) (start length : Nat) :
    (s.remap host start length).Sound :=
  sound.fewer rfl fun _ _ found => (untrap_some found).2

theorem Image.Sound.host (sound : s.Sound) (host : Host) :
    ({ s with host } : Image).Sound :=
  sound.fewer rfl fun _ _ found => found

/-! ## Forgetting -/

theorem mem_forget :
    r ∈ (armPatchForgetRange address length s).patches ↔ r ∈ s.patches ∧
      (r.address < address ∨
        (if uintptrMax - address < length then uintptrMax else address + length) ≤ r.address) := by
  simp only [armPatchForgetRange, List.mem_filter, Bool.or_eq_true, decide_eq_true_iff]

/-- Forgetting a range is sound once no trap is in place there. -/
theorem Image.Sound.forget (sound : s.Sound)
    (clear : ∀ a, address ≤ a → a < address + length → s.trapped a = none) :
    (armPatchForgetRange address length s).Sound where
  nodup := sound.nodup.sublist (List.filter_sublist.map _)
  aligned r member := sound.aligned r (mem_forget.mp member).1
  recorded a w found := by
    refine mem_forget.mpr ⟨sound.recorded a w found, ?_⟩
    have bound : (if uintptrMax - address < length then uintptrMax else address + length) ≤
        address + length := by
      split
      · omega
      · exact Nat.le_refl _
    by_contra inside
    rw [not_or, Nat.not_lt, Nat.not_le] at inside
    have none := clear a inside.1 (Nat.lt_of_lt_of_le inside.2 bound)
    rw [show s.trapped a = some w from found] at none
    cases none

/-- Unmapped pages have no traps. -/
theorem munmap_trapped (aligned : start % s.host.pageSize.bytes = 0) (low : start ≤ a)
    (high : a < start + length) :
    (s.munmap start length).trapped a = none := by
  have inside : s.host.inSpan start length (a / s.host.pageSize.bytes) = true :=
    (inSpan_iff s.host aligned length a).mpr
      ⟨low, Nat.lt_of_lt_of_le high (Nat.add_le_add_left (le_pageCount_mul s.host length) _)⟩
  show (if s.host.inSpan start length (a / s.host.pageSize.bytes) then none else s.trapped a) = none
  rw [if_pos inside]

/-- Taking a mapping back: its records and its pages go. -/
theorem Image.Sound.abandon (sound : s.Sound) (aligned : start % s.host.pageSize.bytes = 0) :
    ((armPatchForgetRange start length s).munmap start length).Sound := by
  have swapped : ((armPatchForgetRange start length s).munmap start length) =
      armPatchForgetRange start length (s.munmap start length) := rfl
  rw [swapped]
  exact (sound.remap _ start length).forget fun a low high => munmap_trapped aligned low high

/-! ## Patching and rolling back -/

theorem Image.Quiet.unrecorded (quiet : s.Quiet within) {word : UInt32} (inside : within address)
    (loaded : s.host.loadWord address = some word) (code : patchable word = true) :
    address ∉ s.patches.map PatchRecord.address := by
  intro member
  obtain ⟨r, known, rfl⟩ := List.mem_map.mp member
  have plain := quiet r known inside word (peek_of_loadWord loaded)
  rw [code] at plain
  cases plain

/-- A scan of a quiet range records each address once. -/
theorem Patched.sound (h : Patched within s t) (sound : s.Sound) (quiet : s.Quiet within) :
    t.Sound ∧ t.Quiet within := by
  induction h with
  | refl s => exact ⟨sound, quiet⟩
  | @trap s _ _ address word inside aligned loaded code trapped _ ih =>
    obtain ⟨host, stored, rfl⟩ := trap_some trapped
    have absent := quiet.unrecorded inside loaded code
    apply ih
    · constructor
      · rw [List.map_append, List.nodup_append]
        refine ⟨sound.nodup, by simp, ?_⟩
        intro a known b new same
        simp only [List.map_cons, List.map_nil, List.mem_singleton] at new
        exact absent (new ▸ same ▸ known)
      · intro r member
        rw [List.mem_append, List.mem_singleton] at member
        obtain old | rfl := member
        · exact sound.aligned r old
        · exact aligned
      · intro a w found
        dsimp only at found
        rw [List.mem_append, List.mem_singleton]
        split at found
        · rename_i here
          cases found
          exact Or.inr (by rw [here])
        · exact Or.inl (sound.recorded a w found)
    · intro r member there w seen
      rw [List.mem_append, List.mem_singleton] at member
      obtain old | rfl := member
      · obtain same | stop := peek_storeWord stored aligned (sound.aligned r old)
        · exact quiet r old there w (same.symm.trans seen)
        · obtain rfl : armUdfTrap = w := Option.some.inj (stop.symm.trans seen)
          exact patchable_udf
      · obtain rfl : armUdfTrap = w := Option.some.inj ((peek_stored stored).symm.trans seen)
        exact patchable_udf

theorem Image.Sound.rollback (sound : s.Sound) {retained : Nat}
    (done : armPatchRollback retained s = some t) : t.Sound := by
  obtain ⟨-, patches, trapped⟩ := armPatchRollback_spec done
  constructor
  · rw [patches]
    exact sound.nodup.sublist ((List.take_sublist _ _).map _)
  · intro r member
    rw [patches] at member
    exact sound.aligned r (List.mem_of_mem_take member)
  · intro a w found
    rw [trapped a] at found
    split at found
    · cases found
    · rename_i kept
      have member := sound.recorded a w found
      rw [← List.take_append_drop retained s.patches, List.mem_append] at member
      obtain old | new := member
      · rw [patches]
        exact old
      · exact absurd (List.mem_map_of_mem new) kept

/-! ## Host calls -/

theorem mprotect_sound (sound : m.image.Sound) (start length : Nat) (protection : Protection)
    (failure : Option Errno) :
    (m.mprotect start length protection failure).2.image.Sound := by
  obtain ⟨errno, asked⟩ | asked := mprotect_cases m start length protection failure
  · rw [asked]
    exact sound
  · rw [asked]
    exact sound.host _

theorem mmap_sound (sound : m.image.Sound) (address length : Nat) (protection : Protection)
    (flags : MapFlags) (descriptor offset : Int) (outcome : Except Errno Nat) :
    (m.mmap address length protection flags descriptor offset outcome).2.image.Sound := by
  obtain ⟨calls, noted⟩ := noteFixed_frame m flags address (alignUp length m.pageBytes)
  obtain ⟨errno, -, result⟩ | ⟨mapping, host, -, result⟩ :=
    mmap_cases m address length protection flags descriptor offset outcome
  · rw [result, noted]
    exact sound
  · rw [result]
    exact sound.remap _ _ _

end Linuxemu.Guest
