import Mathlib.Data.Finset.Dedup
import Mathlib.Data.Finset.Card
import Linuxemu.PatchScan

/-! How many records a scan adds: one for each place of memory that holds an instruction to
patch, however many addresses show it. So the table runs out exactly when it has no room
for these places. -/
namespace Linuxemu.Guest
open Lib Registry
variable {place : Place (Option Nat)} {address length start : Nat} {s t : Image} {h : Host}
variable {error : Option Errno} {other count : Nat}

/-- The place of an instruction to patch, whatever the protection of its page. -/
def Host.codeAt (h : Host) (address : Nat) : List (Place (Option Nat)) :=
  (h.access (fun _ => true) address).toList.filter fun place => patchable (wordAt h.bytes place)

/-- The places that a scan of `count` words comes by. -/
def Host.codePlaces (h : Host) : Nat → Nat → List (Place (Option Nat))
  | 0, _ => []
  | count + 1, address => h.codeAt address ++ h.codePlaces count (address + 4)

def Host.codeCount (h : Host) (count address : Nat) : Nat :=
  (h.codePlaces count address).toFinset.card

theorem codeAt_loaded {word : UInt32} (found : h.access Page.readable address = some place)
    (loaded : h.loadWord address = some word) :
    h.codeAt address = if patchable word then [place] else [] := by
  rw [Host.loadWord, Host.wordVia, found, Option.map_some, Option.some.injEq] at loaded
  rw [Host.codeAt, access_weaken (fun _ _ => rfl) found, ← loaded]
  exact List.filter_cons

/-- A trap takes its place away from the code, at every address that shows it. -/
theorem codeAt_trapped (found : h.access Page.writable address = some place)
    (aligned : address % 4 = 0) (even : other % 4 = 0) :
    ({ h with bytes := setWord h.bytes place armUdfTrap } : Host).codeAt other =
      (h.codeAt other).filter fun q => decide (q ≠ place) := by
  have same : ({ h with bytes := setWord h.bytes place armUdfTrap } : Host).access
      (fun _ => true) other = h.access (fun _ => true) other := access_congr rfl rfl _ _
  rw [Host.codeAt, same, Host.codeAt, List.filter_filter]
  apply List.filter_congr
  intro q member
  have seen : h.access (fun _ => true) other = some q := Option.mem_toList.mp member
  by_cases equal : q = place
  · subst equal
    simp [wordAt_setWord, patchable_udf]
  · have word : wordAt (setWord h.bytes place armUdfTrap) q = wordAt h.bytes q :=
      wordAt_setWord_ne _ _ (access_aligned found aligned) (access_aligned seen even) equal
    simp [word, equal]

theorem codePlaces_trapped (found : h.access Page.writable address = some place)
    (aligned : address % 4 = 0) (count : Nat) (even : other % 4 = 0) :
    ({ h with bytes := setWord h.bytes place armUdfTrap } : Host).codePlaces count other =
      (h.codePlaces count other).filter fun q => decide (q ≠ place) := by
  induction count generalizing other with
  | zero => rfl
  | succ count ih =>
    rw [Host.codePlaces, Host.codePlaces, codeAt_trapped found aligned even, ih (by omega),
      List.filter_append]

theorem codePlaces_protect (h : Host) (start length : Nat) (protection : Protection)
    (count address : Nat) :
    (h.protect start length protection).codePlaces count address = h.codePlaces count address := by
  induction count generalizing address with
  | zero => rfl
  | succ count ih =>
    rw [Host.codePlaces, Host.codePlaces, ih, Host.codeAt, access_protect]
    rfl

/-- The table has room, but not for so many records. -/
def TooMany (records more : Nat) : Prop := records ≤ maxPatches ∧ maxPatches < records + more

instance (records more : Nat) : Decidable (TooMany records more) :=
  inferInstanceAs (Decidable (_ ∧ _))

/-- A scan adds a record for each place of code, or finds the table full before it has. -/
theorem patchWords_count (aligned : address % 4 = 0)
    (done : patchWords count address s = some (error, t)) :
    (error ≠ none ∧ TooMany s.patches.length (s.host.codeCount count address)) ∨
    (error = none ∧ ¬ TooMany s.patches.length (s.host.codeCount count address) ∧
      t.patches.length = s.patches.length + s.host.codeCount count address) := by
  unfold TooMany
  induction count generalizing address s with
  | zero =>
    have none : s.host.codeCount 0 address = 0 := rfl
    cases done
    exact .inr ⟨rfl, by omega, by omega⟩
  | succ count ih =>
    rw [patchWords] at done
    split at done
    · cases done
    · rename_i word loaded
      obtain ⟨place, found, -⟩ := Option.map_eq_some_iff.mp loaded
      have here := codeAt_loaded found loaded
      cases code : patchable word with
      | false =>
        rw [code] at done here
        have same : s.host.codeCount (count + 1) address =
            s.host.codeCount count (address + 4) := by
          rw [Host.codeCount, Host.codePlaces, here]
          rfl
        rw [same]
        exact ih (by omega) done
      | true =>
        rw [code] at done here
        have more : (s.host.codePlaces (count + 1) address).toFinset =
            insert place (s.host.codePlaces count (address + 4)).toFinset := by
          rw [Host.codePlaces, here]
          exact List.toFinset_cons
        simp only [Bool.not_true, Bool.false_eq_true, ↓reduceIte] at done
        split at done
        · rename_i full
          have some : 0 < s.host.codeCount (count + 1) address :=
            Finset.card_pos.mpr ⟨place, more ▸ Finset.mem_insert_self _ _⟩
          cases done
          exact .inl ⟨by simp, by omega, by omega⟩
        · rename_i room
          split at done
          · cases done
          · rename_i trapped
            obtain ⟨host, stored, rfl⟩ := trap_some trapped
            obtain ⟨place', found', after⟩ := storeWord_some stored
            obtain rfl : place' = place := Option.some.inj
              ((access_weaken (fun _ => Page.readable_of_writable) found').symm.trans found)
            have fewer : host.codeCount count (address + 4) + 1 =
                s.host.codeCount (count + 1) address := by
              have erased : (s.host.codePlaces count (address + 4)).toFinset.filter (· ≠ place') =
                  (insert place' (s.host.codePlaces count (address + 4)).toFinset).erase place' := by
                rw [Finset.erase_insert_eq_erase, Finset.filter_ne']
              rw [Host.codeCount, after, codePlaces_trapped found' aligned count (by omega),
                List.toFinset_filter]
              simp only [decide_eq_true_eq]
              rw [erased, Finset.card_erase_add_one (Finset.mem_insert_self _ _), ← more]
              rfl
            have rest := ih (by omega) done
            dsimp only at rest
            rw [List.length_append, List.length_singleton] at rest
            obtain ⟨failed, many⟩ | ⟨fine, few, length⟩ := rest
            · exact .inl ⟨failed, by omega, by omega⟩
            · exact .inr ⟨fine, by omega, by omega⟩

theorem armPatchRange_count (aligned : start % 4 = 0) (words : length % 4 = 0)
    (fits : start + length ≤ uintptrMax) (done : armPatchRange start length s = some (error, t)) :
    (error ≠ none ∧ TooMany s.patches.length (s.host.codeCount (length / 4) start)) ∨
    (error = none ∧ ¬ TooMany s.patches.length (s.host.codeCount (length / 4) start) ∧
      t.patches.length = s.patches.length + s.host.codeCount (length / 4) start) := by
  rw [armPatchRange, if_neg (by omega)] at done
  exact patchWords_count aligned done

/-! ## A scan ends -/

theorem Patched.writable {within : Nat → Prop} (h : Patched within s t) (a : Nat) :
    t.host.access Page.writable a = s.host.access Page.writable a := by
  obtain ⟨bytes, frame⟩ := h.frame
  rw [frame]
  exact access_congr rfl rfl _ _

/-- A scan of memory that can be written ends, with everything patched or with the table
full in front of an instruction. -/
theorem patchWords_ends (aligned : address % 4 = 0)
    (writable : ∀ a, address ≤ a → a < address + 4 * count →
      (s.host.access Page.writable a).isSome = true) (few : s.patches.length ≤ maxPatches) :
    ∃ error t, patchWords count address s = some (error, t) ∧ t.patches.length ≤ maxPatches ∧
      (error = none ∨ error = some .e2big ∧ t.patches.length = maxPatches ∧
        ∃ a w, address ≤ a ∧ a < address + 4 * count ∧ a % 4 = 0 ∧
          t.host.loadWord a = some w ∧ patchable w = true) := by
  induction count generalizing address s with
  | zero => exact ⟨none, s, rfl, few, .inl rfl⟩
  | succ count ih =>
    -- what comes after the first word
    have rest {u : Image} (pages : ∀ a, u.host.access Page.writable a =
        s.host.access Page.writable a) (few : u.patches.length ≤ maxPatches) :
        ∃ error t, patchWords count (address + 4) u = some (error, t) ∧
          t.patches.length ≤ maxPatches ∧
          (error = none ∨ error = some .e2big ∧ t.patches.length = maxPatches ∧
            ∃ a w, address ≤ a ∧ a < address + 4 * (count + 1) ∧ a % 4 = 0 ∧
              t.host.loadWord a = some w ∧ patchable w = true) := by
      obtain ⟨error, t, done, length, result⟩ := ih (show (address + 4) % 4 = 0 by omega)
        (fun a low high => pages a ▸ writable a (by omega) (by omega)) few
      refine ⟨error, t, done, length, result.imp_right ?_⟩
      rintro ⟨full, size, a, w, low, high, found⟩
      exact ⟨full, size, a, w, by omega, by omega, found⟩
    obtain ⟨place, found⟩ :=
      Option.isSome_iff_exists.mp (writable address (Nat.le_refl _) (by omega))
    have loaded : s.host.loadWord address = some (wordAt s.host.bytes place) := by
      rw [Host.loadWord, Host.wordVia, access_weaken (fun _ => Page.readable_of_writable) found,
        Option.map_some]
    unfold patchWords
    rw [loaded]
    dsimp only
    split
    · exact rest (fun _ => rfl) few
    · rename_i code
      replace code : patchable (wordAt s.host.bytes place) = true := by simpa using code
      split
      · rename_i full
        exact ⟨_, s, rfl, few, .inr ⟨rfl, full, address, _, Nat.le_refl _, by omega, aligned, loaded,
          code⟩⟩
      · rename_i room
        have stored : s.host.storeWord address armUdfTrap =
            some { s.host with bytes := setWord s.host.bytes place armUdfTrap } := by
          rw [Host.storeWord, found, Option.map_some]
        rw [Image.trap, stored, Option.map_some]
        apply rest
        · exact fun a => access_congr rfl rfl _ _
        · rw [List.length_append, List.length_singleton]
          omega

theorem armPatchRange_ends (aligned : start % 4 = 0) (whole : length % 4 = 0)
    (fits : start + length ≤ uintptrMax) (writable : ∀ a, start ≤ a → a < start + length →
      (s.host.access Page.writable a).isSome = true) (few : s.patches.length ≤ maxPatches) :
    ∃ error t, armPatchRange start length s = some (error, t) ∧ t.patches.length ≤ maxPatches ∧
      (error = none ∨ error = some .e2big ∧ t.patches.length = maxPatches ∧
        ∃ a w, start ≤ a ∧ a < start + length ∧ a % 4 = 0 ∧
          t.host.loadWord a = some w ∧ patchable w = true) := by
  have size : 4 * (length / 4) = length := by omega
  rw [armPatchRange, if_neg (by omega)]
  have words : ∀ a, start ≤ a → a < start + 4 * (length / 4) →
      (s.host.access Page.writable a).isSome = true := by rwa [size]
  have ends := patchWords_ends aligned words few
  rwa [size] at ends

theorem codeCount_le (h : Host) (count address : Nat) : h.codeCount count address ≤ count := by
  have length : (h.codePlaces count address).length ≤ count := by
    induction count generalizing address with
    | zero => exact Nat.le_refl 0
    | succ count ih =>
      have here : (h.codeAt address).length ≤ 1 :=
        (List.length_filter_le ..).trans (by cases h.access (fun _ => true) address <;> simp)
      have rest := ih (address + 4)
      rw [Host.codePlaces, List.length_append]
      omega
  exact (List.toFinset_card_le _).trans length

/-- With room for a record at every word, all of the range is patched. -/
theorem armPatchRange_room (aligned : start % 4 = 0) (whole : length % 4 = 0)
    (fits : start + length ≤ uintptrMax) (writable : ∀ a, start ≤ a → a < start + length →
      (s.host.access Page.writable a).isSome = true)
    (room : s.patches.length + length / 4 ≤ maxPatches) :
    ∃ t, armPatchRange start length s = some (none, t) := by
  obtain ⟨error, t, scan, -⟩ := armPatchRange_ends aligned whole fits writable (by omega)
  have few := codeCount_le s.host (length / 4) start
  obtain ⟨-, -, many⟩ | ⟨rfl, -⟩ := armPatchRange_count aligned whole fits scan
  · omega
  · exact ⟨t, scan⟩

/-! ## A scan is undone -/

/-- However far a scan came, going back to the records there were before gives every byte of
memory and the table back; a scan of writable memory comes to its end or to a full table. -/
theorem patching_undone {start length : Nat} {s : Image} (address : start ≤ uintptrMax)
    (aligned : start % 4 = 0) (whole : length % 4 = 0) (few : s.patches.length ≤ maxPatches) :
    (∀ error t, armPatchRange start length s = some (error, t) →
      ∃ u, armPatchRollback s.patches.length t = some u ∧ u.host = s.host ∧
        u.patches = s.patches) ∧
    ((∀ a, start ≤ a → a < start + length → (s.host.access Page.writable a).isSome = true) →
      ∃ error t, armPatchRange start length s = some (error, t) ∧
        (error = none ∨ error = some .e2big ∨
          error = some .enoexec ∧ uintptrMax < start + length)) := by
  constructor
  · intro error t scan
    exact (armPatchRange_patched scan).rollback
  · intro writable
    by_cases fits : start + length ≤ uintptrMax
    · obtain ⟨error, t, scan, -, result⟩ := armPatchRange_ends aligned whole fits writable few
      exact ⟨error, t, scan, result.imp_right fun full => .inl full.1⟩
    · refine ⟨some .enoexec, s, ?_, .inr (.inr ⟨rfl, by omega⟩)⟩
      rw [armPatchRange, if_pos (by omega)]

/-- A page that starts with a system call, a trap of the program's own and a read of the
thread pointer, with room for one more record in the table. -/
def lastRecord : Image where
  host :=
    { pageSize := .smallest
      pages := fun number => if number = 1 then some ⟨⟨true, true, false⟩, none, false⟩ else none
      bytes := fun p =>
        [0, 0, 0, 0xef, 0xf0, 0, 0xf0, 0xe7, 0x70, 0x0f, 0x1d, 0xee].getD (p.index - 4096) 0
      size := fun _ => 0
      inode := fun _ => none }
  patches := List.replicate 4095 ⟨0, 0⟩
  trapped := fun _ => none

theorem patching_undone_full :
    ∃ t u, armPatchRange 4096 12 lastRecord = some (some .e2big, t) ∧
      t.host.loadWord 4096 = some armUdfTrap ∧ t.patches.length = maxPatches ∧
      armPatchRollback 4095 t = some u ∧ u.host = lastRecord.host ∧
      u.patches = lastRecord.patches := by
  have records : lastRecord.patches.length = 4095 := List.length_replicate
  obtain ⟨undone, -⟩ := patching_undone (show 4096 ≤ uintptrMax by decide)
    (show 4096 % 4 = 0 by decide) (show 12 % 4 = 0 by decide)
    (show lastRecord.patches.length ≤ maxPatches by rw [records]; decide)
  have seen : (armPatchRange 4096 12 lastRecord).map
      (fun r => (r.1, r.2.host.loadWord 4096, r.2.patches.length)) =
        some (some .e2big, some armUdfTrap, maxPatches) := by decide +kernel
  obtain ⟨⟨error, t⟩, scan, facts⟩ := Option.map_eq_some_iff.mp seen
  simp only [Prod.mk.injEq] at facts
  obtain ⟨rfl, word, full⟩ := facts
  obtain ⟨u, rolled, memory, table⟩ := undone _ t scan
  exact ⟨t, u, scan, word, full, records ▸ rolled, memory, table⟩

end Linuxemu.Guest
