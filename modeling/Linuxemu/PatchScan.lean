import Linuxemu.HostSpans
import Linuxemu.Patch

/-! What a patching scan does: it puts traps over some instructions inside its
range, records each, and leaves everything else. -/
namespace Linuxemu.Guest
open Lib Registry
variable {within : Nat → Prop} {s t : Image} {address mappingStart mappingEnd a length : Nat}
  {sections : List Section} {error : Option Errno} {x : Section}
variable {count start here : Nat}

/-- From one image to another by trapping instructions at addresses `within`. -/
inductive Patched (within : Nat → Prop) : Image → Image → Prop
  | refl (s : Image) : Patched within s s
  | trap {s t u : Image} {address : Nat} {word : UInt32} (inside : within address)
      (aligned : address % 4 = 0) (loaded : s.host.loadWord address = some word)
      (code : patchable word = true) (trapped : s.trap address word = some t)
      (rest : Patched within t u) : Patched within s u

theorem Patched.trans {u : Image} (first : Patched within s t) (second : Patched within t u) :
    Patched within s u := by
  induction first with
  | refl => exact second
  | trap inside aligned loaded code trapped _ ih =>
    exact .trap inside aligned loaded code trapped (ih second)

theorem Patched.mono {wider : Nat → Prop} (le : ∀ a, within a → wider a) (h : Patched within s t) :
    Patched wider s t := by
  induction h with
  | refl s => exact .refl s
  | trap inside aligned loaded code trapped _ ih =>
    exact .trap (le _ inside) aligned loaded code trapped ih

theorem trap_some {word : UInt32} (trapped : s.trap address word = some t) :
    ∃ host, s.host.storeWord address armUdfTrap = some host ∧
      t = ⟨host, s.patches ++ [⟨address, word⟩],
        fun a => if a = address then some word else s.trapped a⟩ := by
  rw [Image.trap, Option.map_eq_some_iff] at trapped
  obtain ⟨host, stored, rfl⟩ := trapped
  exact ⟨host, stored, rfl⟩

theorem patchable_udf : patchable armUdfTrap = false := by decide

/-- The trap differs from what it replaces in its first byte already. -/
theorem patchable_low {word : UInt32} (code : patchable word = true) :
    word.toNat % 256 ≠ 0xf0 := by
  rw [patchable, Bool.or_eq_true, decide_eq_true_iff, decide_eq_true_iff] at code
  obtain rfl | read := code
  · decide
  · have bits := congrArg (fun w : UInt32 => w.toNat % 2 ^ 8) read
    simp only [UInt32.toNat_and, Nat.and_mod_two_pow] at bits
    have low : word.toNat % 2 ^ 8 = 0x70 := by
      rw [← Nat.and_two_pow_sub_one_eq_mod, ← Nat.and_two_pow_sub_one_eq_mod] at *
      simpa [armTpidruroMask, armTpidruroRead, Nat.and_assoc] using bits
    omega

/-! ## The scans are such changes -/

theorem patchWords_patched (aligned : address % 4 = 0)
    (done : patchWords count address s = some (error, t)) :
    Patched (fun a => address ≤ a ∧ a < address + 4 * count) s t := by
  induction count generalizing address s with
  | zero =>
    cases done
    exact .refl _
  | succ count ih =>
    have later {s : Image} (next : patchWords count (address + 4) s = some (error, t)) :
        Patched (fun a => address ≤ a ∧ a < address + 4 * (count + 1)) s t :=
      (ih (by omega) next).mono fun a h => by omega
    rw [patchWords] at done
    split at done
    · cases done
    · rename_i word loaded
      split at done
      · exact later done
      · rename_i code
        split at done
        · cases done
          exact .refl _
        · split at done
          · cases done
          · rename_i trapped
            exact .trap (by omega) aligned loaded (by simpa using code) trapped (later done)

theorem armPatchRange_patched (done : armPatchRange start length s = some (error, t)) :
    Patched (fun a => start ≤ a ∧ a < start + length) s t := by
  rw [armPatchRange] at done
  split at done
  · cases done
    exact .refl _
  · exact (patchWords_patched (by omega) done).mono fun a h => by omega

/-- The addresses that the scan of these sections covers. -/
def Scanned (sections : List Section) (address mappingStart mappingEnd a : Nat) : Prop :=
  ∃ x ∈ sections, ∃ patchStart patchEnd,
    x.patchRange address mappingStart mappingEnd = some (patchStart, patchEnd) ∧
    (address + (patchStart - mappingStart)) % 2 ^ 32 ≤ a ∧
    a < (address + (patchStart - mappingStart)) % 2 ^ 32 + (patchEnd - patchStart)

theorem patchSections_patched
    (done : patchSections address mappingStart mappingEnd sections s = some (error, t)) :
    Patched (Scanned sections address mappingStart mappingEnd) s t := by
  induction sections generalizing s with
  | nil =>
    cases done
    exact .refl _
  | cons x rest ih =>
    have later {s : Image}
        (next : patchSections address mappingStart mappingEnd rest s = some (error, t)) :
        Patched (Scanned (x :: rest) address mappingStart mappingEnd) s t :=
      (ih next).mono fun a ⟨y, member, h⟩ => ⟨y, List.mem_cons_of_mem x member, h⟩
    rw [patchSections] at done
    split at done
    · exact later done
    · rename_i patchStart patchEnd range
      have first {e : Option Errno} {u : Image}
          (patched : armPatchRange ((address + (patchStart - mappingStart)) % 2 ^ 32)
            (patchEnd - patchStart) s = some (e, u)) :
          Patched (Scanned (x :: rest) address mappingStart mappingEnd) s u :=
        (armPatchRange_patched patched).mono fun a h =>
          ⟨x, List.mem_cons_self, patchStart, patchEnd, range, h⟩
      split at done
      · rename_i patched
        exact (first patched).trans (later done)
      · exact first done

/-! ## Where the scan of a file goes -/

theorem alignedStart_spec (address mappingStart patchStart patchEnd : Nat) :
    let first := alignedStart address mappingStart patchStart patchEnd
    patchStart ≤ first ∧ first ≤ max patchStart patchEnd ∧
    (first < patchEnd → (address + (first - mappingStart)) % 4 = 0) ∧
    ∀ x, patchStart ≤ x → x < first → (address + (x - mappingStart)) % 4 ≠ 0 := by
  induction patchStart using alignedStart.induct address mappingStart patchEnd with
  | case1 patchStart step ih =>
    rw [alignedStart, if_pos step]
    obtain ⟨lower, upper, aligned, skipped⟩ := ih
    refine ⟨by omega, by omega, aligned, ?_⟩
    intro x le lt
    by_cases here : x = patchStart
    · rw [here]
      exact step.2
    · exact skipped x (by omega) lt
  | case2 patchStart stop =>
    rw [alignedStart, if_neg stop]
    exact ⟨Nat.le_refl _, Nat.le_max_left _ _, fun lt => by by_contra off; exact stop ⟨lt, off⟩,
      fun x le lt => absurd lt (by omega)⟩

/-- A patched range lies in the section and in the mapping, starts on a word of the
mapping and is made of whole words. -/
theorem patchRange_spec {lo hi : Nat}
    (range : x.patchRange address mappingStart mappingEnd = some (lo, hi)) :
    x.holdsCode = true ∧ x.shOffset ≤ lo ∧ mappingStart ≤ lo ∧ lo < hi ∧
    hi ≤ x.shOffset + x.shSize ∧ hi ≤ mappingEnd ∧
    (address + (lo - mappingStart)) % 4 = 0 ∧ (hi - lo) % 4 = 0 := by
  simp only [Section.patchRange] at range
  split at range
  · cases range
  · rename_i kept
    have low : max x.shOffset mappingStart ≥ x.shOffset ∧
      max x.shOffset mappingStart ≥ mappingStart := ⟨Nat.le_max_left _ _, Nat.le_max_right _ _⟩
    have high : min (x.shOffset + x.shSize) mappingEnd ≤ x.shOffset + x.shSize ∧
      min (x.shOffset + x.shSize) mappingEnd ≤ mappingEnd :=
      ⟨Nat.min_le_left _ _, Nat.min_le_right _ _⟩
    generalize max x.shOffset mappingStart = start at range low
    generalize min (x.shOffset + x.shSize) mappingEnd = stop at range high
    obtain ⟨lower, -, aligned, -⟩ := alignedStart_spec address mappingStart start stop
    split at range
    · rename_i lt
      cases range
      simp only [not_or, Bool.not_eq_true, Bool.not_eq_false'] at kept
      refine ⟨kept.1, by omega, by omega, lt, by omega, by omega, aligned (by omega), by omega⟩
    · cases range

/-- Every word of the mapping inside a section of code is in the section's patched range. -/
theorem patchRange_complete {word : Nat} (code : x.holdsCode = true) (low : x.shOffset ≤ word)
    (openings : mappingStart ≤ word) (high : word + 4 ≤ x.shOffset + x.shSize)
    (ends : word + 4 ≤ mappingEnd) (aligned : (address + (word - mappingStart)) % 4 = 0) :
    ∃ lo hi, x.patchRange address mappingStart mappingEnd = some (lo, hi) ∧
      lo ≤ word ∧ word + 4 ≤ hi := by
  have kept : ¬ (!x.holdsCode ∨ x.shSize = 0 ∨ mappingEnd ≤ x.shOffset ∨
      x.shOffset + x.shSize ≤ mappingStart) := by
    simp only [code, Bool.not_true, Bool.false_eq_true, false_or]
    omega
  simp only [Section.patchRange]
  rw [if_neg kept]
  have below : max x.shOffset mappingStart ≤ word ∧ mappingStart ≤ max x.shOffset mappingStart :=
    ⟨Nat.max_le.mpr ⟨low, openings⟩, Nat.le_max_right _ _⟩
  have above : word + 4 ≤ min (x.shOffset + x.shSize) mappingEnd := Nat.le_min.mpr ⟨high, ends⟩
  generalize max x.shOffset mappingStart = start at below
  generalize min (x.shOffset + x.shSize) mappingEnd = stop at above
  obtain ⟨lower, -, first, skipped⟩ := alignedStart_spec address mappingStart start stop
  generalize alignedStart address mappingStart start stop = opening at lower first skipped
  have before : opening ≤ word := by
    by_contra late
    exact skipped word below.1 (by omega) aligned
  have step := first (by omega)
  rw [if_pos (by omega)]
  exact ⟨_, _, rfl, before, by omega⟩

/-- In a mapping that does not wrap, scanned addresses are mapped ones. -/
theorem Scanned.inside (h : Scanned sections address mappingStart mappingEnd a)
    (fits : address + (mappingEnd - mappingStart) ≤ 2 ^ 32) :
    address ≤ a ∧ a < address + (mappingEnd - mappingStart) := by
  obtain ⟨x, -, lo, hi, range, low, high⟩ := h
  obtain ⟨-, -, start, order, -, stop, -, -⟩ := patchRange_spec range
  rw [Nat.mod_eq_of_lt (by omega)] at low high
  omega

/-- A scanned word of the mapping lies in a section of code. -/
theorem Scanned.word (h : Scanned sections address mappingStart mappingEnd a)
    (fits : address + (mappingEnd - mappingStart) ≤ 2 ^ 32) (aligned : a % 4 = 0) :
    address ≤ a ∧ a + 4 ≤ address + (mappingEnd - mappingStart) ∧
    ∃ x ∈ sections, x.holdsCode = true ∧ x.shOffset ≤ mappingStart + (a - address) ∧
      mappingStart + (a - address) + 4 ≤ x.shOffset + x.shSize := by
  obtain ⟨x, member, lo, hi, range, low, high⟩ := h
  obtain ⟨code, first, start, order, last, stop, even, whole⟩ := patchRange_spec range
  rw [Nat.mod_eq_of_lt (by omega)] at low high
  exact ⟨by omega, by omega, x, member, code, by omega, by omega⟩

/-- And every such word is scanned. -/
theorem scanned_of_word (member : x ∈ sections) (code : x.holdsCode = true) (above : address ≤ a)
    (below : a + 4 ≤ address + (mappingEnd - mappingStart))
    (fits : address + (mappingEnd - mappingStart) ≤ 2 ^ 32)
    (low : x.shOffset ≤ mappingStart + (a - address))
    (high : mappingStart + (a - address) + 4 ≤ x.shOffset + x.shSize) (aligned : a % 4 = 0) :
    Scanned sections address mappingStart mappingEnd a := by
  have even : (address + (mappingStart + (a - address) - mappingStart)) % 4 = 0 := by
    rw [show address + (mappingStart + (a - address) - mappingStart) = a by omega]
    exact aligned
  have ends : mappingStart + (a - address) + 4 ≤ mappingEnd := by omega
  obtain ⟨lo, hi, range, before, after⟩ :=
    patchRange_complete code low (Nat.le_add_right _ _) high ends even
  obtain ⟨-, -, start, order, -, stop, -, -⟩ := patchRange_spec range
  refine ⟨x, member, lo, hi, range, ?_⟩
  rw [Nat.mod_eq_of_lt (by omega)]
  omega

theorem armPatchElfMapping_patched {descriptor offset : Int} {e : ElfReads}
    (fits : address + length ≤ 2 ^ 32)
    (done : armPatchElfMapping descriptor offset address length e s = some (error, t)) :
    Patched (fun a => address ≤ a ∧ a < address + length) s t := by
  rw [armPatchElfMapping] at done
  split at done
  · cases done
  · cases done
    exact .refl _
  · cases done
    exact .refl _
  · apply (patchSections_patched done).mono
    intro a scanned
    have := scanned.inside (by omega)
    omega

/-! ## What stays -/

section
variable (h : Patched within s t)
include h

/-- Patching writes bytes, records and history, nothing else. -/
theorem Patched.frame : ∃ bytes, t.host = { s.host with bytes } := by
  induction h with
  | refl s => exact ⟨s.host.bytes, rfl⟩
  | trap _ _ _ _ trapped _ ih =>
    obtain ⟨bytes, same⟩ := ih
    obtain ⟨host, stored, rfl⟩ := trap_some trapped
    obtain ⟨place, -, rfl⟩ := storeWord_some stored
    exact ⟨bytes, same⟩

/-- Records are appended, each for an address of the range. -/
theorem Patched.patches : ∃ new, t.patches = s.patches ++ new ∧ ∀ r ∈ new, within r.address := by
  induction h with
  | refl s => exact ⟨[], by simp, by simp⟩
  | @trap s _ _ address word inside _ _ _ trapped _ ih =>
    obtain ⟨new, same, all⟩ := ih
    obtain ⟨host, -, rfl⟩ := trap_some trapped
    refine ⟨⟨address, word⟩ :: new, by rw [same]; simp, ?_⟩
    intro r member
    cases member with
    | head => exact inside
    | tail _ later => exact all r later

/-- An aligned word keeps its value or becomes the trap. -/
theorem Patched.wordVia (allowed : Page → Bool) (aligned : address % 4 = 0) :
    t.host.wordVia allowed address = s.host.wordVia allowed address ∨
      t.host.wordVia allowed address = some armUdfTrap := by
  induction h with
  | refl s => exact Or.inl rfl
  | trap _ here _ _ trapped _ ih =>
    obtain ⟨host, stored, rfl⟩ := trap_some trapped
    obtain same | changed := ih
    · obtain kept | stop := wordVia_storeWord stored here aligned
      · exact Or.inl (same.trans kept)
      · exact Or.inr (same.trans stop)
    · exact Or.inr changed

/-- A byte keeps its value unless it lies in a word that was there to be patched. -/
theorem Patched.byte (p : Place (Option Nat)) :
    t.host.bytes p = s.host.bytes p ∨ ∃ a word place, within a ∧ a % 4 = 0 ∧
      s.host.loadWord a = some word ∧ patchable word = true ∧
      s.host.access Page.writable a = some place ∧ place.covers p = true := by
  induction h with
  | refl s => exact Or.inl rfl
  | @trap s _ _ address word inside aligned loaded code trapped _ ih =>
    obtain ⟨host, stored, rfl⟩ := trap_some trapped
    obtain ⟨place, found, rfl⟩ := storeWord_some stored
    obtain same | ⟨a, other, there, within, even, seen, codeThere, foundThere, covers⟩ := ih
    · cases covered : place.covers p with
      | true => exact Or.inr ⟨address, word, place, inside, aligned, loaded, code, found, covered⟩
      | false => exact Or.inl (same.trans (setWord_outside _ _ covered))
    · right
      rw [Host.loadWord] at seen
      obtain kept | stop := wordVia_storeWord stored aligned even
      · exact ⟨a, other, there, within, even, kept.symm.trans seen, codeThere,
          (access_congr rfl rfl _ _).symm.trans foundThere, covers⟩
      · obtain rfl : armUdfTrap = other := Option.some.inj (stop.symm.trans seen)
        rw [patchable_udf] at codeThere
        cases codeThere

end

/-! ## Where places are shown once -/

/-- No place of memory is shown at two addresses of the window. -/
def Host.ShownOnce (h : Host) (window : Nat → Prop) : Prop :=
  ∀ a b place, window a → window b → h.access (fun _ => true) a = some place →
    h.access (fun _ => true) b = some place → a = b

section Once
variable {window : Nat → Prop} {s t : Image}

/-- There a trap changes no other word. -/
theorem Host.ShownOnce.trap_other (once : s.host.ShownOnce window) {other : Nat} {word : UInt32}
    (trapped : s.trap here word = some t) (aligned : here % 4 = 0) (inside : window here)
    (even : other % 4 = 0) (insideOther : window other) (ne : other ≠ here) :
    t.host.loadWord other = s.host.loadWord other := by
  obtain ⟨host, stored, rfl⟩ := trap_some trapped
  obtain ⟨place, found, rfl⟩ := storeWord_some stored
  have same : ({ s.host with bytes := setWord s.host.bytes place armUdfTrap } : Host).access
      Page.readable other = s.host.access Page.readable other := access_congr rfl rfl _ _
  rw [Host.loadWord, Host.loadWord, Host.wordVia, Host.wordVia, same]
  cases seen : s.host.access Page.readable other with
  | none => rfl
  | some q =>
    have apart : q ≠ place := by
      intro equal
      exact ne (once other here place insideOther inside
        (equal ▸ access_weaken (fun _ _ => rfl) seen) (access_weaken (fun _ _ => rfl) found))
    rw [Option.map_some, Option.map_some,
      wordAt_setWord_ne _ _ (access_aligned found aligned) (access_aligned seen even) apart]

theorem Host.ShownOnce.trap (once : s.host.ShownOnce window) {word : UInt32}
    (trapped : s.trap here word = some t) : t.host.ShownOnce window := by
  obtain ⟨host, stored, rfl⟩ := trap_some trapped
  obtain ⟨place, -, rfl⟩ := storeWord_some stored
  intro a b q insideA insideB foundA foundB
  rw [access_congr rfl rfl] at foundA foundB
  exact once a b q insideA insideB foundA foundB

/-- The new records of a scan: one for each word that has changed, with its old value. -/
theorem Patched.new (h : Patched within s t) (inside : ∀ a, within a → window a)
    (once : s.host.ShownOnce window) :
    ∃ new, t.patches = s.patches ++ new ∧ (new.map PatchRecord.address).Nodup ∧
      (∀ r ∈ new, within r.address ∧ r.address % 4 = 0 ∧
        s.host.loadWord r.address = some r.original ∧ patchable r.original = true ∧
        t.host.loadWord r.address = some armUdfTrap ∧
        t.trapped r.address = some r.original) ∧
      ∀ a, a ∉ new.map PatchRecord.address → t.trapped a = s.trapped a ∧
        (window a → a % 4 = 0 → t.host.loadWord a = s.host.loadWord a) := by
  induction h with
  | refl s => exact ⟨[], by simp, by simp, by simp, fun _ _ => ⟨rfl, fun _ _ => rfl⟩⟩
  | @trap s u t here word there aligned loaded code trapped _ ih =>
    have known := inside here there
    obtain ⟨new, patches, nodup, each, rest⟩ := ih (once.trap trapped)
    have stop : u.host.loadWord here = some armUdfTrap := by
      obtain ⟨host, stored, rfl⟩ := trap_some trapped
      exact wordVia_stored (fun _ => Page.readable_of_writable) stored
    -- the trap is not an instruction to patch, so its address is not recorded again
    have absent : here ∉ new.map PatchRecord.address := by
      intro member
      obtain ⟨r, recorded, same⟩ := List.mem_map.mp member
      obtain ⟨-, -, old, codeThere, -⟩ := each r recorded
      rw [same, stop, Option.some.injEq] at old
      rw [← old, patchable_udf] at codeThere
      cases codeThere
    refine ⟨⟨here, word⟩ :: new, ?_, ?_, ?_, ?_⟩
    · obtain ⟨host, -, rfl⟩ := trap_some trapped
      rw [patches]
      simp
    · exact List.nodup_cons.mpr ⟨absent, nodup⟩
    · intro r member
      cases member with
      | head =>
        obtain ⟨history, word⟩ := rest here absent
        refine ⟨there, aligned, loaded, code, (word known aligned).trans stop, history.trans ?_⟩
        obtain ⟨host, -, rfl⟩ := trap_some trapped
        exact if_pos rfl
      | tail _ later =>
        obtain ⟨covered, even, old, codeThere, trap⟩ := each r later
        have ne : r.address ≠ here := fun same => absent (same ▸ List.mem_map_of_mem later)
        have kept := once.trap_other trapped aligned known even (inside r.address covered) ne
        exact ⟨covered, even, kept.symm.trans old, codeThere, trap⟩
    · intro a unrecorded
      rw [List.map_cons, List.mem_cons, not_or] at unrecorded
      obtain ⟨history, word⟩ := rest a unrecorded.2
      refine ⟨history.trans ?_, fun insideA even => (word insideA even).trans
        (once.trap_other trapped aligned known even insideA unrecorded.1)⟩
      obtain ⟨host, -, rfl⟩ := trap_some trapped
      exact if_neg unrecorded.1

end Once

/-! ## Nothing to patch is left -/

/-- A word that is not to be patched stays one. -/
theorem Patched.plain (h : Patched within s t) {word : UInt32} (aligned : a % 4 = 0)
    (loaded : s.host.loadWord a = some word) (plain : patchable word = false) :
    ∃ left, t.host.loadWord a = some left ∧ patchable left = false := by
  obtain same | stop := h.wordVia Page.readable aligned
  · exact ⟨word, same.trans loaded, plain⟩
  · exact ⟨armUdfTrap, stop, patchable_udf⟩

theorem patchWords_complete (aligned : address % 4 = 0)
    (done : patchWords count address s = some (none, t)) {k : Nat} (inside : k < count) :
    ∃ left, t.host.loadWord (address + 4 * k) = some left ∧ patchable left = false := by
  induction count generalizing address s k with
  | zero => cases inside
  | succ count ih =>
    rw [patchWords] at done
    split at done
    · cases done
    · rename_i word loaded
      have later {s : Image} (next : patchWords count (address + 4) s = some (none, t))
          (first : ∃ w, s.host.loadWord address = some w ∧ patchable w = false) :
          ∃ left, t.host.loadWord (address + 4 * k) = some left ∧ patchable left = false := by
        cases k with
        | zero =>
          obtain ⟨w, seen, plain⟩ := first
          exact (patchWords_patched (by omega) next).plain aligned seen plain
        | succ k =>
          have rest := ih (by omega) next (Nat.lt_of_succ_lt_succ inside)
          rwa [show address + 4 + 4 * k = address + 4 * (k + 1) by omega] at rest
      split at done
      · rename_i plain
        exact later done ⟨word, loaded, by simpa using plain⟩
      · split at done
        · cases done
        · split at done
          · cases done
          · rename_i trapped
            obtain ⟨host, stored, rfl⟩ := trap_some trapped
            exact later done ⟨armUdfTrap,
              wordVia_stored (fun _ => Page.readable_of_writable) stored, patchable_udf⟩

theorem armPatchRange_complete (done : armPatchRange start length s = some (none, t))
    (low : start ≤ a) (high : a < start + length) (aligned : a % 4 = 0) :
    ∃ left, t.host.loadWord a = some left ∧ patchable left = false := by
  rw [armPatchRange] at done
  split at done
  · cases done
  · have found := patchWords_complete (by omega) done (k := (a - start) / 4) (by omega)
    rwa [show start + 4 * ((a - start) / 4) = a by omega] at found

theorem patchSections_complete
    (done : patchSections address mappingStart mappingEnd sections s = some (none, t))
    (scanned : Scanned sections address mappingStart mappingEnd a) (aligned : a % 4 = 0) :
    ∃ left, t.host.loadWord a = some left ∧ patchable left = false := by
  induction sections generalizing s with
  | nil =>
    obtain ⟨_, member, -⟩ := scanned
    cases member
  | cons x rest ih =>
    obtain ⟨y, member, lo, hi, range, low, high⟩ := scanned
    rw [patchSections] at done
    cases member with
    | head =>
      rw [range] at done
      dsimp only at done
      split at done
      · rename_i patched
        obtain ⟨w, seen, plain⟩ := armPatchRange_complete patched low high aligned
        exact (patchSections_patched done).plain aligned seen plain
      · exact armPatchRange_complete done low high aligned
    | tail _ later =>
      have there : Scanned rest address mappingStart mappingEnd a :=
        ⟨y, later, lo, hi, range, low, high⟩
      split at done
      · exact ih done there
      · split at done
        · exact ih done there
        · rename_i stopped
          exact absurd done (stopped t)

/-! ## Rolling back -/

/-- Putting instructions back writes bytes and takes the traps away, nothing else. -/
theorem restore_spec {records : List PatchRecord} (done : s.restore records = some t) :
    (∃ bytes, t.host = { s.host with bytes }) ∧ t.patches = s.patches ∧
    ∀ a, t.trapped a = if a ∈ records.map PatchRecord.address then none else s.trapped a := by
  induction records generalizing s with
  | nil =>
    cases done
    exact ⟨⟨_, rfl⟩, rfl, fun a => by simp⟩
  | cons r rest ih =>
    rw [Image.restore] at done
    split at done
    · cases done
    · rename_i host stored
      obtain ⟨place, -, rfl⟩ := storeWord_some stored
      obtain ⟨⟨bytes, frame⟩, patches, trapped⟩ := ih done
      refine ⟨⟨bytes, frame⟩, patches, ?_⟩
      intro a
      rw [trapped a]
      by_cases here : a = r.address
      · simp [here]
      · simp [here]

/-- Rolling back keeps the oldest records and the traps of no others. -/
theorem armPatchRollback_spec {retained : Nat} (done : armPatchRollback retained s = some t) :
    (∃ bytes, t.host = { s.host with bytes }) ∧ t.patches = s.patches.take retained ∧
    ∀ a, t.trapped a =
      if a ∈ (s.patches.drop retained).map PatchRecord.address then none else s.trapped a := by
  obtain ⟨frame, patches, trapped⟩ := restore_spec done
  refine ⟨frame, patches, ?_⟩
  intro a
  rw [trapped a, List.map_reverse]
  simp only [List.mem_reverse]

theorem restore_append (first second : List PatchRecord) (s : Image) :
    s.restore (first ++ second) = (s.restore first).bind (Image.restore second) := by
  induction first generalizing s with
  | nil => rfl
  | cons r rest ih =>
    rw [List.cons_append, Image.restore, Image.restore]
    split
    · rfl
    · exact ih _

/-- Storing back the instruction that a trap replaced leaves memory as it was. -/
theorem storeWord_back {h trapped : Host} {word : UInt32} (loaded : h.loadWord address = some word)
    (stored : h.storeWord address armUdfTrap = some trapped) :
    trapped.storeWord address word = some h := by
  obtain ⟨place, found, rfl⟩ := storeWord_some stored
  have here : h.access Page.readable address = some place :=
    access_weaken (fun _ => Page.readable_of_writable) found
  rw [Host.loadWord, Host.wordVia, here, Option.map_some, Option.some.injEq] at loaded
  have still : ({ h with bytes := setWord h.bytes place armUdfTrap } : Host).access Page.writable
      address = some place := (access_congr rfl rfl _ _).trans found
  rw [Host.storeWord, still, Option.map_some, ← loaded]
  exact congrArg (fun bytes => some { h with bytes }) (setWord_back _ _ _)

/-- Restoring what a scan has recorded, before anything else has changed, gives memory back. -/
theorem Patched.restore (h : Patched within s t) :
    ∃ new, t.patches = s.patches ++ new ∧ ∀ patches, ∃ u,
      Image.restore new.reverse { t with patches } = some u ∧ u.host = s.host ∧
        u.patches = patches := by
  induction h with
  | refl s => exact ⟨[], by simp, fun patches => ⟨_, rfl, rfl, rfl⟩⟩
  | @trap s _ _ address word _ _ loaded _ trapped _ ih =>
    obtain ⟨host, stored, rfl⟩ := trap_some trapped
    obtain ⟨new, appended, undo⟩ := ih
    refine ⟨⟨address, word⟩ :: new, by rw [appended]; simp, ?_⟩
    intro patches
    obtain ⟨u, undone, memory, table⟩ := undo patches
    have last : u.host.storeWord address word = some s.host := by
      rw [memory]
      exact storeWord_back loaded stored
    rw [List.reverse_cons, restore_append, undone, Option.bind_some, Image.restore, last]
    exact ⟨_, rfl, rfl, table⟩

theorem Patched.rollback (h : Patched within s t) :
    ∃ u, armPatchRollback s.patches.length t = some u ∧ u.host = s.host ∧
      u.patches = s.patches := by
  obtain ⟨new, appended, undo⟩ := h.restore
  obtain ⟨u, undone, memory, table⟩ := undo s.patches
  refine ⟨u, ?_, memory, table⟩
  rw [armPatchRollback, appended, List.drop_left, List.take_left]
  exact undone

end Linuxemu.Guest
