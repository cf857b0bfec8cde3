import Linuxemu.Host
import Linuxemu.Registry

/-! Page arithmetic, and what loads and stores of aligned words do to each other. -/
namespace Linuxemu.Guest
open Lib Registry
variable {address length value : Nat} {h h' : Host} {allowed : Page → Bool} {word : UInt32}
variable {place : Place (Option Nat)} {protection : Protection} {flags : MapFlags}
  {descriptor offset : Int} {result start other : Nat} {after : Host}

theorem PageSize.bytes_pos (p : PageSize) : 0 < p.bytes := Nat.two_pow_pos _

theorem PageSize.four_dvd (p : PageSize) : 4 ∣ p.bytes := by
  have := p.least
  exact Nat.pow_dvd_pow 2 (show 2 ≤ p.shift by omega)

theorem PageSize.bytes_le (p : PageSize) : 4096 ≤ p.bytes ∧ p.bytes ≤ 2 ^ 31 := by
  have below := p.most
  have low : 2 ^ 12 ≤ 2 ^ p.shift := Nat.pow_le_pow_right (by omega) p.least
  have high : 2 ^ p.shift ≤ 2 ^ 31 := Nat.pow_le_pow_right (by omega) (by omega)
  exact ⟨low, high⟩

/-! ## Rounding -/

section Rounding
variable (h : Host)

/-- Rounding up gives whole pages, unless it wraps. -/
theorem alignUp_eq (fits : value ≤ uintptrMax - (h.pageSize.bytes - 1)) :
    alignUp value h.pageSize.bytes = h.pageCount value * h.pageSize.bytes := by
  have positive := h.pageSize.bytes_pos
  have small := h.pageSize.bytes_le.2
  have most := h.pageSize.most
  unfold uintptrMax at fits
  have inside : value + h.pageSize.bytes - 1 < 2 ^ 32 := by omega
  rw [alignUp, Nat.mod_eq_of_lt inside]
  exact and_high_mask inside (by omega)

theorem pageCount_mul (n : Nat) : h.pageCount (n * h.pageSize.bytes) = n := by
  have positive := h.pageSize.bytes_pos
  have sum : n * h.pageSize.bytes + h.pageSize.bytes - 1 =
      (h.pageSize.bytes - 1) + n * h.pageSize.bytes := by omega
  rw [Host.pageCount, sum, Nat.add_mul_div_right _ _ positive, Nat.div_eq_of_lt (by omega)]
  omega

theorem alignUp_aligned (value : Nat) :
    alignUp value h.pageSize.bytes % h.pageSize.bytes = 0 := by
  have most := h.pageSize.most
  have mask : alignUp value h.pageSize.bytes =
      (value + h.pageSize.bytes - 1) % 2 ^ 32 / h.pageSize.bytes * h.pageSize.bytes :=
    and_high_mask (Nat.mod_lt _ (by decide)) (by omega)
  rw [mask]
  exact Nat.mul_mod_left _ _

theorem alignUp_mono {larger : Nat} (le : value ≤ larger)
    (fits : larger ≤ uintptrMax - (h.pageSize.bytes - 1)) :
    alignUp value h.pageSize.bytes ≤ alignUp larger h.pageSize.bytes := by
  rw [alignUp_eq h fits, alignUp_eq h (Nat.le_trans le fits)]
  exact Nat.mul_le_mul_right _ (Nat.div_le_div_right (by omega))

theorem alignUp_lt (value : Nat) : alignUp value h.pageSize.bytes < 2 ^ 32 :=
  Nat.lt_of_le_of_lt Nat.and_le_left (Nat.mod_lt _ (by decide))

/-- An aligned length is its own rounding. -/
theorem alignUp_self (aligned : value % h.pageSize.bytes = 0) (fits : value < 2 ^ 32) :
    alignUp value h.pageSize.bytes = value := by
  have positive := h.pageSize.bytes_pos
  have most := h.pageSize.most
  obtain ⟨count, whole⟩ := Nat.dvd_of_mod_eq_zero aligned
  obtain ⟨total, full⟩ : h.pageSize.bytes ∣ 2 ^ 32 := Nat.pow_dvd_pow 2 (by omega)
  have room : value + h.pageSize.bytes ≤ 2 ^ 32 := by
    rw [whole, full] at fits ⊢
    have less := Nat.lt_of_mul_lt_mul_left fits
    rw [← Nat.mul_succ]
    exact Nat.mul_le_mul_left _ less
  have small : value ≤ uintptrMax - (h.pageSize.bytes - 1) := by
    unfold uintptrMax
    omega
  rw [alignUp_eq h small, whole, Nat.mul_comm h.pageSize.bytes count, pageCount_mul]

/-- Rounding down, of an address. -/
theorem alignDown_eq (fits : value < 2 ^ 32) :
    alignDown value h.pageSize.bytes = value / h.pageSize.bytes * h.pageSize.bytes := by
  have most := h.pageSize.most
  exact and_high_mask fits (by omega)

theorem pageCount_exact (aligned : length % h.pageSize.bytes = 0) :
    h.pageCount length * h.pageSize.bytes = length := by
  obtain ⟨count, whole⟩ := Nat.dvd_of_mod_eq_zero aligned
  rw [whole, Nat.mul_comm h.pageSize.bytes count, pageCount_mul]

theorem le_pageCount_mul (length : Nat) : length ≤ h.pageCount length * h.pageSize.bytes := by
  have positive := h.pageSize.bytes_pos
  have split := Nat.div_add_mod (length + h.pageSize.bytes - 1) h.pageSize.bytes
  have rest := Nat.mod_lt (length + h.pageSize.bytes - 1) positive
  rw [Nat.mul_comm] at split
  unfold Host.pageCount
  omega

theorem pageCount_pos (positive : 0 < length) : 0 < h.pageCount length :=
  Nat.div_pos (by omega) h.pageSize.bytes_pos

theorem pageBytes_le_span (positive : 0 < length) :
    h.pageSize.bytes ≤ h.pageCount length * h.pageSize.bytes :=
  Nat.le_mul_of_pos_left _ (pageCount_pos h positive)

/-- Rounding the length up does not change the pages. -/
theorem inSpan_rounded (start length page : Nat) :
    h.inSpan start (h.pageCount length * h.pageSize.bytes) page = h.inSpan start length page := by
  rw [Host.inSpan, Host.inSpan, pageCount_mul]

/-- The addresses on the pages of an aligned range. -/
theorem inSpan_iff (aligned : start % h.pageSize.bytes = 0) (length address : Nat) :
    h.inSpan start length (address / h.pageSize.bytes) = true ↔
      start ≤ address ∧ address < start + h.pageCount length * h.pageSize.bytes := by
  have positive := h.pageSize.bytes_pos
  have whole : start / h.pageSize.bytes * h.pageSize.bytes = start :=
    Nat.div_mul_cancel (Nat.dvd_of_mod_eq_zero aligned)
  rw [Host.inSpan, Bool.and_eq_true, decide_eq_true_iff, decide_eq_true_iff,
    Nat.le_div_iff_mul_le positive, Nat.div_lt_iff_lt_mul positive, Nat.add_mul, whole]

theorem inSpan_congr {h : Host} (size : h'.pageSize = h.pageSize) (start length page : Nat) :
    h'.inSpan start length page = h.inSpan start length page := by
  simp only [Host.inSpan, Host.pageCount, size]
  rfl

theorem inSpan_page {page : Nat} (member : h.inSpan start length page = true) :
    ∃ k < h.pageCount length, page = start / h.pageSize.bytes + k := by
  rw [Host.inSpan, Bool.and_eq_true, decide_eq_true_iff, decide_eq_true_iff] at member
  exact ⟨page - start / h.pageSize.bytes, by omega, by omega⟩

theorem spanAll_iff (start length : Nat) (p : Option Page → Bool) :
    h.spanAll start length p = true ↔
      ∀ page, h.inSpan start length page = true → p (h.pages page) = true := by
  rw [Host.spanAll, List.all_eq_true]
  constructor
  · intro all page member
    obtain ⟨k, bound, rfl⟩ := inSpan_page h member
    exact all k (List.mem_range.mpr bound)
  · intro all k member
    rw [List.mem_range] at member
    apply all
    rw [Host.inSpan, Bool.and_eq_true, decide_eq_true_iff, decide_eq_true_iff]
    omega

end Rounding

/-! ## What the host gives -/

/-- Facts of a mapping the host has made. -/
structure Host.Granted (h : Host) (address length : Nat) (protection : Protection)
    (flags : MapFlags) (descriptor offset : Int) (result : Nat) (after : Host) : Prop where
  aligned : result % h.pageSize.bytes = 0
  inside : result + h.pageCount length * h.pageSize.bytes ≤ 2 ^ 32
  positive : 0 < length
  fixed : flags.fixed = true → result = address
  free : flags.fixed = false → ∀ page, h.inSpan result length page = true → h.pages page = none
  file : flags.anonymous = false → ∃ inode, h.inode descriptor = some inode ∧ 0 ≤ offset ∧
    offset.toNat % h.pageSize.bytes = 0
  after : after = h.map result length protection flags (h.backing flags descriptor) offset.toNat

theorem mmap_granted {outcome : Except Errno Nat}
    (ok : h.mmap address length protection flags descriptor offset outcome = .ok (result, after)) :
    h.Granted address length protection flags descriptor offset result after := by
  unfold Host.mmap at ok
  split at ok
  · cases ok
  · split at ok
    · rename_i can
      cases ok
      simp only [Host.canMap, Bool.and_eq_true, decide_eq_true_iff] at can
      obtain ⟨⟨⟨⟨aligned, inside⟩, positive⟩, place⟩, file⟩ := can
      refine ⟨aligned, inside, positive, ?_, ?_, ?_, rfl⟩
      · intro fixed
        simpa [fixed] using place
      · intro loose page member
        simp only [loose, Bool.false_eq_true, ↓reduceIte] at place
        simpa using (spanAll_iff h result length Option.isNone).mp place page member
      · intro named
        simp only [named, Bool.false_or, Bool.and_eq_true, decide_eq_true_iff,
          Option.isSome_iff_exists] at file
        obtain ⟨⟨⟨inode, found⟩, sign⟩, whole⟩ := file
        exact ⟨inode, found, sign, whole⟩
    · cases ok

/-! ## Words -/

theorem placeOn_aligned (h : Host) (page : Page) (aligned : address % 4 = 0) :
    (h.placeOn page address).index % 4 = 0 := by
  unfold Host.placeOn
  split
  · exact aligned
  · rename_i number _
    have base : 4 ∣ number * h.pageSize.bytes := Dvd.dvd.mul_left h.pageSize.four_dvd number
    have offset : address % h.pageSize.bytes % 4 = 0 := by
      rw [Nat.mod_mod_of_dvd _ h.pageSize.four_dvd, aligned]
    dsimp only
    omega

theorem access_aligned (found : h.access allowed address = some place) (aligned : address % 4 = 0) :
    place.index % 4 = 0 := by
  unfold Host.access at found
  split at found
  · cases found
  · split at found
    · cases found
      exact placeOn_aligned h _ aligned
    · cases found

/-- Access depends on the pages only. -/
theorem access_congr (size : h'.pageSize = h.pageSize) (pages : h'.pages = h.pages)
    (allowed : Page → Bool) (address : Nat) :
    h'.access allowed address = h.access allowed address := by
  simp only [Host.access, Host.page, Host.placeOn, size, pages]

theorem storeWord_some (stored : h.storeWord address word = some h') :
    ∃ place, h.access Page.writable address = some place ∧
      h' = { h with bytes := setWord h.bytes place word } := by
  rw [Host.storeWord, Option.map_eq_some_iff] at stored
  obtain ⟨place, found, rfl⟩ := stored
  exact ⟨place, found, rfl⟩

/-- After a store an aligned word is what it was, or what was stored: two addresses
can show one place of a file. -/
theorem wordVia_storeWord (stored : h.storeWord address word = some h') (aligned : address % 4 = 0)
    (alignedOther : other % 4 = 0) :
    h'.wordVia allowed other = h.wordVia allowed other ∨ h'.wordVia allowed other = some word := by
  obtain ⟨place, found, rfl⟩ := storeWord_some stored
  have same : ({ h with bytes := setWord h.bytes place word } : Host).access allowed other =
      h.access allowed other := access_congr rfl rfl _ _
  rw [Host.wordVia, same, Host.wordVia]
  cases seen : h.access allowed other with
  | none => exact Or.inl rfl
  | some q =>
    by_cases equal : q = place
    · right
      rw [equal, Option.map_some, wordAt_setWord]
    · left
      rw [Option.map_some, Option.map_some, wordAt_setWord_ne _ _ (access_aligned found aligned)
        (access_aligned seen alignedOther) equal]

/-- A weaker demand on the page finds the same place. -/
theorem access_weaken {wider : Page → Bool}
    (weaker : ∀ page, allowed page = true → wider page = true)
    (found : h.access allowed address = some place) :
    h.access wider address = some place := by
  unfold Host.access at found ⊢
  split at found
  · cases found
  · split at found
    · rename_i page _ right
      simp only [Bool.and_eq_true, Bool.not_eq_true'] at right
      rw [← found, if_pos]
      simp [weaker page right.1, right.2]
    · cases found

theorem Page.readable_of_writable {page : Page} (h : page.writable = true) :
    page.readable = true := by
  have : page.protection.write = true := h
  simp [Page.readable, this]

theorem wordVia_stored (weaker : ∀ page, Page.writable page = true → allowed page = true)
    (stored : h.storeWord address word = some h') :
    h'.wordVia allowed address = some word := by
  obtain ⟨place, found, rfl⟩ := storeWord_some stored
  have same : ({ h with bytes := setWord h.bytes place word } : Host).access allowed address =
      some place := (access_congr rfl rfl _ _).trans (access_weaken weaker found)
  rw [Host.wordVia, same, Option.map_some, wordAt_setWord]

theorem peek_stored (stored : h.storeWord address word = some h') : h'.peek address = some word :=
  wordVia_stored (fun _ _ => rfl) stored

theorem peek_storeWord (stored : h.storeWord address word = some h') (aligned : address % 4 = 0)
    (alignedOther : other % 4 = 0) :
    h'.peek other = h.peek other ∨ h'.peek other = some word :=
  wordVia_storeWord stored aligned alignedOther

theorem peek_of_loadWord (loaded : h.loadWord address = some word) :
    h.peek address = some word := by
  rw [Host.loadWord, Host.wordVia, Option.map_eq_some_iff] at loaded
  obtain ⟨place, found, rfl⟩ := loaded
  rw [Host.peek, Host.wordVia, access_weaken (fun _ _ => rfl) found, Option.map_some]

/-- Changing protections does not change what is there. -/
theorem access_protect (h : Host) (start length : Nat) (protection : Protection) (address : Nat) :
    (h.protect start length protection).access (fun _ => true) address =
      h.access (fun _ => true) address := by
  have page : (h.protect start length protection).page address =
      if h.inSpan start length (address / h.pageSize.bytes)
      then (h.page address).map ({ · with protection }) else h.page address := rfl
  unfold Host.access
  rw [page]
  by_cases inside : h.inSpan start length (address / h.pageSize.bytes) = true
  · rw [if_pos inside]
    cases h.page address <;> rfl
  · rw [if_neg inside]
    rfl

theorem peek_protect (h : Host) (start length : Nat) (protection : Protection) (address : Nat) :
    (h.protect start length protection).peek address = h.peek address := by
  rw [Host.peek, Host.peek, Host.wordVia, access_protect]
  rfl

/-! ## Files -/

/-- Files are as they were, and so is the size of a page. -/
structure FilesKept (h h' : Host) : Prop where
  pageSize : h'.pageSize = h.pageSize
  inode : h'.inode = h.inode
  size : h'.size = h.size
  bytes : ∀ f i, h'.bytes ⟨some f, i⟩ = h.bytes ⟨some f, i⟩

theorem FilesKept.refl (h : Host) : FilesKept h h := ⟨rfl, rfl, rfl, fun _ _ => rfl⟩

theorem FilesKept.trans {a b c : Host} (first : FilesKept a b) (second : FilesKept b c) :
    FilesKept a c := by
  constructor
  · exact second.pageSize.trans first.pageSize
  · exact second.inode.trans first.inode
  · exact second.size.trans first.size
  · exact fun f i => (second.bytes f i).trans (first.bytes f i)

theorem FilesKept.slice (kept : FilesKept h h') (inode offset length : Nat) :
    h'.slice inode offset length = h.slice inode offset length := by
  simp only [Host.slice, kept.bytes]

/-- Mapping does not change files. -/
theorem granted_files
    (granted : h.Granted address length protection flags descriptor offset result after) :
    FilesKept h after := by
  rw [granted.after]
  constructor
  · rfl
  · rfl
  · rfl
  · intro f i
    simp [Host.map, Host.fill]

end Linuxemu.Guest
