import Linuxemu.FileReads
import Linuxemu.LoadUndo

/-! `guest_memory_map_load_segment` in the host's own 32-bit arithmetic, for any page size
that is a power of two: what it computes, where it writes, and the table it leaves. -/
namespace Linuxemu.Guest
open Lib Registry
variable {error : Option Errno} {descriptor : Int} {e : SegmentHost}

/-! ## The function in words -/

/-- The fields of an `Elf32_Phdr`, as they are in the file. -/
structure Elf32Phdr where
  pOffset : UInt32
  pVaddr : UInt32
  pFilesz : UInt32
  pMemsz : UInt32
  pFlags : UInt32
  deriving DecidableEq, Repr

/-- `struct load_segment`. -/
structure SegmentWords where
  mapStart : UInt32
  mapLength : UInt32
  finalProtection : Protection
  deriving DecidableEq, Repr

def alignDownWord (value alignment : UInt32) : UInt32 := value &&& ~~~(alignment - 1)

def alignUpWord (value alignment : UInt32) : UInt32 :=
  (value + alignment - 1) &&& ~~~(alignment - 1)

/-- `segment_start`, `segment_end`, `map_start` and `map_end`. -/
structure SegmentBounds where
  segmentStart : UInt32
  segmentEnd : UInt32
  mapStart : UInt32
  mapEnd : UInt32
  deriving DecidableEq, Repr

def Elf32Phdr.bounds (header : Elf32Phdr) (pageSize loadBias : UInt32) : SegmentBounds :=
  let segmentStart := loadBias + header.pVaddr
  let segmentEnd := segmentStart + header.pMemsz
  ⟨segmentStart, segmentEnd, alignDownWord segmentStart pageSize, alignUpWord segmentEnd pageSize⟩

def uintptrMaxWord : UInt32 := 0xffffffff
def guestMinWord : UInt32 := 0x10000
def guestMaxWord : UInt32 := 0x70000000

/-- `validate_load_range`, true when the range can be used. -/
def validateWords (table : List SegmentWords) (start stop : UInt32) : Bool :=
  !(decide (start < guestMinWord) || decide (stop ≤ start) || decide (guestMaxWord < stop)) &&
    !table.any fun x => decide (start < x.mapStart + x.mapLength) && decide (x.mapStart < stop)

/-- What happens to memory: a range is received from the host, may be written to by
`read_exact_at`, is cleared, or goes back. -/
inductive SegmentEffect where
  | mapped (start length : UInt32)
  | copied (start length : UInt32)
  | zeroed (start length : UInt32)
  | unmapped (start length : UInt32)
  deriving DecidableEq, Repr

/-- How the host answers. -/
structure SegmentAnswer where
  mmap : Except Errno UInt32
  read : Option Errno

/-- Once the range has been found good. -/
def placeWords (header : Elf32Phdr) (b : SegmentBounds) (e : SegmentAnswer)
    (table : List SegmentWords) : Option Errno × List SegmentEffect × List SegmentWords :=
  let mapLength := b.mapEnd - b.mapStart
  match e.mmap with
  | .error errno => (some errno, [], table)
  | .ok mapping =>
    if mapping ≠ b.mapStart then
      (some .eexist, [.mapped mapping mapLength, .unmapped mapping mapLength], table)
    else
      let copy : List SegmentEffect :=
        if header.pFilesz ≠ 0 then [.copied b.segmentStart header.pFilesz] else []
      match if header.pFilesz ≠ 0 then e.read else none with
      | some errno =>
        (some errno, .mapped mapping mapLength :: copy ++ [.unmapped mapping mapLength], table)
      | none =>
        let tail : List SegmentEffect := if header.pFilesz < header.pMemsz then
          [.zeroed (b.segmentStart + header.pFilesz) (header.pMemsz - header.pFilesz)] else []
        let front : List SegmentEffect := if b.segmentStart ≠ b.mapStart then
          [.zeroed b.mapStart (b.segmentStart - b.mapStart)] else []
        (none, .mapped mapping mapLength :: copy ++ tail ++ front,
          table ++ [⟨b.mapStart, mapLength, protectionFromFlags header.pFlags.toNat⟩])

/-- The error, the effects in order, and the table. -/
def mapLoadSegmentWords (pageSize : UInt32) (header : Elf32Phdr) (loadBias : UInt32)
    (fileSize : Int) (e : SegmentAnswer) (table : List SegmentWords) :
    Option Errno × List SegmentEffect × List SegmentWords :=
  let b := header.bounds pageSize loadBias
  if header.pMemsz < header.pFilesz ∨ fileSize < 0 ∨
      (header.pFilesz ≠ 0 ∧ (fileSize.toNat < header.pOffset.toNat ∨
        fileSize.toNat - header.pOffset.toNat < header.pFilesz.toNat)) ∨
      uintptrMaxWord - header.pVaddr < loadBias then (some .enoexec, [], table)
  else if uintptrMaxWord - b.segmentStart < header.pMemsz then (some .enoexec, [], table)
  else if uintptrMaxWord - (pageSize - 1) < b.segmentEnd then (some .enoexec, [], table)
  else if !validateWords table b.mapStart b.mapEnd then (some .enoexec, [], table)
  else if table.length = maxLoadSegments then (some .e2big, [], table)
  else placeWords header b e table

/-- The tables that loads and rollbacks lead to. -/
inductive LoadTable (pageSize : UInt32) : List SegmentWords → Prop
  | empty : LoadTable pageSize []
  | load {table : List SegmentWords} {header : Elf32Phdr} (used : header.pMemsz ≠ 0)
      (loadBias : UInt32) (fileSize : Int) (e : SegmentAnswer) (before : LoadTable pageSize table) :
      LoadTable pageSize (mapLoadSegmentWords pageSize header loadBias fileSize e table).2.2
  | rollback {table : List SegmentWords} (count : Nat) (before : LoadTable pageSize table) :
      LoadTable pageSize (table.take count)

/-! ## No sum wraps -/

/-- The four bounds are the numbers that they stand for. -/
structure ExactBounds (pageSize : UInt32) (header : Elf32Phdr) (loadBias : UInt32)
    (b : SegmentBounds) : Prop where
  segmentStart : b.segmentStart.toNat = loadBias.toNat + header.pVaddr.toNat
  segmentEnd : b.segmentEnd.toNat = loadBias.toNat + header.pVaddr.toNat + header.pMemsz.toNat
  mapStart : b.mapStart.toNat = b.segmentStart.toNat / pageSize.toNat * pageSize.toNat
  mapEnd : b.mapEnd.toNat =
    (b.segmentEnd.toNat + pageSize.toNat - 1) / pageSize.toNat * pageSize.toNat

theorem maxWord_sub (a : UInt32) : (uintptrMaxWord - a).toNat = 2 ^ 32 - 1 - a.toNat := by
  have := a.toNat_lt
  have top : uintptrMaxWord.toNat = 2 ^ 32 - 1 := rfl
  rw [UInt32.toNat_sub_of_le _ _ (UInt32.le_iff_toNat_le.mpr (by omega)), top]

section
variable {pageSize : UInt32} {shift : Nat}

section
variable (power : pageSize.toNat = 2 ^ shift)
include power

theorem power_pred : (pageSize - 1).toNat = pageSize.toNat - 1 := by
  have positive : 0 < 2 ^ shift := Nat.two_pow_pos shift
  exact UInt32.toNat_sub_of_le _ _ (UInt32.le_iff_toNat_le.mpr (by
    rw [power]
    exact positive))

theorem power_shift : shift < 32 := by
  have := pageSize.toNat_lt
  rw [power] at this
  exact (Nat.pow_lt_pow_iff_right (by decide)).mp this

theorem alignDownWord_eq (value : UInt32) :
    (alignDownWord value pageSize).toNat = alignDown value.toNat pageSize.toNat := by
  have positive : 0 < 2 ^ shift := Nat.two_pow_pos shift
  have mask : (~~~(pageSize - 1)).toNat = 2 ^ 32 - pageSize.toNat := by
    rw [UInt32.toNat_not, power_pred power, power, UInt32.size]
    omega
  rw [alignDownWord, UInt32.toNat_and, mask, alignDown]

theorem alignUpWord_eq (value : UInt32) :
    (alignUpWord value pageSize).toNat = alignUp value.toNat pageSize.toNat := by
  have positive : 0 < pageSize.toNat := by
    rw [power]
    exact Nat.two_pow_pos shift
  have sum : (value + pageSize - 1).toNat = (value.toNat + pageSize.toNat - 1) % 2 ^ 32 := by
    have := pageSize.toNat_lt
    have one : (1 : UInt32).toNat = 1 := rfl
    rw [UInt32.toNat_sub, UInt32.toNat_add, one]
    omega
  have down := alignDownWord_eq power (value + pageSize - 1)
  rwa [sum] at down

theorem alignDownWord_toNat (value : UInt32) :
    (alignDownWord value pageSize).toNat = value.toNat / pageSize.toNat * pageSize.toNat := by
  have small := power_shift power
  rw [alignDownWord_eq power, power]
  exact and_high_mask value.toNat_lt (by omega)

/-- A number that leaves room for rounding is rounded up without a wrap. -/
theorem alignUpWord_toNat {value : UInt32} (room : value ≤ uintptrMaxWord - (pageSize - 1)) :
    (alignUpWord value pageSize).toNat =
      (value.toNat + pageSize.toNat - 1) / pageSize.toNat * pageSize.toNat := by
  have positive : 0 < 2 ^ shift := Nat.two_pow_pos shift
  have small := power_shift power
  have fits := UInt32.le_iff_toNat_le.mp room
  rw [maxWord_sub, power_pred power, power] at fits
  have inside : value.toNat + 2 ^ shift - 1 < 2 ^ 32 := by
    have := pageSize.toNat_lt
    omega
  rw [alignUpWord_eq power, power, alignUp, Nat.mod_eq_of_lt inside]
  exact and_high_mask inside (by omega)

end

end

/-! ## The table -/

/-- Whole pages inside the window, no two of them common, and no more than there is room for. -/
structure TableOk (pageSize : UInt32) (table : List SegmentWords) : Prop where
  aligned : ∀ x ∈ table,
    x.mapStart.toNat % pageSize.toNat = 0 ∧ x.mapLength.toNat % pageSize.toNat = 0
  window : ∀ x ∈ table, guestMinAddress ≤ x.mapStart.toNat ∧
    x.mapStart.toNat + x.mapLength.toNat ≤ guestMaxAddress
  apart : table.Pairwise fun x y => x.mapStart.toNat + x.mapLength.toNat ≤ y.mapStart.toNat ∨
    y.mapStart.toNat + y.mapLength.toNat ≤ x.mapStart.toNat
  short : table.length ≤ maxLoadSegments

theorem TableOk.take {pageSize : UInt32} {table : List SegmentWords} (ok : TableOk pageSize table)
    (count : Nat) : TableOk pageSize (table.take count) := by
  constructor
  · exact fun x member => ok.aligned x (List.mem_of_mem_take member)
  · exact fun x member => ok.window x (List.mem_of_mem_take member)
  · exact ok.apart.sublist (List.take_sublist count table)
  · exact Nat.le_trans (List.length_take_le' count table) ok.short

/-- What a header has passed when the host is asked for memory. -/
structure PassedChecks (pageSize : UInt32) (header : Elf32Phdr) (loadBias : UInt32)
    (table : List SegmentWords) (b : SegmentBounds) : Prop where
  exactly : ExactBounds pageSize header loadBias b
  file : header.pFilesz.toNat ≤ header.pMemsz.toNat
  low : guestMinAddress ≤ b.mapStart.toNat
  order : b.mapStart.toNat < b.mapEnd.toNat
  high : b.mapEnd.toNat ≤ guestMaxAddress
  apart : ∀ x ∈ table, b.mapEnd.toNat ≤ x.mapStart.toNat ∨
    x.mapStart.toNat + x.mapLength.toNat ≤ b.mapStart.toNat

section
variable {pageSize : UInt32} {shift : Nat} {header : Elf32Phdr} {loadBias : UInt32}
  {table : List SegmentWords} {b : SegmentBounds}

/-- The segment lies on the pages that are mapped for it. -/
theorem PassedChecks.inside (power : pageSize.toNat = 2 ^ shift)
    (passed : PassedChecks pageSize header loadBias table b) :
    b.mapStart.toNat ≤ b.segmentStart.toNat ∧
      b.segmentStart.toNat + header.pMemsz.toNat ≤ b.mapEnd.toNat := by
  have positive : 0 < pageSize.toNat := by
    rw [power]
    exact Nat.two_pow_pos shift
  obtain ⟨start, stop, low, high⟩ := passed.exactly
  constructor
  · rw [low]
    exact Nat.div_mul_le_self _ _
  · have split := Nat.div_add_mod (b.segmentEnd.toNat + pageSize.toNat - 1) pageSize.toNat
    have rest := Nat.mod_lt (b.segmentEnd.toNat + pageSize.toNat - 1) positive
    rw [Nat.mul_comm, ← high] at split
    omega

theorem PassedChecks.aligned (passed : PassedChecks pageSize header loadBias table b) :
    b.mapStart.toNat % pageSize.toNat = 0 ∧ b.mapEnd.toNat % pageSize.toNat = 0 := by
  rw [passed.exactly.mapStart, passed.exactly.mapEnd]
  exact ⟨Nat.mul_mod_left _ _, Nat.mul_mod_left _ _⟩

theorem PassedChecks.length (passed : PassedChecks pageSize header loadBias table b) :
    (b.mapEnd - b.mapStart).toNat = b.mapEnd.toNat - b.mapStart.toNat :=
  UInt32.toNat_sub_of_le _ _ (UInt32.le_iff_toNat_le.mpr (Nat.le_of_lt passed.order))

theorem validateWords_facts {start stop : UInt32} (ok : TableOk pageSize table)
    (valid : validateWords table start stop = true) :
    guestMinAddress ≤ start.toNat ∧ start.toNat < stop.toNat ∧ stop.toNat ≤ guestMaxAddress ∧
    ∀ x ∈ table, stop.toNat ≤ x.mapStart.toNat ∨
      x.mapStart.toNat + x.mapLength.toNat ≤ start.toNat := by
  simp only [validateWords, Bool.and_eq_true, Bool.not_eq_true', Bool.or_eq_false_iff,
    decide_eq_false_iff_not, List.any_eq_false, decide_eq_true_eq, UInt32.lt_iff_toNat_lt,
    UInt32.le_iff_toNat_le] at valid
  obtain ⟨⟨⟨low, order⟩, high⟩, overlaps⟩ := valid
  refine ⟨Nat.le_of_not_lt low, Nat.lt_of_not_le order, Nat.le_of_not_lt high, ?_⟩
  intro x member
  have window := ok.window x member
  have clear := overlaps x member
  unfold guestMaxAddress at window
  rw [UInt32.toNat_add, Nat.mod_eq_of_lt (by omega)] at clear
  omega

/-- A header is turned down with nothing done, or its bounds are exact and the range is free
in the table. -/
theorem mapLoadSegmentWords_cases (power : pageSize.toNat = 2 ^ shift)
    (ok : TableOk pageSize table) (header : Elf32Phdr) (loadBias : UInt32) (fileSize : Int)
    (e : SegmentAnswer) :
    let b := header.bounds pageSize loadBias
    let result := mapLoadSegmentWords pageSize header loadBias fileSize e table
    result = (some .enoexec, [], table) ∨
    PassedChecks pageSize header loadBias table b ∧
      (result = (some .e2big, [], table) ∨
        table.length < maxLoadSegments ∧ result = placeWords header b e table) := by
  intro b result
  have unfolded : result = mapLoadSegmentWords pageSize header loadBias fileSize e table := rfl
  unfold mapLoadSegmentWords at unfolded
  dsimp only at unfolded
  split at unfolded
  · exact .inl unfolded
  rename_i first
  split at unfolded
  · exact .inl unfolded
  rename_i second
  split at unfolded
  · exact .inl unfolded
  rename_i third
  split at unfolded
  · exact .inl unfolded
  rename_i valid
  right
  have file : header.pFilesz.toNat ≤ header.pMemsz.toNat :=
    Nat.le_of_not_lt fun less => first (.inl (UInt32.lt_iff_toNat_lt.mpr less))
  have bias : loadBias.toNat + header.pVaddr.toNat < 2 ^ 32 := by
    have := header.pVaddr.toNat_lt
    have := mt UInt32.lt_iff_toNat_lt.mpr fun less => first (.inr (.inr (.inr less)))
    rw [maxWord_sub] at this
    omega
  have start : b.segmentStart.toNat = loadBias.toNat + header.pVaddr.toNat := by
    show (loadBias + header.pVaddr).toNat = _
    rw [UInt32.toNat_add, Nat.mod_eq_of_lt bias]
  have second : ¬ uintptrMaxWord - b.segmentStart < header.pMemsz := second
  have third : ¬ uintptrMaxWord - (pageSize - 1) < b.segmentEnd := third
  have valid : validateWords table b.mapStart b.mapEnd = true := by simpa using valid
  have stop : b.segmentEnd.toNat =
      loadBias.toNat + header.pVaddr.toNat + header.pMemsz.toNat := by
    have room := mt UInt32.lt_iff_toNat_lt.mpr second
    rw [maxWord_sub] at room
    have fits : b.segmentStart.toNat + header.pMemsz.toNat < 2 ^ 32 := by
      have := b.segmentStart.toNat_lt
      omega
    show (b.segmentStart + header.pMemsz).toNat = _
    rw [UInt32.toNat_add, Nat.mod_eq_of_lt fits, start]
  have room : b.segmentEnd ≤ uintptrMaxWord - (pageSize - 1) := by
    rw [UInt32.le_iff_toNat_le]
    exact Nat.le_of_not_lt fun less => third (UInt32.lt_iff_toNat_lt.mpr less)
  have exactly : ExactBounds pageSize header loadBias b :=
    ⟨start, stop, alignDownWord_toNat power _, alignUpWord_toNat power room⟩
  have passed : PassedChecks pageSize header loadBias table b := by
    obtain ⟨low, order, high, apart⟩ := validateWords_facts ok valid
    exact ⟨exactly, file, low, order, high, apart⟩
  refine ⟨passed, ?_⟩
  split at unfolded
  · exact .inl unfolded
  · rename_i room
    exact .inr ⟨Nat.lt_of_le_of_ne ok.short room, unfolded⟩

/-- A table takes in a range that has passed the checks. -/
theorem TableOk.append (passed : PassedChecks pageSize header loadBias table b)
    (ok : TableOk pageSize table) (room : table.length < maxLoadSegments)
    (protection : Protection) :
    TableOk pageSize (table ++ [⟨b.mapStart, b.mapEnd - b.mapStart, protection⟩]) := by
  have length := passed.length
  have order := passed.order
  obtain ⟨first, last⟩ := passed.aligned
  constructor
  · intro x member
    obtain old | new := List.mem_append.mp member
    · exact ok.aligned x old
    · cases List.mem_singleton.mp new
      refine ⟨first, ?_⟩
      dsimp only
      rw [length]
      exact Nat.sub_mod_eq_zero_of_mod_eq (last.trans first.symm)
  · intro x member
    obtain old | new := List.mem_append.mp member
    · exact ok.window x old
    · cases List.mem_singleton.mp new
      have high := passed.high
      refine ⟨passed.low, ?_⟩
      dsimp only
      omega
  · rw [List.pairwise_append]
    refine ⟨ok.apart, List.pairwise_singleton _ _, ?_⟩
    intro x old y new
    cases List.mem_singleton.mp new
    have := passed.apart x old
    dsimp only
    omega
  · rw [List.length_append, List.length_singleton]
    exact room

/-- Writes go to the range just received, and the table stays in order. -/
theorem placeWords_spec (power : pageSize.toNat = 2 ^ shift)
    (passed : PassedChecks pageSize header loadBias table b) (ok : TableOk pageSize table)
    (room : table.length < maxLoadSegments) (e : SegmentAnswer) :
    let result := placeWords header b e table
    (∀ s n, .copied s n ∈ result.2.1 ∨ .zeroed s n ∈ result.2.1 →
      result.2.1.head? = some (.mapped b.mapStart (b.mapEnd - b.mapStart)) ∧
      b.mapStart.toNat ≤ s.toNat ∧ s.toNat + n.toNat ≤ b.mapEnd.toNat) ∧
    TableOk pageSize result.2.2 := by
  obtain ⟨below, above⟩ := passed.inside power
  have file := passed.file
  have small := b.mapEnd.toNat_lt
  have copied : b.mapStart.toNat ≤ b.segmentStart.toNat ∧
      b.segmentStart.toNat + header.pFilesz.toNat ≤ b.mapEnd.toNat := ⟨below, by omega⟩
  have tail : b.mapStart.toNat ≤ (b.segmentStart + header.pFilesz).toNat ∧
      (b.segmentStart + header.pFilesz).toNat + (header.pMemsz - header.pFilesz).toNat ≤
        b.mapEnd.toNat := by
    rw [UInt32.toNat_add, Nat.mod_eq_of_lt (by omega),
      UInt32.toNat_sub_of_le _ _ (UInt32.le_iff_toNat_le.mpr file)]
    omega
  have front : b.mapStart.toNat ≤ b.mapStart.toNat ∧
      b.mapStart.toNat + (b.segmentStart - b.mapStart).toNat ≤ b.mapEnd.toNat := by
    rw [UInt32.toNat_sub_of_le _ _ (UInt32.le_iff_toNat_le.mpr below)]
    omega
  unfold placeWords
  dsimp only
  split
  · exact ⟨by simp, ok⟩
  split
  · exact ⟨by simp, ok⟩
  rename_i mapping asked here
  obtain rfl : mapping = b.mapStart := not_not.mp here
  split
  · refine ⟨fun s n => ?_, ok⟩
    split <;> simp
    rintro rfl rfl
    exact copied
  · refine ⟨fun s n => ?_, ok.append passed room _⟩
    intro write
    refine ⟨rfl, ?_⟩
    simp only [List.cons_append, List.mem_cons, List.mem_append, List.mem_ite_nil_right,
      List.not_mem_nil, reduceCtorEq, SegmentEffect.copied.injEq, SegmentEffect.zeroed.injEq,
      false_or, or_false, and_false] at write
    obtain ⟨-, rfl, rfl⟩ | ⟨-, rfl, rfl⟩ | ⟨-, rfl, rfl⟩ := write
    · exact copied
    · exact tail
    · exact front

/-- Every table that loads and rollbacks lead to is in order. -/
theorem LoadTable.ok (power : pageSize.toNat = 2 ^ shift) (reached : LoadTable pageSize table) :
    TableOk pageSize table := by
  induction reached with
  | empty => exact ⟨by simp, by simp, .nil, Nat.zero_le _⟩
  | @load table header used loadBias fileSize e before ok =>
    obtain refused | ⟨passed, full | ⟨room, placed⟩⟩ :=
      mapLoadSegmentWords_cases power ok header loadBias fileSize e
    · rwa [refused]
    · rwa [full]
    · rw [placed]
      exact (placeWords_spec power passed ok room e).2
  | rollback count before ok => exact ok.take count

/-- A header is turned down with nothing done, or no sum has wrapped and every byte written
lies on the pages just received; the table stays in order. -/
theorem segment_loading_safe (power : pageSize.toNat = 2 ^ shift)
    (reached : LoadTable pageSize table) (used : header.pMemsz ≠ 0) (loadBias : UInt32)
    (fileSize : Int) (e : SegmentAnswer) :
    let b := header.bounds pageSize loadBias
    let result := mapLoadSegmentWords pageSize header loadBias fileSize e table
    (result = (some .enoexec, [], table) ∨ ExactBounds pageSize header loadBias b) ∧
    (∀ s n, .copied s n ∈ result.2.1 ∨ .zeroed s n ∈ result.2.1 →
      result.2.1.head? = some (.mapped b.mapStart (b.mapEnd - b.mapStart)) ∧
      b.mapStart.toNat ≤ s.toNat ∧
      s.toNat + n.toNat ≤ b.mapStart.toNat + (b.mapEnd - b.mapStart).toNat) ∧
    TableOk pageSize result.2.2 := by
  intro b result
  have ok := reached.ok power
  have after : TableOk pageSize result.2.2 :=
    LoadTable.ok power (.load used loadBias fileSize e reached)
  obtain refused | ⟨passed, full | ⟨room, placed⟩⟩ :=
    mapLoadSegmentWords_cases power ok header loadBias fileSize e
  · refine ⟨.inl refused, fun s n write => ?_, after⟩
    rw [show result = (some .enoexec, [], table) from refused] at write
    simp at write
  · refine ⟨.inr passed.exactly, fun s n write => ?_, after⟩
    rw [show result = (some .e2big, [], table) from full] at write
    simp at write
  · refine ⟨.inr passed.exactly, fun s n write => ?_, after⟩
    rw [show result = placeWords header b e table from placed] at write ⊢
    obtain ⟨received, low, high⟩ := (placeWords_spec power passed ok room e).1 s n write
    have whole : b.mapStart.toNat + (b.mapEnd - b.mapStart).toNat = b.mapEnd.toNat := by
      rw [passed.length]
      exact Nat.add_sub_cancel' (Nat.le_of_lt passed.order)
    exact ⟨received, low, high.trans_eq whole.symm⟩

theorem two_segments_kept_apart :
    let first := mapLoadSegmentWords 4096 ⟨0, 0x10000, 88, 88, 5⟩ 0 8192 ⟨.ok 0x10000, none⟩ []
    let second := mapLoadSegmentWords 4096 ⟨88, 0x11058, 40, 80, 6⟩ 0 8192 ⟨.ok 0x11000, none⟩
      first.2.2
    second.2.1 = [.mapped 0x11000 0x1000, .copied 0x11058 40, .zeroed 0x11080 40,
      .zeroed 0x11000 0x58] ∧
    TableOk 4096 second.2.2 := by
  intro first second
  have size : (4096 : UInt32).toNat = 2 ^ 12 := rfl
  have used : (88 : UInt32) ≠ 0 := by decide
  have start : LoadTable 4096 first.2.2 := .load used 0 8192 ⟨.ok 0x10000, none⟩ .empty
  have safe := segment_loading_safe size start (show (⟨88, 0x11058, 40, 80, 6⟩ :
    Elf32Phdr).pMemsz ≠ 0 by decide) 0 8192 ⟨.ok 0x11000, none⟩
  exact ⟨by decide +kernel, safe.2.2⟩

end

/-! ## The machine's table -/

def Elf32Phdr.header (x : Elf32Phdr) : ProgramHeader :=
  ⟨x.pOffset.toNat, x.pVaddr.toNat, x.pFilesz.toNat, x.pMemsz.toNat, x.pFlags.toNat⟩

def SegmentWords.segment (x : SegmentWords) : LoadSegment :=
  ⟨x.mapStart.toNat, x.mapLength.toNat, x.finalProtection⟩

section
variable {m m' : Machine} {pageSize : UInt32} {table : List SegmentWords} {header : Elf32Phdr}
  {b : SegmentBounds}

theorem validateWords_eq (same : m.loadSegments = table.map SegmentWords.segment)
    (ok : TableOk pageSize table) (start stop : UInt32) :
    validateWords table start stop = m.validateLoadRange start.toNat stop.toNat := by
  have overlap : table.any (fun x =>
      decide (start < x.mapStart + x.mapLength) && decide (x.mapStart < stop)) =
      m.loadSegments.any fun x =>
        rangesOverlap start.toNat stop.toNat x.mapStart (x.mapStart + x.mapLength) := by
    rw [same, List.any_map, Bool.eq_iff_iff, List.any_eq_true, List.any_eq_true]
    refine exists_congr fun x => and_congr_right fun member => ?_
    have window := (ok.window x member).2
    unfold guestMaxAddress at window
    have sum : (x.mapStart + x.mapLength).toNat = x.mapStart.toNat + x.mapLength.toNat := by
      rw [UInt32.toNat_add, Nat.mod_eq_of_lt (by omega)]
    rw [Bool.and_eq_true, decide_eq_true_iff, decide_eq_true_iff, UInt32.lt_iff_toNat_lt,
      UInt32.lt_iff_toNat_lt, sum, Function.comp_apply, rangesOverlap, Bool.and_eq_true,
      decide_eq_true_iff, decide_eq_true_iff]
    exact Iff.rfl
  rw [validateWords, Machine.validateLoadRange, overlap]
  rfl

/-- The host's answers to the machine, as the words see them. -/
theorem placeSegment_words
    (length : (b.mapEnd - b.mapStart).toNat = b.mapEnd.toNat - b.mapStart.toNat)
    (same : m.loadSegments = table.map SegmentWords.segment)
    (done : m.placeSegment descriptor header.header b.segmentStart.toNat b.mapStart.toNat
      (b.mapEnd.toNat - b.mapStart.toNat) e = some (error, m')) :
    ∃ answer, (placeWords header b answer table).1 = error ∧
      m'.loadSegments = (placeWords header b answer table).2.2.map SegmentWords.segment := by
  unfold Machine.placeSegment at done
  obtain ⟨errno, -, result⟩ | ⟨mapping, host, asked, result⟩ :=
    mmap_cases m b.mapStart.toNat (b.mapEnd.toNat - b.mapStart.toNat) brkProtection brkFlags (-1) 0
      e.mmap
  · rw [result] at done
    cases done
    exact ⟨⟨.error errno, none⟩, rfl, same⟩
  · have granted := mmap_granted asked
    have small : mapping < 2 ^ 32 := by
      have := granted.inside
      have := m.image.host.pageSize.bytes_pos
      have := Nat.mul_pos (pageCount_pos m.image.host granted.positive) this
      omega
    have word : (UInt32.ofNat mapping).toNat = mapping := by
      rw [UInt32.toNat_ofNat', Nat.mod_eq_of_lt small]
    rw [result] at done
    dsimp only at done
    split at done
    · rename_i elsewhere
      cases done
      have away : UInt32.ofNat mapping ≠ b.mapStart := fun here =>
        elsewhere (by rw [← here, word])
      refine ⟨⟨.ok (UInt32.ofNat mapping), none⟩, ?_⟩
      simp only [placeWords, if_pos away, true_and]
      exact same
    · rename_i there
      obtain here : UInt32.ofNat mapping = b.mapStart :=
        UInt32.toNat_inj.mp (word.trans (not_not.mp there))
      split at done
      · cases done
      · rename_i errno failed
        cases done
        have bytes : header.pFilesz ≠ 0 := fun none => by
          have nothing : header.header.pFilesz = 0 := congrArg UInt32.toNat none
          rw [nothing, readExactAt_nothing] at failed
          cases failed
        refine ⟨⟨.ok b.mapStart, some errno⟩, ?_⟩
        simp only [placeWords, ne_eq, bytes, not_true, not_false_iff, if_true, if_false, true_and]
        exact same
      · cases done
        refine ⟨⟨.ok b.mapStart, none⟩, ?_⟩
        simp only [placeWords, ne_eq, not_true, if_false, ite_self, true_and, List.map_append,
          List.map_singleton, ← same, SegmentWords.segment, length]
        rfl

/-- Whatever the machine's loading does to its table, the same function in words does. -/
theorem mapLoadSegment_words {loadBias : UInt32} {fileSize : Nat}
    (size : pageSize.toNat = m.pageBytes) (same : m.loadSegments = table.map SegmentWords.segment)
    (ok : TableOk pageSize table)
    (done : guestMemoryMapLoadSegment descriptor header.header loadBias.toNat fileSize e m =
      some (error, m')) :
    ∃ answer,
      let result := mapLoadSegmentWords pageSize header loadBias fileSize answer table
      result.1 = error ∧ m'.loadSegments = result.2.2.map SegmentWords.segment := by
  have first : (header.pMemsz < header.pFilesz ∨ (fileSize : Int) < 0 ∨
      (header.pFilesz ≠ 0 ∧ ((fileSize : Int).toNat < header.pOffset.toNat ∨
        (fileSize : Int).toNat - header.pOffset.toNat < header.pFilesz.toNat)) ∨
      uintptrMaxWord - header.pVaddr < loadBias) ↔
      (header.header.pMemsz < header.header.pFilesz ∨ (header.header.pFilesz ≠ 0 ∧
        (fileSize < header.header.pOffset ∨
          fileSize - header.header.pOffset < header.header.pFilesz)) ∨
        uintptrMax - header.header.pVaddr < loadBias.toNat) := by
    rw [UInt32.lt_iff_toNat_lt, UInt32.lt_iff_toNat_lt, maxWord_sub, ne_eq, ← UInt32.toNat_inj,
      Int.toNat_natCast]
    have := Int.natCast_nonneg fileSize
    unfold uintptrMax Elf32Phdr.header
    dsimp only
    have zero : (0 : UInt32).toNat = 0 := rfl
    omega
  have power : pageSize.toNat = 2 ^ m.image.host.pageSize.shift := size
  -- the host is not asked before the range has passed every check
  let unasked : SegmentAnswer := ⟨.error .enoexec, none⟩
  unfold guestMemoryMapLoadSegment at done
  unfold mapLoadSegmentWords
  dsimp only at done ⊢
  split at done
  · rename_i bad
    cases done
    simp only [if_pos (first.mpr bad)]
    exact ⟨unasked, trivial, same⟩
  rename_i good
  simp only [if_neg (mt first.mp good)]
  generalize bounds : header.bounds pageSize loadBias = b
  have start : b.segmentStart.toNat = loadBias.toNat + header.header.pVaddr := by
    have fits : ¬ uintptrMax - header.pVaddr.toNat < loadBias.toNat :=
      fun wraps => good (.inr (.inr wraps))
    have := header.pVaddr.toNat_lt
    unfold uintptrMax at fits
    rw [show b.segmentStart = loadBias + header.pVaddr from bounds ▸ rfl, UInt32.toNat_add,
      Nat.mod_eq_of_lt (by omega)]
    rfl
  rw [← start] at done
  have second : uintptrMaxWord - b.segmentStart < header.pMemsz ↔
      uintptrMax - b.segmentStart.toNat < header.header.pMemsz := by
    rw [UInt32.lt_iff_toNat_lt, maxWord_sub]
    exact Iff.rfl
  split at done
  · rename_i long
    cases done
    simp only [if_pos (second.mpr long)]
    exact ⟨unasked, trivial, same⟩
  rename_i short
  simp only [if_neg (mt second.mp short)]
  have stop : b.segmentEnd.toNat = b.segmentStart.toNat + header.header.pMemsz := by
    have room : ¬ uintptrMax - b.segmentStart.toNat < header.pMemsz.toNat := short
    have := b.segmentStart.toNat_lt
    unfold uintptrMax at room
    rw [show b.segmentEnd = b.segmentStart + header.pMemsz from bounds ▸ rfl, UInt32.toNat_add,
      Nat.mod_eq_of_lt (by omega)]
    rfl
  rw [← stop, ← size] at done
  have third : uintptrMaxWord - (pageSize - 1) < b.segmentEnd ↔
      uintptrMax - (pageSize.toNat - 1) < b.segmentEnd.toNat := by
    rw [UInt32.lt_iff_toNat_lt, maxWord_sub, power_pred power]
    exact Iff.rfl
  split at done
  · rename_i high
    cases done
    simp only [if_pos (third.mpr high)]
    exact ⟨unasked, trivial, same⟩
  rename_i room
  simp only [if_neg (mt third.mp room)]
  have down : b.mapStart.toNat = alignDown b.segmentStart.toNat pageSize.toNat :=
    bounds ▸ alignDownWord_eq power _
  have up : b.mapEnd.toNat = alignUp b.segmentEnd.toNat pageSize.toNat :=
    bounds ▸ alignUpWord_eq power _
  rw [← down, ← up] at done
  simp only [validateWords_eq same ok]
  split at done
  · rename_i invalid
    cases done
    simp only [if_pos invalid]
    exact ⟨unasked, trivial, same⟩
  rename_i valid
  have length : m.loadSegments.length = table.length := by rw [same, List.length_map]
  simp only [if_neg valid]
  rw [length] at done
  split at done
  · rename_i full
    cases done
    simp only [if_pos full]
    exact ⟨unasked, trivial, same⟩
  rename_i free
  simp only [if_neg free]
  have order := (validateWords_facts ok (by
    rw [validateWords_eq same ok]
    simpa using valid)).2.1
  exact placeSegment_words (UInt32.toNat_sub_of_le _ _
    (UInt32.le_iff_toNat_le.mpr (Nat.le_of_lt order))) same done

end

end Linuxemu.Guest
