import Linuxemu.LoadedObject

/-! Where the segments of an object can lie, and what mapping them one after another comes
to on a host that gives what it is asked for whenever that is free. -/
namespace Linuxemu.Guest
open Lib Registry
variable {fileSize inode : Nat} {descriptor : Int} {e : SegmentHost}

/-! ## Places -/

/-- What the place of an object depends on: the size of a page, the addresses that are
mapped, and the segments that are loaded. -/
structure Space where
  page : Nat
  taken : Nat → Bool
  loaded : List LoadSegment

def Machine.space (m : Machine) : Space where
  page := m.pageBytes
  taken q := (m.image.host.page q).isSome
  loaded := m.loadSegments

section
variable (s : Space) (loadBias : Nat)

/-- The pages of the segment are in the guest window. -/
def Space.Inside (x : ElfProgramHeader) : Prop :=
  loadBias + x.pVaddr + x.pMemsz ≤ guestMaxAddress ∧
    guestMinAddress ≤ x.mapStart s.page loadBias ∧ x.mapEnd s.page loadBias ≤ guestMaxAddress

/-- They are apart from everything that is loaded. -/
def Space.Clear (x : ElfProgramHeader) : Prop :=
  ∀ y ∈ s.loaded, (x.segment s.page loadBias).Apart y

/-- The host has nothing on them. -/
def Space.Free (x : ElfProgramHeader) : Prop :=
  ∀ q, x.Spans s.page loadBias q → s.taken q = false

/-- All these segments can be placed. -/
structure Space.Usable (parts : List ElfProgramHeader) : Prop where
  inside : ∀ x ∈ parts, s.Inside loadBias x
  clear : ∀ x ∈ parts, s.Clear loadBias x
  apart : parts.Pairwise fun x y =>
    (x.segment s.page loadBias).Apart (y.segment s.page loadBias)
  free : ∀ x ∈ parts, s.Free loadBias x

/-- The segment passes the checks that come before the host is asked. -/
structure Space.Fits (placed : List ElfProgramHeader) (x : ElfProgramHeader) : Prop where
  inside : s.Inside loadBias x
  clear : s.Clear loadBias x
  apart : ∀ y ∈ placed, (y.segment s.page loadBias).Apart (x.segment s.page loadBias)

/-- The first segment that cannot be placed passes the checks: it is pages of the host that
are in its way. -/
inductive Space.Blocked : List ElfProgramHeader → List ElfProgramHeader → Prop
  | here {placed rest : List ElfProgramHeader} {x : ElfProgramHeader}
      (fits : s.Fits loadBias placed x) (taken : ¬ s.Free loadBias x) :
      Space.Blocked placed (x :: rest)
  | later {placed rest : List ElfProgramHeader} {x : ElfProgramHeader}
      (fits : s.Fits loadBias placed x) (free : s.Free loadBias x)
      (next : Space.Blocked (placed ++ [x]) rest) : Space.Blocked placed (x :: rest)

end

section
variable {s : Space} {loadBias : Nat} {placed rest : List ElfProgramHeader} {x : ElfProgramHeader}

theorem Space.Usable.nothing : s.Usable loadBias [] := by
  constructor
  · exact nofun
  · exact nofun
  · exact List.Pairwise.nil
  · exact nofun

theorem usable_snoc : s.Usable loadBias (placed ++ [x]) ↔
    s.Usable loadBias placed ∧ s.Fits loadBias placed x ∧ s.Free loadBias x := by
  constructor
  · rintro ⟨inside, clear, apart, free⟩
    obtain ⟨before, -, last⟩ := List.pairwise_append.mp apart
    have member : x ∈ placed ++ [x] := List.mem_append_right _ (List.mem_singleton_self x)
    refine ⟨⟨?_, ?_, before, ?_⟩, ⟨inside x member, clear x member, ?_⟩, free x member⟩
    · exact fun y known => inside y (List.mem_append_left _ known)
    · exact fun y known => clear y (List.mem_append_left _ known)
    · exact fun y known => free y (List.mem_append_left _ known)
    · exact fun y known => last y known x (List.mem_singleton_self x)
  · rintro ⟨before, fits, free⟩
    have both {P : ElfProgramHeader → Prop} (old : ∀ y ∈ placed, P y) (new : P x) :
        ∀ y ∈ placed ++ [x], P y :=
      List.forall_mem_append.mpr ⟨old, List.forall_mem_singleton.mpr new⟩
    constructor
    · exact both before.inside fits.inside
    · exact both before.clear fits.clear
    · refine List.pairwise_append.mpr ⟨before.apart, List.pairwise_singleton _ _, ?_⟩
      intro y known z last
      rw [List.mem_singleton.mp last]
      exact fits.apart y known
    · exact both before.free free

theorem Space.Usable.initial (usable : s.Usable loadBias (placed ++ rest)) :
    s.Usable loadBias placed := by
  constructor
  · exact fun y known => usable.inside y (List.mem_append_left _ known)
  · exact fun y known => usable.clear y (List.mem_append_left _ known)
  · exact (List.pairwise_append.mp usable.apart).1
  · exact fun y known => usable.free y (List.mem_append_left _ known)

theorem Space.Usable.next (usable : s.Usable loadBias (placed ++ x :: rest)) :
    s.Fits loadBias placed x ∧ s.Free loadBias x := by
  rw [← List.singleton_append, ← List.append_assoc] at usable
  exact (usable_snoc.mp usable.initial).2

/-- Where pages of the host are in the way an object cannot lie. -/
theorem Space.Blocked.not_usable_append (blocked : s.Blocked loadBias placed rest) :
    ¬ s.Usable loadBias (placed ++ rest) := by
  intro usable
  induction blocked with
  | here _ taken => exact taken usable.next.2
  | later _ _ _ ih =>
    apply ih
    rwa [List.append_assoc, List.singleton_append]

theorem Space.Blocked.not_usable (blocked : s.Blocked loadBias [] rest) :
    ¬ s.Usable loadBias rest := by
  have whole := blocked.not_usable_append
  rwa [List.nil_append] at whole

end

/-! ## One segment -/

section
variable {m : Machine} {x : ElfProgramHeader} {loadBias : Nat}

theorem loads_positive (loads : x.loads = true) : 0 < x.pMemsz := by
  have := (Bool.and_eq_true_iff.mp loads).2
  simp only [ne_eq, decide_eq_true_eq] at this
  omega

theorem Space.Inside.small (inside : m.space.Inside loadBias x) :
    loadBias + x.pVaddr + x.pMemsz ≤ uintptrMax - (m.pageBytes - 1) := by
  have stop : loadBias + x.pVaddr + x.pMemsz ≤ 0x70000000 := inside.1
  have page : m.pageBytes ≤ 2 ^ 31 := m.image.host.pageSize.bytes_le.2
  unfold uintptrMax
  omega

/-- The pages of a segment that ends in the window. -/
theorem Space.Inside.rounded (inside : m.space.Inside loadBias x) :
    x.mapStart m.pageBytes loadBias ≤ loadBias + x.pVaddr ∧
      loadBias + x.pVaddr + x.pMemsz ≤ x.mapEnd m.pageBytes loadBias ∧
      x.mapStart m.pageBytes loadBias % m.pageBytes = 0 ∧
      x.mapEnd m.pageBytes loadBias % m.pageBytes = 0 :=
  rounded_range m (Nat.le_add_right _ x.pMemsz) inside.small

theorem validateLoadRange_iff (loads : x.loads = true)
    (small : loadBias + x.pVaddr + x.pMemsz ≤ uintptrMax - (m.pageBytes - 1)) :
    m.validateLoadRange (x.mapStart m.pageBytes loadBias) (x.mapEnd m.pageBytes loadBias) = true ↔
      m.space.Inside loadBias x ∧ m.space.Clear loadBias x := by
  obtain ⟨low, high, -, -⟩ := rounded_range m (Nat.le_add_right _ x.pMemsz) small
  have positive := loads_positive loads
  replace low : x.mapStart m.pageBytes loadBias ≤ loadBias + x.pVaddr := low
  replace high : loadBias + x.pVaddr + x.pMemsz ≤ x.mapEnd m.pageBytes loadBias := high
  have window : m.space.Inside loadBias x ↔ guestMinAddress ≤ x.mapStart m.pageBytes loadBias ∧
      x.mapEnd m.pageBytes loadBias ≤ guestMaxAddress :=
    ⟨fun inside => inside.2, fun inside => ⟨Nat.le_trans high inside.2, inside⟩⟩
  have clear : m.space.Clear loadBias x ↔ ∀ y ∈ m.loadSegments,
      ¬ (x.mapStart m.pageBytes loadBias < y.mapStart + y.mapLength ∧
        y.mapStart < x.mapEnd m.pageBytes loadBias) := by
    apply forall₂_congr
    intro y _
    show (x.mapStart m.pageBytes loadBias +
      (x.mapEnd m.pageBytes loadBias - x.mapStart m.pageBytes loadBias) ≤ y.mapStart ∨
        y.mapStart + y.mapLength ≤ x.mapStart m.pageBytes loadBias) ↔ _
    omega
  rw [window, clear]
  simp only [Machine.validateLoadRange, Bool.and_eq_true, Bool.not_eq_true', Bool.or_eq_false_iff,
    decide_eq_false_iff_not, List.any_eq_false, rangesOverlap, decide_eq_true_iff]
  constructor
  · rintro ⟨⟨⟨first, -⟩, last⟩, overlaps⟩
    exact ⟨⟨by omega, by omega⟩, overlaps⟩
  · rintro ⟨⟨first, last⟩, overlaps⟩
    exact ⟨⟨⟨by omega, by omega⟩, by omega⟩, overlaps⟩

theorem mapLoadSegment_refused (loads : x.loads = true)
    (unfit : ¬ (m.space.Inside loadBias x ∧ m.space.Clear loadBias x)) :
    guestMemoryMapLoadSegment descriptor x.toProgramHeader loadBias fileSize e m =
      some (some .enoexec, m) := by
  unfold guestMemoryMapLoadSegment
  dsimp only
  split
  · rfl
  split
  · rfl
  split
  · rfl
  rename_i small
  rw [if_pos]
  rw [Bool.not_eq_true']
  by_contra valid
  rw [Bool.not_eq_false] at valid
  exact unfit ((validateLoadRange_iff loads (by omega)).mp valid)

theorem mapLoadSegment_asks (descriptor : Int) (e : SegmentHost) (loads : x.loads = true)
    (valid : validateProgramHeader x fileSize = true) (inside : m.space.Inside loadBias x)
    (clear : m.space.Clear loadBias x) :
    guestMemoryMapLoadSegment descriptor x.toProgramHeader loadBias fileSize e m =
      if m.loadSegments.length = maxLoadSegments then some (some .e2big, m)
      else m.placeSegment descriptor x.toProgramHeader (loadBias + x.pVaddr)
        (x.mapStart m.pageBytes loadBias)
        (x.mapEnd m.pageBytes loadBias - x.mapStart m.pageBytes loadBias) e := by
  have small := inside.small
  have range := (validateLoadRange_iff loads small).mpr ⟨inside, clear⟩
  have page : 1 ≤ m.pageBytes := m.image.host.pageSize.bytes_pos
  have sizes : x.pFilesz ≤ x.pMemsz ∧ (x.pFilesz ≠ 0 → x.pOffset ≤ fileSize ∧
      x.pFilesz ≤ fileSize - x.pOffset) := by
    rw [validateProgramHeader, if_pos loads] at valid
    simp only [Bool.not_eq_true', Bool.or_eq_false_iff, Bool.and_eq_false_iff,
      decide_eq_false_iff_not, rangeInFile, Bool.not_eq_false', Bool.and_eq_true,
      decide_eq_true_iff] at valid
    obtain ⟨⟨⟨⟨⟨memory, content⟩, -⟩, -⟩, -⟩, -⟩ := valid
    exact ⟨by omega, fun some => content.resolve_left (not_not.mpr some)⟩
  unfold uintptrMax at small
  unfold guestMemoryMapLoadSegment
  dsimp only
  rw [if_neg, if_neg, if_neg, if_neg]
  · rfl
  · rw [Bool.not_eq_true', Bool.not_eq_false]
    exact range
  · unfold uintptrMax
    omega
  · unfold uintptrMax
    omega
  · unfold uintptrMax
    omega

end

/-! ## One segment after another -/

/-- The host gives the segment a place that is free, and its own if that is. -/
def Space.Grants (s : Space) (loadBias : Nat) (placed : List ElfProgramHeader)
    (x : ElfProgramHeader) (outcome : Except Errno Nat) : Prop :=
  let length := x.mapEnd s.page loadBias - x.mapStart s.page loadBias
  ∃ result, outcome = .ok result ∧ result % s.page = 0 ∧ result + length ≤ 2 ^ 32 ∧
    (∀ q, result ≤ q → q < result + length →
      s.taken q = false ∧ ∀ y ∈ placed, ¬ y.Spans s.page loadBias q) ∧
    (s.Free loadBias x → result = x.mapStart s.page loadBias)

/-- How an obliging host answers the calls for these segments, as far as they are made: it
has memory, keeps to the place it is asked for, and reads the file. -/
inductive Machine.Obliges (m : Machine) (descriptor : Int) (loadBias : Nat)
    (answer : Nat → SegmentHost) : Nat → List ElfProgramHeader → List ElfProgramHeader → Prop
  | done {i : Nat} {placed : List ElfProgramHeader} : Obliges m descriptor loadBias answer i placed []
  | skip {i : Nat} {placed rest : List ElfProgramHeader} {x : ElfProgramHeader}
      (other : x.loads = false)
      (next : Obliges m descriptor loadBias answer (i + 1) placed rest) :
      Obliges m descriptor loadBias answer i placed (x :: rest)
  | part {i : Nat} {placed rest : List ElfProgramHeader} {x : ElfProgramHeader}
      (loads : x.loads = true)
      (grants : m.space.Fits loadBias placed x →
        m.space.Grants loadBias placed x (answer i).mmap)
      (read : m.space.Fits loadBias placed x → m.space.Free loadBias x →
        ∃ bytes, m.image.host.readExactAt descriptor x.pFilesz x.pOffset (answer i).read =
          some (.ok bytes))
      (next : m.space.Fits loadBias placed x → m.space.Free loadBias x →
        Obliges m descriptor loadBias answer (i + 1) (placed ++ [x]) rest) :
      Obliges m descriptor loadBias answer i placed (x :: rest)

/-- These segments have been mapped since `start`, on pages of their own. -/
structure Laid (file : Nat → UInt8) (loadBias : Nat) (start : Machine)
    (placed : List ElfProgramHeader) (m : Machine) : Prop
    extends Placed file loadBias start placed m where
  new : ∀ x ∈ placed, ∀ q, x.Spans start.pageBytes loadBias q →
    m.image.host.page q = some ⟨brkProtection, none, false⟩
  old : ∀ q, (∀ x ∈ placed, ¬ x.Spans start.pageBytes loadBias q) →
    m.image.host.page q = start.image.host.page q

section
variable {file : Nat → UInt8} {loadBias : Nat} {start m : Machine}
  {placed : List ElfProgramHeader} {x : ElfProgramHeader}

theorem Laid.nothing (ok : start.LoadOk) : Laid file loadBias start [] start where
  toPlaced := .nothing ok
  new := nofun
  old _ _ := rfl

section
variable (h : Laid file loadBias start placed m)
include h

theorem Laid.page : m.pageBytes = start.pageBytes :=
  congrArg PageSize.bytes h.pageSize

/-- What the checks compare with is what was loaded before and what has been placed. -/
theorem Laid.fits_iff :
    start.space.Fits loadBias placed x ↔
      m.space.Inside loadBias x ∧ m.space.Clear loadBias x := by
  have inside : m.space.Inside loadBias x ↔ start.space.Inside loadBias x := by
    unfold Space.Inside Machine.space
    rw [h.page]
  have clear : m.space.Clear loadBias x ↔ start.space.Clear loadBias x ∧ ∀ y ∈ placed,
      (y.segment start.pageBytes loadBias).Apart (x.segment start.pageBytes loadBias) := by
    unfold Space.Clear Machine.space
    dsimp only
    rw [h.page, h.segments, List.forall_mem_append, List.forall_mem_map]
    apply and_congr_right
    intro _
    apply forall₂_congr
    exact fun y _ => or_comm
  rw [inside, clear]
  constructor
  · exact fun fits => ⟨fits.inside, fits.clear, fits.apart⟩
  · exact fun ⟨inside, clear, apart⟩ => ⟨inside, clear, apart⟩

/-- The host can do what an obliging one answers. -/
theorem Laid.granted (loads : x.loads = true) (fits : start.space.Fits loadBias placed x)
    {outcome : Except Errno Nat} (grants : start.space.Grants loadBias placed x outcome) :
    ∃ result after, m.image.host.mmap (x.mapStart m.pageBytes loadBias)
        (x.mapEnd m.pageBytes loadBias - x.mapStart m.pageBytes loadBias) brkProtection brkFlags
        (-1) 0 outcome = .ok (result, after) ∧
      (start.space.Free loadBias x ↔ result = x.mapStart m.pageBytes loadBias) := by
  have inside : m.space.Inside loadBias x := (h.fits_iff.mp fits).1
  obtain ⟨low, high, first, last⟩ := inside.rounded
  have positive := loads_positive loads
  have page : start.space.page = m.pageBytes := h.page.symm
  obtain ⟨result, rfl, aligned, below, free, here⟩ := grants
  rw [page] at aligned below free here
  have whole : m.image.host.pageCount
      (x.mapEnd m.pageBytes loadBias - x.mapStart m.pageBytes loadBias) * m.pageBytes =
      x.mapEnd m.pageBytes loadBias - x.mapStart m.pageBytes loadBias :=
    pageCount_exact m.image.host (Nat.sub_mod_eq_zero_of_mod_eq (last.trans first.symm))
  generalize size : x.mapEnd m.pageBytes loadBias - x.mapStart m.pageBytes loadBias = length at *
  have unused : m.image.host.spanAll result length Option.isNone = true := by
    rw [spanAll_iff]
    intro n member
    have address : n * m.pageBytes / m.pageBytes = n :=
      Nat.mul_div_cancel _ m.image.host.pageSize.bytes_pos
    rw [← address] at member
    have range := (inSpan_iff m.image.host aligned length (n * m.pageBytes)).mp member
    have none := free (n * m.pageBytes) range.1 (whole ▸ range.2)
    have kept := h.old (n * m.pageBytes) fun y known => by
      rw [← h.page]
      exact none.2 y known
    have seen : m.image.host.page (n * m.pageBytes) = m.image.host.pages n :=
      congrArg m.image.host.pages address
    have unmapped : (start.image.host.page (n * m.pageBytes)).isSome = false := none.1
    rw [← seen, kept]
    simpa using unmapped
  have can : m.image.host.canMap (x.mapStart m.pageBytes loadBias) length brkFlags (-1) 0 result =
      true := by
    simp only [Host.canMap, Bool.and_eq_true, decide_eq_true_iff]
    exact ⟨⟨⟨⟨aligned, whole.symm ▸ below⟩, by omega⟩, unused⟩, rfl⟩
  refine ⟨result, _, if_pos can, here, ?_⟩
  rintro rfl q ⟨lower, upper⟩
  rw [page] at lower upper
  exact (free q lower (by omega)).1

/-- A segment more. -/
theorem Laid.add {m' : Machine} (opened : start.image.host.inode descriptor = some inode)
    (content : file = fun k => start.image.host.bytes ⟨some inode, k⟩)
    (done : guestMemoryMapLoadSegment descriptor x.toProgramHeader loadBias fileSize e m =
      some (none, m')) :
    Laid file loadBias start (placed ++ [x]) m' := by
  have same : file = fun k => m.image.host.bytes ⟨some inode, k⟩ := by
    rw [content]
    exact funext fun k => (h.files.bytes inode k).symm
  have mapped := mapLoadSegment_mapped (h.files.inode ▸ opened) done
  rw [← same] at mapped
  have added := h.toPlaced.add (mapLoadSegment_loadOk h.ok done) (mapLoadSegment_files done) mapped
  obtain ⟨wrong, -⟩ | ⟨good, -, -, -, placedThere⟩ := mapLoadSegment_cases done
  · exact absurd rfl wrong
  obtain ⟨wrong, -⟩ | ⟨wrong, -⟩ | ⟨-, host, bytes, granted, -, rfl⟩ := placeSegment_cases placedThere
  · exact absurd rfl wrong
  · exact absurd rfl wrong
  have range (q : Nat) : m.image.host.inSpan (x.mapStart m.pageBytes loadBias)
      (x.mapEnd m.pageBytes loadBias - x.mapStart m.pageBytes loadBias)
      (q / m.pageBytes) = true ↔ x.Spans start.pageBytes loadBias q := by
    have whole : m.image.host.pageCount
        (x.mapEnd m.pageBytes loadBias - x.mapStart m.pageBytes loadBias) * m.pageBytes =
        x.mapEnd m.pageBytes loadBias - x.mapStart m.pageBytes loadBias := good.whole
    have positive : 0 < x.mapEnd m.pageBytes loadBias - x.mapStart m.pageBytes loadBias :=
      granted.positive
    rw [← h.page]
    refine (inSpan_iff m.image.host good.aligned _ q).trans (and_congr_right fun _ => ?_)
    show q < x.mapStart m.pageBytes loadBias + m.image.host.pageCount
      (x.mapEnd m.pageBytes loadBias - x.mapStart m.pageBytes loadBias) * m.pageBytes ↔ _
    omega
  have page (q : Nat) : host.page q = if m.image.host.inSpan (x.mapStart m.pageBytes loadBias)
      (x.mapEnd m.pageBytes loadBias - x.mapStart m.pageBytes loadBias) (q / m.pageBytes)
      then some ⟨brkProtection, none, false⟩ else m.image.host.page q := by
    rw [granted.after]
    rfl
  refine ⟨added, ?_, ?_⟩
  · intro y member q spans
    show host.page q = _
    rw [page q]
    split
    · rfl
    · rename_i outside
      rw [List.mem_append, List.mem_singleton] at member
      obtain earlier | rfl := member
      · exact h.new y earlier q spans
      · exact absurd ((range q).mpr spans) outside
  · intro q outside
    show host.page q = _
    rw [page q, if_neg, h.old q]
    · exact fun y known => outside y (List.mem_append_left _ known)
    · intro inside
      exact outside x (List.mem_append_right _ (List.mem_singleton_self x)) ((range q).mp inside)

/-- The calls for a segment that passes the checks: it is placed if its pages are free. -/
theorem Laid.place (opened : start.image.host.inode descriptor = some inode)
    (content : file = fun k => start.image.host.bytes ⟨some inode, k⟩) (loads : x.loads = true)
    (valid : validateProgramHeader x fileSize = true) (fits : start.space.Fits loadBias placed x)
    (grants : start.space.Grants loadBias placed x e.mmap)
    (slots : m.loadSegments.length ≠ maxLoadSegments) :
    (start.space.Free loadBias x →
      (∃ bytes, start.image.host.readExactAt descriptor x.pFilesz x.pOffset e.read =
        some (.ok bytes)) →
      ∃ m', guestMemoryMapLoadSegment descriptor x.toProgramHeader loadBias fileSize e m =
        some (none, m') ∧ Laid file loadBias start (placed ++ [x]) m') ∧
    (¬ start.space.Free loadBias x →
      ∃ m', guestMemoryMapLoadSegment descriptor x.toProgramHeader loadBias fileSize e m =
        some (some .eexist, m')) := by
  obtain ⟨inside, clear⟩ := h.fits_iff.mp fits
  have asks := mapLoadSegment_asks descriptor e loads valid inside clear
  rw [if_neg slots] at asks
  obtain ⟨result, after, mapped, free⟩ := h.granted loads fits grants
  have given := mmap_granted mapped
  unfold Machine.placeSegment at asks
  obtain ⟨errno, failed, -⟩ | ⟨mapping, host, asked, reply⟩ := mmap_cases m
    (x.mapStart m.pageBytes loadBias)
    (x.mapEnd m.pageBytes loadBias - x.mapStart m.pageBytes loadBias) brkProtection brkFlags (-1) 0
    e.mmap
  · rw [mapped] at failed
    cases failed
  rw [reply] at asks
  cases mapped.symm.trans asked
  dsimp only at asks
  constructor
  · rintro unused ⟨bytes, read⟩
    have here := free.mp unused
    have files := h.files.trans (granted_files given)
    rw [if_neg (not_not.mpr here)] at asks
    have again : (m.image.remap after result
        (x.mapEnd m.pageBytes loadBias - x.mapStart m.pageBytes loadBias)).host.readExactAt
          descriptor x.pFilesz x.pOffset e.read = some (.ok bytes) :=
      (readExactAt_congr files ..).trans read
    rw [again] at asks
    exact ⟨_, asks, h.add opened content asks⟩
  · intro used
    rw [if_pos fun here => used (free.mpr here)] at asks
    exact ⟨_, asks⟩

end

end

/-! ## All segments -/

/-- Mapping the segments comes to an end, without an error exactly if they can be placed and
have room in the table; `EEXIST` means that pages of the host are in the way. -/
theorem mapSegments_outcome {file : Nat → UInt8} {loadBias i : Nat} {start m : Machine}
    {placed headers : List ElfProgramHeader} {answer : Nat → SegmentHost}
    (opened : start.image.host.inode descriptor = some inode)
    (content : file = fun k => start.image.host.bytes ⟨some inode, k⟩)
    (valid : ∀ x ∈ headers, validateProgramHeader x fileSize = true)
    (obliges : start.Obliges descriptor loadBias answer i placed headers)
    (h : Laid file loadBias start placed m) (before : start.space.Usable loadBias placed)
    (room : m.loadSegments.length ≤ maxLoadSegments) :
    ∃ error n, mapSegments descriptor loadBias fileSize answer i headers m = some (error, n) ∧
      (error = none ↔ start.space.Usable loadBias (placed ++ headers.filter (·.loads)) ∧
        m.loadSegments.length + (headers.filter (·.loads)).length ≤ maxLoadSegments) ∧
      (error = some .eexist → start.space.Blocked loadBias placed (headers.filter (·.loads))) ∧
      (start.space.Blocked loadBias placed (headers.filter (·.loads)) →
        m.loadSegments.length + (headers.filter (·.loads)).length ≤ maxLoadSegments →
        error = some .eexist) ∧
      (error = none → Laid file loadBias start (placed ++ headers.filter (·.loads)) n) := by
  induction headers generalizing i m placed with
  | nil =>
    refine ⟨none, m, rfl, ?_, fun eexist => ?_, fun way => ?_, fun _ => ?_⟩
    · simpa using ⟨before, room⟩
    · cases eexist
    · cases way
    · simpa using h
  | cons x rest ih =>
    have later : ∀ y ∈ rest, validateProgramHeader y fileSize = true :=
      fun y member => valid y (List.mem_cons_of_mem x member)
    unfold mapSegments
    cases obliges with
    | skip other next =>
      rw [if_neg (by simp [other]), List.filter_cons_of_neg (by simp [other])]
      exact ih later next h before room
    | part loads grants read next =>
      rw [if_pos loads, List.filter_cons_of_pos loads]
      generalize rest.filter (·.loads) = others at ih ⊢
      by_cases fits : start.space.Fits loadBias placed x
      · by_cases slots : m.loadSegments.length = maxLoadSegments
        · -- the table is full
          obtain ⟨inside, clear⟩ := h.fits_iff.mp fits
          rw [mapLoadSegment_asks descriptor (answer i) loads (valid x List.mem_cons_self) inside
            clear, if_pos slots]
          refine ⟨some .e2big, m, rfl, ?_, by simp, fun _ few => ?_, by simp⟩
          · simp only [reduceCtorEq, false_iff, not_and]
            intro _
            rw [List.length_cons]
            omega
          · rw [List.length_cons] at few
            omega
        obtain ⟨there, taken⟩ :=
          h.place opened content loads (valid x List.mem_cons_self) fits (grants fits) slots
        by_cases free : start.space.Free loadBias x
        · obtain ⟨m', mapped, laid⟩ := there free (read fits free)
          have usable := usable_snoc.mpr ⟨before, fits, free⟩
          have length : m'.loadSegments.length = m.loadSegments.length + 1 := by
            simp only [laid.segments, h.segments, List.map_append, List.length_append, List.map_cons,
              List.map_nil, List.length_singleton, Nat.add_assoc]
          obtain ⟨error, n, done, ok, busy, blocked, final⟩ :=
            ih later (next fits free) laid usable (by omega)
          rw [mapped]
          refine ⟨error, n, done, ?_, ?_, ?_, ?_⟩
          · rw [ok, List.append_assoc, List.singleton_append, List.length_cons, length,
              Nat.add_assoc, Nat.add_comm 1]
          · exact fun eexist => .later fits free (busy eexist)
          · intro way few
            rw [List.length_cons] at few
            cases way with
            | here _ used => exact absurd free used
            | later _ _ further => exact blocked further (by omega)
          · intro fine
            have all := final fine
            rwa [List.append_assoc, List.singleton_append] at all
        · obtain ⟨m', busy⟩ := taken free
          rw [busy]
          refine ⟨some .eexist, m', rfl, ?_, fun _ => .here fits free, fun _ _ => rfl, by simp⟩
          simp only [reduceCtorEq, false_iff, not_and]
          exact fun usable => absurd usable.next.2 free
      · rw [mapLoadSegment_refused loads fun checked => fits (h.fits_iff.mpr checked)]
        refine ⟨some .enoexec, m, rfl, ?_, by simp, fun way => ?_, by simp⟩
        · simp only [reduceCtorEq, false_iff, not_and]
          exact fun usable => absurd usable.next.1 fits
        · cases way with
          | here checked _ => exact absurd checked fits
          | later checked _ _ => exact absurd checked fits

end Linuxemu.Guest
