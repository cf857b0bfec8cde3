import Linuxemu.Load
import Linuxemu.MmapOutcome
import Linuxemu.OwnMemory

/-! What a load does, step by step, and how it is undone: putting the patched words back and
unmapping the new segments gives the memory from before. -/
namespace Linuxemu.Guest
open Lib Registry
variable {header : ProgramHeader} {m m' : Machine} {error : Option Errno} {descriptor : Int}
  {e : SegmentHost} {loadBias segmentStart mapLength mapStart fileSize : Nat}

/-! ## Segments -/

/-- Records and segments are only added. -/
structure Extends (m n : Machine) : Prop where
  patches : m.image.patches <+: n.image.patches
  segments : m.loadSegments <+: n.loadSegments

theorem Extends.refl (m : Machine) : Extends m m := ⟨List.prefix_rfl, List.prefix_rfl⟩

/-- A range that a segment can be mapped on, as `guest_memory_map_load_segment` has
checked it. -/
structure GoodRange (m : Machine) (header : ProgramHeader)
    (segmentStart mapStart mapLength : Nat) : Prop where
  below : mapStart ≤ segmentStart
  above : segmentStart + header.pMemsz ≤ mapStart + mapLength
  file : header.pFilesz ≤ header.pMemsz
  aligned : mapStart % m.pageBytes = 0
  whole : m.image.host.pageCount mapLength * m.pageBytes = mapLength
  apart : ∀ y ∈ m.loadSegments,
    y.mapStart + y.mapLength ≤ mapStart ∨ mapStart + mapLength ≤ y.mapStart

theorem fillSegment_onFree {h host : Host} {bytes : List UInt8}
    (change : OnFree h mapStart mapLength host) (image : m.image.host = host)
    (below : mapStart ≤ segmentStart) (file : header.pFilesz ≤ header.pMemsz)
    (above : segmentStart + header.pMemsz ≤
      mapStart + h.pageCount mapLength * h.pageSize.bytes) :
    OnFree h mapStart mapLength
      (m.fillSegment header bytes segmentStart mapStart mapLength).image.host := by
  unfold Machine.fillSegment
  rw [image]
  dsimp only
  refine ((change.fill _ below ?_).fill _ ?_ ?_).fill _ (Nat.le_refl _) ?_ <;> omega

/-- The machine just after the host has mapped these pages. -/
abbrev Machine.given (m : Machine) (host : Host) (mapping length : Nat) : Machine :=
  { m with
    image := m.image.remap host mapping length
    received := some (mapping, alignUp length m.pageBytes) }

/-- How the calls for a segment end: without memory, with memory that goes back to the host,
or with the segment in place. -/
theorem placeSegment_cases
    (done : m.placeSegment descriptor header segmentStart mapStart mapLength e = some (error, m')) :
    (error ≠ none ∧ m' = m) ∨
    (error ≠ none ∧ ∃ mapping host,
      m.image.host.Granted mapStart mapLength brkProtection brkFlags (-1) 0 mapping host ∧
      m' = (m.given host mapping mapLength).munmap mapping mapLength) ∨
    (error = none ∧ ∃ host bytes,
      m.image.host.Granted mapStart mapLength brkProtection brkFlags (-1) 0 mapStart host ∧
      host.readExactAt descriptor header.pFilesz header.pOffset e.read = some (.ok bytes) ∧
      m' = (m.given host mapStart mapLength).fillSegment header bytes segmentStart mapStart
        mapLength) := by
  unfold Machine.placeSegment at done
  obtain ⟨errno, -, result⟩ | ⟨mapping, host, asked, result⟩ :=
    mmap_cases m mapStart mapLength brkProtection brkFlags (-1) 0 e.mmap
  · rw [result] at done
    cases done
    exact .inl ⟨by simp, rfl⟩
  · rw [result, show m.noteFixed brkFlags mapStart (alignUp mapLength m.pageBytes) = m from rfl]
      at done
    have granted := mmap_granted asked
    dsimp only at done
    split at done
    · cases done
      exact .inr (.inl ⟨by simp, mapping, host, granted, rfl⟩)
    · rename_i here
      obtain rfl : mapping = mapStart := not_not.mp here
      split at done
      · cases done
      · cases done
        exact .inr (.inl ⟨by simp, mapping, host, granted, rfl⟩)
      · rename_i bytes read
        cases done
        exact .inr (.inr ⟨rfl, host, bytes, granted, read, rfl⟩)

/-- A range rounded to pages, where that does not wrap. -/
theorem rounded_range (m : Machine) {start stop : Nat} (order : start ≤ stop)
    (small : stop ≤ uintptrMax - (m.pageBytes - 1)) :
    alignDown start m.pageBytes ≤ start ∧ stop ≤ alignUp stop m.pageBytes ∧
      alignDown start m.pageBytes % m.pageBytes = 0 ∧
      alignUp stop m.pageBytes % m.pageBytes = 0 := by
  have inside : start < 2 ^ 32 := by
    unfold uintptrMax at small
    omega
  have down : alignDown start m.pageBytes = start / m.pageBytes * m.pageBytes :=
    alignDown_eq m.image.host inside
  have up : alignUp stop m.pageBytes = m.image.host.pageCount stop * m.pageBytes :=
    alignUp_eq m.image.host small
  refine ⟨?_, ?_, ?_, alignUp_aligned m.image.host _⟩
  · rw [down]
    exact Nat.div_mul_le_self _ _
  · rw [up]
    exact le_pageCount_mul m.image.host _
  · rw [down]
    exact Nat.mul_mod_left _ _

/-- The checks of `guest_memory_map_load_segment` leave a good range. -/
theorem checked_goodRange (file : header.pFilesz ≤ header.pMemsz)
    (small : loadBias + header.pVaddr + header.pMemsz ≤ uintptrMax - (m.pageBytes - 1))
    (valid : m.validateLoadRange (alignDown (loadBias + header.pVaddr) m.pageBytes)
      (alignUp (loadBias + header.pVaddr + header.pMemsz) m.pageBytes) = true) :
    GoodRange m header (loadBias + header.pVaddr)
      (alignDown (loadBias + header.pVaddr) m.pageBytes)
      (alignUp (loadBias + header.pVaddr + header.pMemsz) m.pageBytes -
        alignDown (loadBias + header.pVaddr) m.pageBytes) := by
  obtain ⟨low, high, start, stop⟩ := rounded_range m (Nat.le_add_right _ header.pMemsz) small
  generalize alignDown (loadBias + header.pVaddr) m.pageBytes = mapStart at *
  generalize alignUp (loadBias + header.pVaddr + header.pMemsz) m.pageBytes = mapEnd at *
  simp only [Machine.validateLoadRange, Bool.and_eq_true, Bool.not_eq_true', Bool.or_eq_false_iff,
    decide_eq_false_iff_not, List.any_eq_false, rangesOverlap, decide_eq_true_iff] at valid
  obtain ⟨⟨⟨-, nonempty⟩, -⟩, overlaps⟩ := valid
  refine ⟨low, by omega, file, start, pageCount_exact m.image.host ?_, ?_⟩
  · exact Nat.sub_mod_eq_zero_of_mod_eq (stop.trans start.symm)
  · intro y known
    have := overlaps y known
    omega

/-- Either a check fails, or the host is asked for a good range of the window. -/
theorem mapLoadSegment_cases
    (done : guestMemoryMapLoadSegment descriptor header loadBias fileSize e m = some (error, m')) :
    let mapStart := alignDown (loadBias + header.pVaddr) m.pageBytes
    let mapEnd := alignUp (loadBias + header.pVaddr + header.pMemsz) m.pageBytes
    (error ≠ none ∧ m' = m) ∨
    (GoodRange m header (loadBias + header.pVaddr) mapStart (mapEnd - mapStart) ∧
      guestMinAddress ≤ mapStart ∧ mapStart + (mapEnd - mapStart) ≤ guestMaxAddress ∧
      m.loadSegments.length ≠ maxLoadSegments ∧
      m.placeSegment descriptor header (loadBias + header.pVaddr) mapStart (mapEnd - mapStart) e =
        some (error, m')) := by
  intro mapStart mapEnd
  unfold guestMemoryMapLoadSegment at done
  dsimp only at done
  split at done
  · cases done
    exact .inl ⟨by simp, rfl⟩
  split at done
  · cases done
    exact .inl ⟨by simp, rfl⟩
  split at done
  · cases done
    exact .inl ⟨by simp, rfl⟩
  split at done
  · cases done
    exact .inl ⟨by simp, rfl⟩
  split at done
  · cases done
    exact .inl ⟨by simp, rfl⟩
  · rename_i sizes room small valid free
    replace valid : m.validateLoadRange mapStart mapEnd = true := by simpa using valid
    have window : guestMinAddress ≤ mapStart ∧ mapStart < mapEnd ∧ mapEnd ≤ guestMaxAddress := by
      simp only [Machine.validateLoadRange, Bool.and_eq_true, Bool.not_eq_true',
        Bool.or_eq_false_iff, decide_eq_false_iff_not] at valid
      omega
    exact .inr ⟨checked_goodRange (by omega) (by omega) valid, window.1, by omega, free, done⟩

theorem fillSegment_files {h : Host} (kept : FilesKept h m.image.host) (header : ProgramHeader)
    (bytes : List UInt8) (segmentStart mapStart mapLength : Nat) :
    FilesKept h (m.fillSegment header bytes segmentStart mapStart mapLength).image.host :=
  kept.trans ⟨rfl, rfl, rfl, fun f i => by simp [Machine.fillSegment, Host.fill]⟩

theorem placeSegment_files
    (done : m.placeSegment descriptor header segmentStart mapStart mapLength e = some (error, m')) :
    FilesKept m.image.host m'.image.host := by
  obtain ⟨-, rfl⟩ | ⟨-, mapping, host, granted, rfl⟩ | ⟨-, host, bytes, granted, -, rfl⟩ :=
    placeSegment_cases done
  · exact .refl _
  · exact (granted_files granted).trans ⟨rfl, rfl, rfl, fun _ _ => rfl⟩
  · exact fillSegment_files (granted_files granted) ..

theorem mapLoadSegment_files
    (done : guestMemoryMapLoadSegment descriptor header loadBias fileSize e m = some (error, m')) :
    FilesKept m.image.host m'.image.host := by
  obtain ⟨-, rfl⟩ | ⟨-, -, -, -, placed⟩ := mapLoadSegment_cases done
  · exact .refl _
  · exact placeSegment_files placed

/-! ## Putting words back -/

theorem restore_intact {records : List PatchRecord} {s s' t : Image}
    (same : Intact s.host s'.host) (done : s.restore records = some t) :
    ∃ t', s'.restore records = some t' ∧ Intact t.host t'.host := by
  induction records generalizing s s' with
  | nil =>
    cases done
    exact ⟨s', rfl, same⟩
  | cons r rest ih =>
    unfold Image.restore at done ⊢
    split at done
    · cases done
    · rename_i host stored
      obtain ⟨host', storedToo, next⟩ := same.storeWord stored
      rw [storedToo]
      exact ih next done

/-! ## What a load has added -/

/-- `n` is `m` with new segments, on pages that were free, and with patches that can be
taken back. -/
structure Grown (m n : Machine) : Prop where
  more : Extends m n
  undo : ∃ image, armPatchRollback m.image.patches.length n.image = some image ∧
    Intact m.image.host image.host
  free : ∀ x ∈ n.loadSegments.drop m.loadSegments.length, ∀ page,
    m.image.host.inSpan x.mapStart x.mapLength page = true → m.image.host.pages page = none
  new : ∀ page, m.image.host.pages page = none → n.image.host.pages page ≠ none →
    ∃ x ∈ n.loadSegments.drop m.loadSegments.length,
      m.image.host.inSpan x.mapStart x.mapLength page = true

section
variable {m a b : Machine}

theorem Grown.refl (m : Machine) : Grown m m := by
  refine ⟨.refl m, ⟨m.image, ?_, .refl _⟩, ?_, fun _ none some => absurd none some⟩
  · simp [armPatchRollback, Image.restore]
  · simp

section
variable (grown : Grown m a)
include grown

/-- Pages of `m` are there, and so is the size of a page. -/
theorem Grown.pages : a.image.host.pageSize = m.image.host.pageSize ∧
    ∀ page, m.image.host.pages page ≠ none → a.image.host.pages page = m.image.host.pages page := by
  obtain ⟨image, undone, same⟩ := grown.undo
  obtain ⟨⟨bytes, frame⟩, -, -⟩ := armPatchRollback_spec undone
  have size : a.image.host.pageSize = m.image.host.pageSize := by
    rw [← same.kept.pageSize, frame]
  refine ⟨size, fun page there => ?_⟩
  have whole : page * m.image.host.pageSize.bytes / m.image.host.pageSize.bytes = page :=
    Nat.mul_div_cancel _ m.image.host.pageSize.bytes_pos
  have kept := same.kept.page (page * m.image.host.pageSize.bytes)
  rw [Host.page, Host.page, same.kept.pageSize, whole, frame] at kept
  exact kept (Option.isSome_iff_ne_none.mpr there)

/-- A change of what `m` has not mapped. -/
theorem Grown.undo_intact (patches : b.image.patches = a.image.patches)
    (same : Intact a.image.host b.image.host) :
    ∃ image, armPatchRollback m.image.patches.length b.image = some image ∧
      Intact m.image.host image.host := by
  obtain ⟨image, undone, first⟩ := grown.undo
  unfold armPatchRollback at undone ⊢
  rw [patches]
  obtain ⟨image', undone', second⟩ := restore_intact (show Intact
    ({ a.image with patches := a.image.patches.take m.image.patches.length } : Image).host
    ({ b.image with patches := a.image.patches.take m.image.patches.length } : Image).host
      from same) undone
  exact ⟨image', undone', first.trans second⟩

/-- A step that ends with the segments, the records and the pages that it began with. -/
theorem Grown.keep (segments : b.loadSegments = a.loadSegments)
    (patches : b.image.patches = a.image.patches) (pages : b.image.host.pages = a.image.host.pages)
    (same : Intact a.image.host b.image.host) : Grown m b := by
  refine ⟨⟨patches ▸ grown.more.patches, segments ▸ grown.more.segments⟩,
    grown.undo_intact patches same, ?_, ?_⟩
  · rw [segments]
    exact grown.free
  · rw [segments, pages]
    exact grown.new

theorem Grown.drop_segments (x : LoadSegment) :
    (a.loadSegments ++ [x]).drop m.loadSegments.length =
      a.loadSegments.drop m.loadSegments.length ++ [x] :=
  List.drop_append_of_le_length grown.more.segments.length_le

/-- A segment more. -/
theorem Grown.segment {x : LoadSegment} (segments : b.loadSegments = a.loadSegments ++ [x])
    (patches : b.image.patches = a.image.patches)
    (change : OnFree a.image.host x.mapStart x.mapLength b.image.host)
    (files : FilesKept a.image.host b.image.host) : Grown m b := by
  obtain ⟨size, there⟩ := grown.pages
  have span (page : Nat) : a.image.host.inSpan x.mapStart x.mapLength page =
      m.image.host.inSpan x.mapStart x.mapLength page := inSpan_congr size ..
  refine ⟨⟨patches ▸ grown.more.patches, ?_⟩, grown.undo_intact patches ⟨change.kept, files⟩,
    ?_, ?_⟩
  · rw [segments]
    exact grown.more.segments.trans (List.prefix_append _ _)
  · rw [segments, grown.drop_segments]
    intro y known page inside
    obtain old | last := List.mem_append.mp known
    · exact grown.free y old page inside
    · obtain rfl := List.mem_singleton.mp last
      by_contra mapped
      rw [← span] at inside
      exact mapped ((there page mapped).symm.trans (change.free page inside))
  · rw [segments, grown.drop_segments]
    intro page unmapped mapped
    cases inside : m.image.host.inSpan x.mapStart x.mapLength page with
    | true => exact ⟨x, List.mem_append_right _ (List.mem_singleton_self x), inside⟩
    | false =>
      rw [change.pages page ((span page).trans inside)] at mapped
      obtain ⟨y, known, holds⟩ := grown.new page unmapped mapped
      exact ⟨y, List.mem_append_left _ known, holds⟩

/-- A scan more. -/
theorem Grown.code {within : Nat → Prop} {image : Image} (scan : Patched within a.image image) :
    Grown m { a with image } := by
  obtain ⟨bytes, frame⟩ := scan.frame
  obtain ⟨records, appended, restore⟩ := scan.restore
  have pages : image.host.pages = a.image.host.pages := by rw [frame]
  refine ⟨⟨?_, grown.more.segments⟩, ?_, grown.free, ?_⟩
  · show m.image.patches <+: image.patches
    rw [appended]
    exact grown.more.patches.trans (List.prefix_append _ _)
  · obtain ⟨last, undone, first⟩ := grown.undo
    have count := grown.more.patches.length_le
    obtain ⟨u, back, host, patches⟩ := restore (image.patches.take m.image.patches.length)
    -- The records of the scan are the newest, so they go first.
    have same : Intact ({ a.image with
        patches := a.image.patches.take m.image.patches.length } : Image).host u.host := by
      rw [host]
      exact .refl _
    obtain ⟨u', undone', second⟩ := restore_intact same undone
    refine ⟨u', ?_, first.trans second⟩
    show armPatchRollback m.image.patches.length image = some u'
    rw [armPatchRollback]
    nth_rewrite 1 [appended]
    rw [List.drop_append_of_le_length count, List.reverse_append, restore_append, back]
    exact undone'
  · show ∀ page, _ → image.host.pages page ≠ none → _
    rw [pages]
    exact grown.new

end

end

/-! ## Undoing it -/

theorem unmapSegments_pages (gone : List LoadSegment) (m : Machine) :
    (m.unmapSegments gone).image.patches = m.image.patches ∧
      ∃ pages, (m.unmapSegments gone).image.host = { m.image.host with pages } ∧
        ∀ page, pages page =
          if gone.any fun x => m.image.host.inSpan x.mapStart x.mapLength page then none
          else m.image.host.pages page := by
  induction gone generalizing m with
  | nil => exact ⟨rfl, m.image.host.pages, rfl, fun _ => rfl⟩
  | cons x rest ih =>
    obtain ⟨patches, pages, host, shown⟩ := ih (m.munmap x.mapStart x.mapLength)
    refine ⟨patches, pages, host, fun page => ?_⟩
    rw [shown page, List.any_cons]
    have span (y : LoadSegment) :
        (m.munmap x.mapStart x.mapLength).image.host.inSpan y.mapStart y.mapLength page =
          m.image.host.inSpan y.mapStart y.mapLength page := inSpan_congr rfl ..
    simp only [span]
    show (if _ then none else if m.image.host.inSpan x.mapStart x.mapLength page then none
      else m.image.host.pages page) = _
    cases m.image.host.inSpan x.mapStart x.mapLength page <;> simp

/-- The tables, the mapped pages and the words in memory are as they were. -/
structure Machine.SameMemory (m m' : Machine) : Prop where
  segments : m'.loadSegments = m.loadSegments
  patches : m'.image.patches = m.image.patches
  pages : m'.image.host.pages = m.image.host.pages
  words : ∀ a, a % 4 = 0 → m'.image.host.peek a = m.image.host.peek a

/-- Undoing a load never faults, and gives back what was there. -/
theorem Grown.undone {n : Machine} (grown : Grown m n) :
    ∃ image, armPatchRollback m.image.patches.length n.image = some image ∧
      let m' := guestMemoryRollback m.loadSegments.length { n with image }
      m.SameMemory m' ∧ Intact m.image.host m'.image.host := by
  obtain ⟨size, there⟩ := grown.pages
  obtain ⟨image, undone, same⟩ := grown.undo
  obtain ⟨⟨bytes, frame⟩, taken, -⟩ := armPatchRollback_spec undone
  obtain ⟨patches, pages, host, shown⟩ := unmapSegments_pages
    (n.loadSegments.drop m.loadSegments.length).reverse { n with image }
  have back : pages = m.image.host.pages := by
    funext page
    have span (x : LoadSegment) : image.host.inSpan x.mapStart x.mapLength page =
        m.image.host.inSpan x.mapStart x.mapLength page := inSpan_congr same.kept.pageSize ..
    rw [shown page]
    simp only [span]
    split
    · rename_i inside
      obtain ⟨x, known, holds⟩ := List.any_eq_true.mp inside
      exact (grown.free x (List.mem_reverse.mp known) page holds).symm
    · rename_i outside
      show image.host.pages page = m.image.host.pages page
      rw [frame]
      by_contra changed
      have unmapped : m.image.host.pages page = none := by
        by_contra mapped
        exact changed (there page mapped)
      obtain ⟨x, known, holds⟩ := grown.new page unmapped (unmapped ▸ changed)
      exact outside (List.any_eq_true.mpr ⟨x, List.mem_reverse.mpr known, holds⟩)
  generalize final : guestMemoryRollback m.loadSegments.length { n with image } = m'
  have memory : m'.image.host = { image.host with pages } := final ▸ host
  have intact : Intact m.image.host m'.image.host := by
    rw [memory, back]
    exact ⟨⟨same.kept.pageSize, fun a _ => by simp [Host.page, same.kept.pageSize], same.kept.bytes⟩,
      ⟨same.files.pageSize, same.files.inode, same.files.size, same.files.bytes⟩⟩
  have samePages : m'.image.host.pages = m.image.host.pages := by
    rw [memory]
    exact back
  refine ⟨image, undone, ?_⟩
  rw [final]
  refine ⟨⟨?_, ?_, samePages, ?_⟩, intact⟩
  · rw [← final]
    exact List.prefix_iff_eq_take.mp grown.more.segments |>.symm
  · rw [← final]
    exact (patches.trans taken).trans (List.prefix_iff_eq_take.mp grown.more.patches).symm
  · exact fun a aligned => intact.peek samePages aligned

/-! ## Attempts -/

theorem mapLoadSegment_grown {a b : Machine} (grown : Grown m a)
    (done : guestMemoryMapLoadSegment descriptor header loadBias fileSize e a = some (error, b)) :
    Grown m b := by
  have files := mapLoadSegment_files done
  obtain ⟨-, rfl⟩ | ⟨good, -, -, -, placed⟩ := mapLoadSegment_cases done
  · exact grown
  obtain ⟨-, rfl⟩ | ⟨-, mapping, host, granted, rfl⟩ | ⟨-, host, bytes, granted, -, rfl⟩ :=
    placeSegment_cases placed
  · exact grown
  · have change := granted_onFree granted rfl
    exact grown.keep rfl rfl change.munmap_pages ⟨change.munmap.kept, files⟩
  · have change := granted_onFree granted rfl
    refine grown.segment rfl rfl ?_ files
    exact fillSegment_onFree change rfl good.below good.file (good.whole.symm ▸ good.above)

theorem attempt_grown {a n : Machine} (grown : Grown m a) (attempt : Attempt a n) :
    Grown m n := by
  induction attempt with
  | start => exact grown
  | segment _ mapped ih => exact mapLoadSegment_grown ih mapped
  | code _ _ patched ih => exact ih.code (armPatchRange_patched patched)

end Linuxemu.Guest
