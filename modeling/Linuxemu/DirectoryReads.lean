import Linuxemu.DirentLoop

/-! Directories read with `getdents64`. The calls on one descriptor return the records of the
listing one after the other. A record too large for the buffer is put back but not reported, and
`lseek` does not reach the stream. -/
namespace Linuxemu.Dir
open Linuxemu.Path (Text)
open Fd
open Lib
variable {rs : List Record} {r : Record}
variable {r' : Record} {next n : Nat}

inductive DirCall where
  | getdents (capacity : UInt32)
  | lseek (wide : Bool) (offset : UInt64) (refused : Option Errno)

/-- The answers to the `getdents64` calls among these on one descriptor. -/
def run (opendir : Text → Except Errno HostDirectory) (fd : Int) :
    Tables → List DirCall → List Answer × Tables
  | t, [] => ([], t)
  | t, .getdents capacity :: calls =>
    let (answer, t) := t.linuxGetdents64 opendir fd capacity
    let (answers, t) := run opendir fd t calls
    (answer :: answers, t)
  | t, .lseek wide offset refused :: calls =>
    run opendir fd (t.linuxLseek wide fd offset refused).2 calls

/-- The descriptor is read by this stream, which may not be open yet. -/
structure ReadBy (opendir : Text → Except Errno HostDirectory) (fd : Int) (t : Tables)
    (i : Fin maxTrackedFds) (s : Stream) : Prop where
  index : tracked fd = some i
  stream : t.streams i = some s ∨ t.streams i = none ∧
    ∃ path d, t.fds.fdPaths i = some path ∧ opendir path = .ok d ∧ s = .opened d

variable {opendir : Text → Except Errno HostDirectory} {fd : Int} {t : Tables}
  {i : Fin maxTrackedFds} {s : Stream} {d : HostDirectory}

/-! ## The place of the stream -/

theorem ReadBy.getdents (read : ReadBy opendir fd t i s) (capacity : UInt32) :
    t.linuxGetdents64 opendir fd capacity = t.fill i s capacity := by
  unfold Tables.linuxGetdents64
  rw [read.index]
  obtain opened | ⟨closed, path, d, named, opens, rfl⟩ := read.stream
  · simp only [opened]
  · simp only [closed, named, opens]

theorem ReadBy.fill (read : ReadBy opendir fd t i s) (capacity : UInt32) :
    ReadBy opendir fd (t.fill i s capacity).2 i (fillLoop capacity.toNat s []).stream := by
  refine ⟨read.index, .inl ?_⟩
  simp only [Tables.fill, Tables.setStream, Function.update_self]

theorem ReadBy.lseek (read : ReadBy opendir fd t i s) (wide : Bool) (offset : UInt64)
    (refused : Option Errno) : ReadBy opendir fd (t.linuxLseek wide fd offset refused).2 i s := by
  unfold Tables.linuxLseek
  split
  · exact read
  · exact ⟨read.index, read.stream⟩

/-- These records of the directory were returned, and the stream stands behind them. -/
structure Returned (d : HostDirectory) (s : Stream) (rs : List Record) : Prop where
  directory : s.directory = d
  within : s.position ≤ d.records.length
  records : rs = d.records.take s.position

theorem Returned.opened (d : HostDirectory) : Returned d (.opened d) [] :=
  ⟨rfl, Nat.zero_le _, rfl⟩

theorem Returned.length (returned : Returned d s rs) :
    rs.length = s.position := by
  have := returned.within
  rw [returned.records, List.length_take]
  omega

theorem Returned.fill (returned : Returned d s rs) (capacity : Nat) :
    ∃ more, (fillLoop capacity s []).buffer = more.flatMap Record.encode ∧
      (fillLoop capacity s []).buffer.length ≤ capacity ∧
      Returned d (fillLoop capacity s []).stream (rs ++ more) := by
  obtain ⟨rfl, within, sofar⟩ := returned
  obtain ⟨n, reads, bound, stream, buffer, fits⟩ :=
    fillLoop_outcome within (show ([] : List UInt8).length ≤ capacity from Nat.zero_le _)
  refine ⟨_, buffer, fits, ?_⟩
  rw [stream]
  refine ⟨rfl, bound, ?_⟩
  rw [sofar, ← List.take_add]

/-- What the answers to a run of calls hold. -/
theorem run_returned (read : ReadBy opendir fd t i s) (returned : Returned d s rs)
    (calls : List DirCall) :
    ∃ (rss : List (List Record)) (s' : Stream), (run opendir fd t calls).1.map Answer.bytes =
        rss.map (·.flatMap Record.encode) ∧
      ReadBy opendir fd (run opendir fd t calls).2 i s' ∧ Returned d s' (rs ++ rss.flatten) := by
  induction calls generalizing t s rs with
  | nil => exact ⟨[], s, rfl, read, by simpa using returned⟩
  | cons call calls ih =>
    cases call with
    | getdents capacity =>
      obtain ⟨more, bytes, -, next⟩ := returned.fill capacity.toNat
      obtain ⟨rss, s', answers, read', all⟩ := ih (read.fill capacity) next
      refine ⟨more :: rss, s', ?_, ?_, by simpa using all⟩
      · simp only [run, read.getdents, List.map_cons, answers]
        rw [← bytes]
        rfl
      · simpa only [run, read.getdents] using read'
    | lseek wide offset refused =>
      simp only [run]
      exact ih (read.lseek wide offset refused) returned

/-! ## The listing -/

theorem int32_small (small : n < 2 ^ 31) : int32 n = n := by
  have exact : (BitVec.ofNat 32 n).toNat = n := by
    rw [BitVec.toNat_ofNat, Nat.mod_eq_of_lt (by omega)]
  rw [int32, BitVec.toInt_eq_toNat_of_lt (by omega), exact]

/-- An answer is within its buffer, and says how much of it was filled unless it is an error. -/
structure Bounded (capacity : UInt32) (answer : Answer) : Prop where
  within : answer.result ≤ capacity.toNat
  length : answer.result = answer.bytes.length ∨ answer.result < 0 ∧ answer.bytes = []

theorem fill_bounded {capacity : UInt32} (small : capacity.toNat < 2 ^ 31)
    (fits : (fillLoop capacity.toNat s []).buffer.length ≤ capacity.toNat) :
    Bounded capacity (t.fill i s capacity).1 := by
  unfold Tables.fill
  dsimp only
  split
  · rename_i errno empty failed
    have negative := linuxError_neg errno
    exact ⟨by dsimp only; omega, .inr ⟨negative, empty⟩⟩
  · rw [int32_small (by omega)]
    exact ⟨by dsimp only; omega, .inl rfl⟩

theorem run_bounded (read : ReadBy opendir fd t i s) (returned : Returned d s rs)
    {capacities : List UInt32} (small : ∀ capacity ∈ capacities, capacity.toNat < 2 ^ 31) :
    List.Forall₂ Bounded capacities (run opendir fd t (capacities.map .getdents)).1 := by
  induction capacities generalizing t s rs with
  | nil => exact .nil
  | cons capacity capacities ih =>
    obtain ⟨more, -, fits, next⟩ := returned.fill capacity.toNat
    simp only [List.map_cons, run, read.getdents]
    apply List.Forall₂.cons
    · exact fill_bounded (small capacity List.mem_cons_self) fits
    · exact ih (read.fill capacity) next fun c member => small c (List.mem_cons_of_mem _ member)

theorem records_legible (short : ∀ entry ∈ d.listing, entry.name.length ≤ 255)
    (member : r ∈ d.records) : 0 ∉ r.name ∧ r.size < 65536 := by
  obtain ⟨j, found⟩ := List.getElem?_of_mem member
  rw [HostDirectory.records_at, Option.map_eq_some_iff] at found
  obtain ⟨entry, listed, rfl⟩ := found
  have bound := short entry (List.mem_of_getElem? listed)
  refine ⟨entry.whole, ?_⟩
  unfold Record.size
  dsimp only
  omega

theorem records_entries (d : HostDirectory) :
    d.records.map (fun r => (r.inode, r.name)) = d.listing.map fun e => (e.inode, e.name) := by
  apply List.ext_getElem?
  intro j
  rw [List.getElem?_map, List.getElem?_map, HostDirectory.records_at, Option.map_map]
  rfl

/-- The answers hold records of the listing, in its order, with none left out and none twice. -/
theorem getdents_enumerates (read : ReadBy opendir fd t i (.opened d))
    (short : ∀ entry ∈ d.listing, entry.name.length ≤ 255) (capacities : List UInt32)
    (small : ∀ capacity ∈ capacities, capacity.toNat < 2 ^ 31) :
    let answers := (run opendir fd t (capacities.map .getdents)).1
    List.Forall₂ Bounded capacities answers ∧
    ∃ rss : List (List Record), answers.map (parse ·.bytes) = rss.map some ∧
      rss.flatten.map (fun r => (r.inode, r.name)) <+: d.listing.map fun e => (e.inode, e.name) := by
  intro answers
  constructor
  · exact run_bounded read (.opened d) small
  · obtain ⟨rss, s', bytes, -, all⟩ :=
      run_returned read (.opened d) (capacities.map DirCall.getdents)
    rw [List.nil_append] at all
    have returned : rss.flatten <+: d.records := by
      rw [all.records]
      exact List.take_prefix _ _
    refine ⟨rss, ?_, ?_⟩
    · have legible : ∀ rs ∈ rss, parse (rs.flatMap Record.encode) = some rs := by
        intro rs member
        apply parse_records
        intro r inside
        exact records_legible short (returned.subset (List.mem_flatten_of_mem member inside))
      have split : answers.map (parse ·.bytes) = (answers.map Answer.bytes).map parse := by
        rw [List.map_map]
        rfl
      rw [split, bytes, List.map_map]
      exact List.map_congr_left legible
    · rw [← records_entries]
      exact returned.map _

/-- Three entries, and numbers 16 apart for the places between them. -/
def smallDirectory : HostDirectory where
  listing := [⟨2, Path.bytes ".", by decide +kernel⟩, ⟨2, Path.bytes "..", by decide +kernel⟩,
    ⟨7, Path.bytes "passwd", by decide +kernel⟩]
  tell i := .ofNat (16 * i)
  seek offset := offset.toNat / 16
  fault _ := none
  seek_tell := by decide

def smallTables : Tables where
  fds := ⟨⟨16, fun _ => none, 0⟩, fun k => if k.val = 3 then some (Path.bytes "/root/etc") else none,
    fun _ => 0⟩
  streams _ := none
  offsets _ := 0

def smallOpendir (path : Text) : Except Errno HostDirectory :=
  if path = Path.bytes "/root/etc" then .ok smallDirectory else .error .enotdir

theorem small_read : ReadBy smallOpendir 3 smallTables ⟨3, by decide⟩ (.opened smallDirectory) :=
  ⟨by decide, .inr ⟨rfl, Path.bytes "/root/etc", smallDirectory, rfl, if_pos rfl, rfl⟩⟩

/-- A buffer for one entry, one for none, and one for the others. -/
theorem getdents_enumerates_small :
    let answers := (run smallOpendir 3 smallTables [.getdents 30, .getdents 8, .getdents 100]).1
    answers.map Answer.result = [24, 0, 56] ∧
    ∃ rss : List (List Record), answers.map (parse ·.bytes) = rss.map some ∧
      rss.flatten.map (fun r => (r.inode, r.name)) <+:
        smallDirectory.listing.map fun e => (e.inode, e.name) := by
  intro answers
  have computed : answers.map Answer.result = [24, 0, 56] ∧
      ∀ entry ∈ smallDirectory.listing, entry.name.length ≤ 255 := by
    decide +kernel
  refine ⟨computed.1, (getdents_enumerates small_read computed.2 [30, 8, 100] ?_).2⟩
  simp

/-! ## The end of the listing -/

section Next
variable {capacity : UInt32}

theorem fill_fault {errno : Errno} (failed : s.directory.fault s.reads = some errno) :
    (t.fill i s capacity).1 = ⟨linuxError errno, []⟩ := by
  unfold Tables.fill
  rw [fillLoop_fault failed]

theorem fill_end (reads : s.directory.fault s.reads = none)
    (ending : s.directory.records[s.position]? = none) : (t.fill i s capacity).1 = ⟨0, []⟩ := by
  unfold Tables.fill
  rw [fillLoop_end reads ending]
  rfl

/-- A record that is too large for an empty buffer looks like the end. -/
theorem fill_full (reads : s.directory.fault s.reads = none)
    (next : s.directory.records[s.position]? = some r) (full : capacity.toNat < r.size) :
    (t.fill i s capacity).1 = ⟨0, []⟩ := by
  unfold Tables.fill
  rw [fillLoop_full reads next full]
  rfl

theorem int32_ne_zero (positive : 0 < n) (fits : n < 2 ^ 32) : int32 n ≠ 0 := by
  intro zero
  have same : BitVec.ofNat 32 n = 0#32 := by
    apply BitVec.toInt_inj.mp
    rw [BitVec.toInt_zero]
    exact zero
  have := congrArg BitVec.toNat same
  rw [BitVec.toNat_ofNat, Nat.mod_eq_of_lt fits, BitVec.toNat_zero] at this
  omega

theorem fill_fits (reads : s.directory.fault s.reads = none)
    (next : s.directory.records[s.position]? = some r) (room : r.size ≤ capacity.toNat) :
    (t.fill i s capacity).1.result ≠ 0 ∧ r.encode <+: (t.fill i s capacity).1.bytes := by
  obtain ⟨below, -⟩ := List.getElem?_eq_some_iff.mp next
  have length := r.encode_length
  have covers := r.size_covers
  obtain ⟨n, reads', -, -, buffer, fits⟩ := fillLoop_outcome
    (s := { s with position := s.position + 1, reads := s.reads + 1 }) below
    (show ([] ++ r.encode).length ≤ capacity.toNat by rw [List.nil_append]; omega)
  rw [← fillLoop_fits reads next room] at buffer fits
  rw [List.nil_append] at buffer
  have first : r.encode <+: (fillLoop capacity.toNat s []).buffer := by
    rw [buffer]
    exact List.prefix_append _ _
  have longer := first.length_le
  refine ⟨?_, first⟩
  unfold Tables.fill
  dsimp only
  split
  · rename_i empty _
    rw [empty, List.length_nil] at longer
    omega
  · have := capacity.toNat_lt
    exact int32_ne_zero (by omega) (by omega)

/-- When one call is honest about the end. -/
theorem fill_zero_iff {ended : Prop}
    (whole : s.directory.records[s.position]? = none → ended) :
    (((t.fill i s capacity).1.result = 0 → ended) ∧
      ∀ r, s.directory.records[s.position]? = some r → capacity.toNat < r.size →
        (t.fill i s capacity).1.result < 0) ↔
    ∀ r, s.directory.records[s.position]? = some r → capacity.toNat < r.size →
      s.directory.fault s.reads ≠ none := by
  cases failed : s.directory.fault s.reads with
  | some errno =>
    rw [fill_fault failed]
    have negative := linuxError_neg errno
    constructor
    · intro _ r _ _
      exact Option.some_ne_none errno
    · intro _
      exact ⟨fun zero => absurd zero (by dsimp only; omega), fun _ _ _ => negative⟩
  | none =>
    cases next : s.directory.records[s.position]? with
    | none =>
      rw [fill_end failed next]
      constructor
      · intro _ r none
        cases none
      · intro _
        refine ⟨fun _ => whole next, ?_⟩
        intro r none
        cases none
    | some r =>
      by_cases room : r.size ≤ capacity.toNat
      · obtain ⟨nonzero, -⟩ := fill_fits (t := t) (i := i) failed next room
        constructor
        · intro _ r' same large
          cases same
          omega
        · intro _
          refine ⟨fun zero => absurd zero nonzero, ?_⟩
          intro r' same large
          cases same
          omega
      · have large := Nat.not_le.mp room
        rw [fill_full failed next large]
        constructor
        · rintro ⟨-, refused⟩
          exact absurd (refused r rfl large) (Int.lt_irrefl 0)
        · intro failing
          exact absurd rfl (failing r rfl large)

end Next

/-- A result of 0 means the end, and a record too large for the buffer is an error, just when the
next record is not too large or the host fails to read it. -/
theorem zero_at_end_iff (read : ReadBy opendir fd t i (.opened d)) (calls : List DirCall)
    (capacity : UInt32) :
    let answers := (run opendir fd t calls).1
    let answer := ((run opendir fd t calls).2.linuxGetdents64 opendir fd capacity).1
    ∃ (rss : List (List Record)) (s : Stream),
      answers.map Answer.bytes = rss.map (·.flatMap Record.encode) ∧
      ReadBy opendir fd (run opendir fd t calls).2 i s ∧ Returned d s rss.flatten ∧
      ((answer.result = 0 → rss.flatten = d.records) ∧
        (∀ r, d.records[rss.flatten.length]? = some r → capacity.toNat < r.size →
          answer.result < 0) ↔
        ∀ r, d.records[rss.flatten.length]? = some r → capacity.toNat < r.size →
          d.fault s.reads ≠ none) := by
  intro answers answer
  obtain ⟨rss, s, bytes, read', all⟩ := run_returned read (.opened d) calls
  rw [List.nil_append] at all
  refine ⟨rss, s, bytes, read', all, ?_⟩
  have filled : answer = ((run opendir fd t calls).2.fill i s capacity).1 := by
    rw [← read'.getdents]
  rw [filled, all.length]
  obtain ⟨rfl, within, records⟩ := all
  apply fill_zero_iff
  intro next
  rw [records, List.take_of_length_le (List.getElem?_eq_none_iff.mp next)]

theorem zero_at_end_small :
    let calls := [DirCall.getdents 100]
    let answer := ((run smallOpendir 3 smallTables calls).2.linuxGetdents64 smallOpendir 3 100).1
    answer.result = 0 ∧ ∃ rss : List (List Record),
      (run smallOpendir 3 smallTables calls).1.map Answer.bytes =
        rss.map (·.flatMap Record.encode) ∧ rss.flatten = smallDirectory.records := by
  intro calls answer
  have zero : answer.result = 0 := by decide +kernel
  have sizes : ∀ r ∈ smallDirectory.records, r.size ≤ 100 := by decide +kernel
  obtain ⟨rss, s, bytes, -, -, told⟩ := zero_at_end_iff small_read calls 100
  refine ⟨zero, rss, bytes, (told.mpr ?_).1 zero⟩
  intro r next large
  exact absurd large (Nat.not_lt.mpr (sizes r (List.mem_of_getElem? next)))

/-- The first entry does not fit, and the guest is told that there is none. -/
theorem large_entry_hidden :
    (smallTables.linuxGetdents64 smallOpendir 3 8).1 = ⟨0, []⟩ ∧
    ∃ r, smallDirectory.records[0]? = some r ∧ 8 < r.size :=
  ⟨by decide +kernel, ⟨2, 16, Path.bytes "."⟩, by decide +kernel, by decide +kernel⟩

/-! ## Seeking -/

/-- The place that an offset stands for: the start, or that behind the record that carried it. -/
inductive Target (d : HostDirectory) : UInt64 → Nat → Prop
  | start : Target d 0 0
  | behind {j : Nat} {r : Record} (carried : d.records[j]? = some r) : Target d r.offset (j + 1)

theorem Target.within {offset : UInt64} (target : Target d offset next) :
    next ≤ d.records.length := by
  cases target with
  | start => exact Nat.zero_le _
  | behind carried => exact (List.getElem?_eq_some_iff.mp carried).1

/-- The answer holds records from this place on, one at least if it fits and can be read. -/
structure StartsAt (d : HostDirectory) (next : Nat) (capacity : UInt32) (answer : Answer) :
    Prop where
  records : ∃ n, answer.bytes = ((d.records.drop next).take n).flatMap Record.encode
  first : ∀ r, d.records[next]? = some r → r.size ≤ capacity.toNat → answer.bytes = [] →
    answer.result < 0

theorem fill_starts (within : s.position ≤ s.directory.records.length) (capacity : UInt32) :
    StartsAt s.directory s.position capacity (t.fill i s capacity).1 := by
  obtain ⟨n, reads, -, -, buffer, -⟩ :=
    fillLoop_outcome within (show ([] : List UInt8).length ≤ capacity.toNat from Nat.zero_le _)
  refine ⟨⟨n, buffer⟩, ?_⟩
  intro r next room empty
  cases failed : s.directory.fault s.reads with
  | some errno =>
    rw [fill_fault failed]
    exact linuxError_neg errno
  | none =>
    have first := (fill_fits (t := t) (i := i) failed next room).2.length_le
    have covers := r.size_covers
    rw [empty, r.encode_length, List.length_nil] at first
    omega

/-- A record tells its place. -/
theorem record_place {j k : Nat} (here : d.records[j]? = some r) (there : d.records[k]? = some r')
    (same : r.offset = r'.offset) : j = k := by
  have below := (List.getElem?_eq_some_iff.mp here).1
  have below' := (List.getElem?_eq_some_iff.mp there).1
  rw [HostDirectory.records_length] at below below'
  rw [HostDirectory.records_at, Option.map_eq_some_iff] at here there
  obtain ⟨entry, -, rfl⟩ := here
  obtain ⟨entry', -, rfl⟩ := there
  have places := congrArg d.seek same
  dsimp only at places
  rw [d.seek_tell (j + 1) below, d.seek_tell (k + 1) below'] at places
  omega

theorem encode_offset_inj {rest : List UInt8} (h : r.encode <+: r'.encode ++ rest) :
    r.offset = r'.offset := by
  obtain ⟨more, same⟩ := h
  have fields : toBytes 8 r.offset.toNat = toBytes 8 r'.offset.toNat := by
    rw [← r.encode_offset more, same, r'.encode_offset]
  have numbers := congrArg ofBytes fields
  rw [ofBytes_toBytes_lt r.offset.toNat_lt, ofBytes_toBytes_lt r'.offset.toNat_lt] at numbers
  exact UInt64.toNat_inj.mp numbers

/-- Where the stream can be read, what a large buffer gets starts where the stream stands only. -/
theorem fill_place (within : s.position ≤ s.directory.records.length)
    (sized : ∀ r ∈ s.directory.records, r.size < 2 ^ 32)
    (target : next ≤ s.directory.records.length) (reads : s.directory.fault s.reads = none)
    (starts : StartsAt s.directory next 0xffffffff (t.fill i s 0xffffffff).1) :
    next = s.position := by
  have room {j : Nat} {r : Record} (found : s.directory.records[j]? = some r) :
      r.size ≤ (0xffffffff : UInt32).toNat := by
    have := sized r (List.mem_of_getElem? found)
    show r.size ≤ 4294967295
    omega
  cases here : s.directory.records[s.position]? with
  | none =>
    have ending := List.getElem?_eq_none_iff.mp here
    by_contra other
    have below : next < s.directory.records.length := by omega
    have found := List.getElem?_eq_getElem below
    have negative := starts.first _ found (room found)
    rw [fill_end reads here] at negative
    exact absurd (negative rfl) (Int.lt_irrefl 0)
  | some r =>
    obtain ⟨n, bytes⟩ := starts.records
    have first := (fill_fits (t := t) (i := i) reads here (room here)).2
    rw [bytes] at first
    cases there : s.directory.records[next]? with
    | none =>
      have length := first.length_le
      have covers := r.size_covers
      rw [List.drop_of_length_le (List.getElem?_eq_none_iff.mp there), List.take_nil,
        List.flatMap_nil, r.encode_length, List.length_nil] at length
      omega
    | some r' =>
      cases n with
      | zero =>
        have length := first.length_le
        have covers := r.size_covers
        rw [List.take_zero, List.flatMap_nil, r.encode_length, List.length_nil] at length
        omega
      | succ n =>
        rw [HostDirectory.records_drop there, List.take_succ_cons, List.flatMap_cons] at first
        exact record_place there here (encode_offset_inj first).symm

/-- After `lseek` the next call starts where it was sent to just when the stream was there. -/
theorem seek_reaches_iff (read : ReadBy opendir fd t i (.opened d))
    (sized : ∀ r ∈ d.records, r.size < 2 ^ 32) (calls : List DirCall) (wide : Bool)
    {offset : UInt64} {next : Nat} (target : Target d offset next) :
    let answers := (run opendir fd t calls).1
    let after := ((run opendir fd t calls).2.linuxLseek wide fd offset none).2
    ∃ (rss : List (List Record)) (s : Stream),
      answers.map Answer.bytes = rss.map (·.flatMap Record.encode) ∧
      ReadBy opendir fd (run opendir fd t calls).2 i s ∧ Returned d s rss.flatten ∧
      ((∀ capacity, StartsAt d next capacity (after.linuxGetdents64 opendir fd capacity).1) ↔
        next = rss.flatten.length ∨ d.fault s.reads ≠ none) := by
  intro answers after
  obtain ⟨rss, s, bytes, read', all⟩ := run_returned read (.opened d) calls
  rw [List.nil_append] at all
  refine ⟨rss, s, bytes, read', all, ?_⟩
  have kept : ReadBy opendir fd after i s := read'.lseek wide offset none
  have length := all.length
  obtain ⟨rfl, within, -⟩ := all
  constructor
  · intro starts
    by_contra neither
    rw [not_or, not_not] at neither
    have large := starts 0xffffffff
    rw [kept.getdents] at large
    rw [length] at neither
    exact neither.1 (fill_place within sized target.within neither.2 large)
  · rintro (rfl | failing) capacity
    · rw [kept.getdents, length]
      exact fill_starts within capacity
    · obtain ⟨errno, failed⟩ := Option.ne_none_iff_exists'.mp failing
      rw [kept.getdents, fill_fault failed]
      exact ⟨⟨0, by simp⟩, fun _ _ _ _ => linuxError_neg errno⟩

/-- Back to the place behind the only record returned so far. -/
theorem seek_reaches_small :
    let after := ((run smallOpendir 3 smallTables [.getdents 30]).2.linuxLseek false 3 16 none).2
    ∀ capacity, StartsAt smallDirectory 1 capacity
      (after.linuxGetdents64 smallOpendir 3 capacity).1 := by
  have target : Target smallDirectory 16 1 := .behind (j := 0) (r := ⟨2, 16, Path.bytes "."⟩) rfl
  obtain ⟨rss, s, -, read, returned, reaches⟩ :=
    seek_reaches_iff small_read (by decide +kernel) [.getdents 30] false target
  refine reaches.mpr (.inl ?_)
  have place : ((run smallOpendir 3 smallTables [.getdents 30]).2.streams ⟨3, by decide⟩).map
      Stream.position = some 1 := by decide +kernel
  rw [returned.length]
  obtain opened | ⟨closed, -⟩ := read.stream
  · rw [opened] at place
    exact (Option.some.inj place).symm
  · rw [closed] at place
    cases place

/-- A directory that was read to its end is not read again from the start. -/
theorem rewind_missed :
    let after := ((run smallOpendir 3 smallTables [.getdents 100]).2.linuxLseek false 3 0 none).2
    (after.linuxGetdents64 smallOpendir 3 100).1 = ⟨0, []⟩ ∧ Target smallDirectory 0 0 ∧
      ∃ r, smallDirectory.records[0]? = some r ∧ r.size ≤ 100 :=
  ⟨by decide +kernel, .start, ⟨2, 16, Path.bytes "."⟩, by decide +kernel, by decide +kernel⟩

end Linuxemu.Dir
