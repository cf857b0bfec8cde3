import Linuxemu.Dirents

/-! The records of `getdents64`: how a guest reads them back, and which of them one call copies.
That is a run of records from the place of the stream on, with the stream left behind it. -/
namespace Linuxemu.Dir
open Fd
open Lib
variable {r : Record}

/-! ## Reading records back -/

theorem Record.size_covers (r : Record) : 20 + r.name.length ≤ r.size := by
  unfold Record.size
  omega

theorem Record.encode_length (r : Record) : r.encode.length = r.size := by
  have := r.size_covers
  simp only [Record.encode, List.length_append, toBytes_length, List.length_singleton,
    List.length_replicate]
  omega

/-- The records of a buffer, as the guest takes them from it: each says how long it is, which is
a multiple of 8, and its name ends at a NUL. -/
def parse (bytes : List UInt8) : Option (List Record) :=
  if bytes = [] then some []
  else
    let size := ofBytes ((bytes.drop 16).take 2)
    if size < 20 ∨ size % 8 ≠ 0 ∨ bytes.length < size then none
    else
      let record : Record :=
        ⟨.ofNat (ofBytes (bytes.take 8)), .ofNat (ofBytes ((bytes.drop 8).take 8)),
          ((bytes.take size).drop 19).takeWhile (· != 0)⟩
      (parse (bytes.drop size)).map (record :: ·)
termination_by bytes.length
decreasing_by
  have : bytes.length ≠ 0 := fun empty => ‹¬ bytes = []› (List.length_eq_zero_iff.mp empty)
  simp only [List.length_drop]
  omega

theorem Record.encode_inode (r : Record) (rest : List UInt8) :
    (r.encode ++ rest).take 8 = toBytes 8 r.inode.toNat := by
  simp only [Record.encode, List.append_assoc]
  exact List.take_left' (toBytes_length _ _)

theorem Record.encode_offset (r : Record) (rest : List UInt8) :
    ((r.encode ++ rest).drop 8).take 8 = toBytes 8 r.offset.toNat := by
  simp only [Record.encode, List.append_assoc]
  rw [List.drop_left' (toBytes_length _ _)]
  exact List.take_left' (toBytes_length _ _)

theorem Record.encode_size (r : Record) (rest : List UInt8) :
    ((r.encode ++ rest).drop 16).take 2 = toBytes 2 r.size := by
  have cut : r.encode ++ rest = (toBytes 8 r.inode.toNat ++ toBytes 8 r.offset.toNat) ++
      (toBytes 2 r.size ++ ([0] ++ r.name ++
        List.replicate (r.size - (19 + r.name.length)) 0 ++ rest)) := by
    simp only [Record.encode, List.append_assoc]
  rw [cut, List.drop_left' (by simp), List.take_left' (toBytes_length _ _)]

theorem Record.encode_name (whole : 0 ∉ r.name) :
    (r.encode.drop 19).takeWhile (· != 0) = r.name := by
  have cut : r.encode = (toBytes 8 r.inode.toNat ++ toBytes 8 r.offset.toNat ++ toBytes 2 r.size ++
      [0]) ++ (r.name ++ List.replicate (r.size - (19 + r.name.length)) 0) := by
    simp only [Record.encode, List.append_assoc]
  have := r.size_covers
  obtain ⟨pad, more⟩ : ∃ pad, r.size - (19 + r.name.length) = pad + 1 :=
    ⟨r.size - (20 + r.name.length), by omega⟩
  rw [cut, List.drop_left' (by simp), more, List.replicate_succ,
    List.takeWhile_append_of_pos]
  · simp
  · intro b member
    simpa using fun zero : b = 0 => whole (zero ▸ member)

/-- A record that the guest gets is the one that was written. -/
theorem parse_encode (whole : 0 ∉ r.name) (short : r.size < 65536) (rest : List UInt8) :
    parse (r.encode ++ rest) = (parse rest).map (r :: ·) := by
  have covers := r.size_covers
  have length := r.encode_length
  have nonempty : r.encode ++ rest ≠ [] := by
    intro empty
    rw [List.append_eq_nil_iff] at empty
    rw [empty.1, List.length_nil] at length
    omega
  have size : ofBytes (((r.encode ++ rest).drop 16).take 2) = r.size := by
    rw [r.encode_size, ofBytes_toBytes_lt short]
  have aligned : r.size % 8 = 0 := by
    unfold Record.size
    omega
  have inode : UInt64.ofNat (ofBytes ((r.encode ++ rest).take 8)) = r.inode := by
    rw [r.encode_inode, ofBytes_toBytes_lt r.inode.toNat_lt, UInt64.ofNat_toNat]
  have offset : UInt64.ofNat (ofBytes (((r.encode ++ rest).drop 8).take 8)) = r.offset := by
    rw [r.encode_offset, ofBytes_toBytes_lt r.offset.toNat_lt, UInt64.ofNat_toNat]
  rw [parse, if_neg nonempty]
  dsimp only
  rw [size, if_neg (by simp only [List.length_append, length]; omega), inode, offset,
    List.take_left' length, List.drop_left' length, Record.encode_name whole]

theorem parse_records {rs : List Record}
    (legible : ∀ r ∈ rs, 0 ∉ r.name ∧ r.size < 65536) : parse (rs.flatMap Record.encode) = some rs := by
  induction rs with
  | nil =>
    rw [List.flatMap_nil, parse, if_pos rfl]
  | cons r rs ih =>
    obtain ⟨whole, short⟩ := legible r List.mem_cons_self
    rw [List.flatMap_cons, parse_encode whole short,
      ih fun r member => legible r (List.mem_cons_of_mem _ member), Option.map_some]

/-! ## One call -/

/-- What a directory has to offer. -/
def HostDirectory.records (d : HostDirectory) : List Record :=
  d.listing.mapIdx fun i entry => ⟨entry.inode, d.tell (i + 1), entry.name⟩

theorem HostDirectory.records_length (d : HostDirectory) : d.records.length = d.listing.length :=
  List.length_mapIdx

theorem HostDirectory.records_at (d : HostDirectory) (i : Nat) :
    d.records[i]? = d.listing[i]?.map fun entry => ⟨entry.inode, d.tell (i + 1), entry.name⟩ :=
  List.getElem?_mapIdx

theorem HostDirectory.records_drop {d : HostDirectory} {i : Nat} (next : d.records[i]? = some r) :
    d.records.drop i = r :: d.records.drop (i + 1) := by
  obtain ⟨below, rfl⟩ := List.getElem?_eq_some_iff.mp next
  exact List.drop_eq_getElem_cons below

section Loop
variable {s : Stream} {capacity : Nat} {buffer : List UInt8}

theorem fillLoop_read (capacity : Nat) (s : Stream) (buffer : List UInt8) :
    fillLoop capacity s buffer =
      match s.readdir with
      | (.error errno, s') => ⟨buffer, some errno, s'⟩
      | (.ok none, s') => ⟨buffer, none, s'⟩
      | (.ok (some entry), s') =>
        let record : Record := ⟨entry.inode, s'.telldir, entry.name⟩
        if capacity - buffer.length < record.size then ⟨buffer, none, s'.seekdir s.telldir⟩
        else fillLoop capacity s' (buffer ++ record.encode) := by
  rw [fillLoop]
  split <;> rename_i read <;> simp only [read]

theorem fillLoop_fault {errno : Errno} (failed : s.directory.fault s.reads = some errno) :
    fillLoop capacity s buffer = ⟨buffer, some errno, { s with reads := s.reads + 1 }⟩ := by
  rw [fillLoop_read]
  simp only [Stream.readdir, failed]

section
variable (reads : s.directory.fault s.reads = none)
include reads

theorem fillLoop_end (ending : s.directory.records[s.position]? = none) :
    fillLoop capacity s buffer = ⟨buffer, none, { s with reads := s.reads + 1 }⟩ := by
  rw [HostDirectory.records_at, Option.map_eq_none_iff] at ending
  rw [fillLoop_read]
  simp only [Stream.readdir, reads, ending]

theorem readdir_record (next : s.directory.records[s.position]? = some r) :
    ∃ entry, s.readdir = (.ok (some entry),
        { s with position := s.position + 1, reads := s.reads + 1 }) ∧
      r = ⟨entry.inode, s.directory.tell (s.position + 1), entry.name⟩ := by
  rw [HostDirectory.records_at, Option.map_eq_some_iff] at next
  obtain ⟨entry, found, rfl⟩ := next
  refine ⟨entry, ?_, rfl⟩
  simp only [Stream.readdir, reads, found]

/-- A record that does not fit goes back. -/
theorem fillLoop_full (next : s.directory.records[s.position]? = some r)
    (full : capacity - buffer.length < r.size) :
    fillLoop capacity s buffer = ⟨buffer, none, { s with reads := s.reads + 1 }⟩ := by
  obtain ⟨below, -⟩ := List.getElem?_eq_some_iff.mp next
  rw [HostDirectory.records_length] at below
  obtain ⟨entry, read, rfl⟩ := readdir_record reads next
  rw [fillLoop_read, read]
  dsimp only [Stream.telldir, Stream.seekdir]
  rw [if_pos full, s.directory.seek_tell s.position (by omega)]

theorem fillLoop_fits (next : s.directory.records[s.position]? = some r)
    (fits : r.size ≤ capacity - buffer.length) :
    fillLoop capacity s buffer = fillLoop capacity
      { s with position := s.position + 1, reads := s.reads + 1 } (buffer ++ r.encode) := by
  obtain ⟨entry, read, rfl⟩ := readdir_record reads next
  rw [fillLoop_read, read]
  dsimp only [Stream.telldir]
  rw [if_neg (Nat.not_lt.mpr fits)]

end

/-- The loop copies some of the records that come next, and stands behind them. -/
theorem fillLoop_outcome (within : s.position ≤ s.directory.records.length)
    (fits : buffer.length ≤ capacity) :
    ∃ n reads, s.position + n ≤ s.directory.records.length ∧
      (fillLoop capacity s buffer).stream = { s with position := s.position + n, reads := reads } ∧
      (fillLoop capacity s buffer).buffer =
        buffer ++ ((s.directory.records.drop s.position).take n).flatMap Record.encode ∧
      (fillLoop capacity s buffer).buffer.length ≤ capacity := by
  -- On the number of records left; the buffer grows with every one that is copied.
  induction left : s.directory.records.length - s.position using Nat.strongRecOn
    generalizing s buffer with
  | ind left' ih =>
    cases failed : s.directory.fault s.reads with
    | some errno =>
      refine ⟨0, s.reads + 1, within, ?_⟩
      rw [fillLoop_fault failed]
      simpa using fits
    | none =>
      cases next : s.directory.records[s.position]? with
      | none =>
        refine ⟨0, s.reads + 1, within, ?_⟩
        rw [fillLoop_end failed next]
        simpa using fits
      | some r =>
        by_cases room : r.size ≤ capacity - buffer.length
        · obtain ⟨below, -⟩ := List.getElem?_eq_some_iff.mp next
          have grown : (buffer ++ r.encode).length ≤ capacity := by
            rw [List.length_append, r.encode_length]
            omega
          obtain ⟨n, reads, bound, stream, filled, total⟩ :=
            ih (s.directory.records.length - (s.position + 1)) (by omega)
              (s := { s with position := s.position + 1, reads := s.reads + 1 }) below grown rfl
          refine ⟨n + 1, reads, by dsimp only at bound; omega, ?_⟩
          rw [fillLoop_fits failed next room, stream, filled]
          rw [filled] at total
          refine ⟨?_, ?_, total⟩
          · simp only [Nat.add_assoc, Nat.add_comm n 1]
          · rw [HostDirectory.records_drop next, List.take_succ_cons, List.flatMap_cons,
              List.append_assoc]
        · refine ⟨0, s.reads + 1, within, ?_⟩
          rw [fillLoop_full failed next (Nat.not_le.mp room)]
          simpa using fits

end Loop

end Linuxemu.Dir
