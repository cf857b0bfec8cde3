import Linuxemu.HostSpans

/-! What `fstat` and `read_exact_at` give, however the host cuts the reading up. -/
namespace Linuxemu.Guest
open Lib
variable {descriptor : Int} {h : Host} {length inode offset : Nat}
variable {failure : Option Errno} {results : List Pread} {bytes : List UInt8} {size : Nat}

theorem fstat_file (stat : h.fstat descriptor failure = .ok size) :
    ∃ inode, h.inode descriptor = some inode ∧ size = h.size inode := by
  unfold Host.fstat at stat
  split at stat
  · cases stat
  · cases stat
  · rename_i inode found
    split at stat
    · cases stat
      exact ⟨inode, found, rfl⟩
    · cases stat

theorem fstat_size (file : h.inode descriptor = some inode)
    (stat : h.fstat descriptor failure = .ok size) :
    size = h.size inode := by
  obtain ⟨other, found, same⟩ := fstat_file stat
  cases file.symm.trans found
  exact same

theorem fstat_ok (file : h.inode descriptor = some inode) (small : h.size inode < 2 ^ 31) :
    h.fstat descriptor none = .ok (h.size inode) := by
  unfold Host.fstat
  rw [file]
  exact if_pos small

theorem slice_append (h : Host) (inode offset : Nat) {got : Nat} (le : got ≤ length) :
    h.slice inode offset got ++ h.slice inode (offset + got) (length - got) =
      h.slice inode offset length := by
  obtain ⟨rest, rfl⟩ := Nat.exists_eq_add_of_le le
  simp only [Host.slice, Nat.add_sub_cancel_left, List.range_add, List.map_append, List.map_map]
  congr 1
  apply List.map_congr_left
  intro k _
  simp [Nat.add_assoc]

theorem slice_getD (h : Host) (inode offset : Nat) {k : Nat} (inside : k < length) :
    (h.slice inode offset length).getD k 0 = h.bytes ⟨some inode, offset + k⟩ := by
  simp [Host.slice, inside]

/-- However the host cuts it up, what is read is that part of the file. -/
theorem readExactAt_ok (opened : h.inode descriptor = some inode)
    (read : h.readExactAt descriptor length offset results = some (.ok bytes)) :
    bytes = h.slice inode offset length ∧ (length = 0 ∨ offset + length ≤ h.size inode) := by
  induction results generalizing length offset bytes with
  | nil =>
    unfold Host.readExactAt at read
    split at read
    · rename_i empty
      cases read
      exact ⟨by simp [Host.slice, empty], .inl empty⟩
    · cases read
  | cons result rest ih =>
    unfold Host.readExactAt at read
    split at read
    · rename_i empty
      cases read
      exact ⟨by simp [Host.slice, empty], .inl empty⟩
    split at read
    · exact ih read
    · cases read
    · rename_i closed
      cases opened.symm.trans closed
    · rename_i count inode' found
      cases opened.symm.trans found
      dsimp only at read
      split at read
      · cases read
      split at read
      · rename_i more follows
        cases read
        obtain ⟨rfl, rest⟩ := ih follows
        exact ⟨slice_append h inode offset (by omega), by omega⟩
      · rename_i other
        exact absurd read (other bytes)

theorem readExactAt_slice (opened : h.inode descriptor = some inode)
    (read : h.readExactAt descriptor length offset results = some (.ok bytes)) :
    bytes = h.slice inode offset length :=
  (readExactAt_ok opened read).1

theorem readExactAt_once {count : Nat} (file : h.inode descriptor = some inode)
    (inside : offset + length ≤ h.size inode) (short : length ≤ count) :
    ∃ bytes, h.readExactAt descriptor length offset [.upto count] = some (.ok bytes) := by
  unfold Host.readExactAt
  by_cases nothing : length = 0
  · rw [if_pos nothing]
    exact ⟨_, rfl⟩
  · have all : min count (min length (h.size inode - offset)) = length := by omega
    rw [if_neg nothing, file]
    dsimp only
    rw [all, if_neg nothing, Nat.sub_self]
    exact ⟨_, rfl⟩

theorem readExactAt_nothing (h : Host) (descriptor : Int) (offset : Nat) (reads : List Pread) :
    h.readExactAt descriptor 0 offset reads = some (.ok []) := by
  cases reads <;> rfl

theorem readExactAt_congr {h' : Host} (files : FilesKept h h') (descriptor : Int)
    (length offset : Nat) (results : List Pread) :
    h'.readExactAt descriptor length offset results =
      h.readExactAt descriptor length offset results := by
  induction results generalizing length offset with
  | nil => rfl
  | cons first rest ih =>
    simp only [Host.readExactAt, files.inode, files.size, files.slice, ih]

end Linuxemu.Guest
