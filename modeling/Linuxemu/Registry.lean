import Linuxemu.Errno
import Linuxemu.Lib.Pieces
import Mathlib.Algebra.Group.Nat.Defs

/-! The runtime mapping registry of `guest_memory.c`. The mapping array is the
list of its live entries; the scratch array keeps what it held, as the static
array does, and the indices written to it. -/
namespace Linuxemu.Registry
open Lib

/-- `UINTPTR_MAX`, and `SIZE_MAX`, of the 32-bit host. -/
def uintptrMax : Nat := 2 ^ 32 - 1

def maxRuntimeMappings : Nat := 2048

/-- `struct runtime_mapping`; its `end` is `stop` and its `executable` is `flag`. -/
abbrev RuntimeMapping := Piece Int

structure Table where
  runtimeMappings : List RuntimeMapping
  runtimeMappingScratch : Cells RuntimeMapping

def empty : Table := ⟨[], ⟨fun _ => ⟨0, 0, 0⟩, []⟩⟩

def rangesOverlap (firstStart firstEnd secondStart secondEnd : Nat) : Bool :=
  decide (firstStart < secondEnd) && decide (secondStart < firstEnd)

/-- The inner loop of `runtime_range_owned_locked`. -/
def coveredEnd (cursor : Nat) (mappings : List RuntimeMapping) : Nat :=
  mappings.foldl (fun covered m =>
    if m.start ≤ cursor ∧ covered < m.stop then m.stop else covered) cursor

theorem coveredEnd_ge (cursor : Nat) (mappings : List RuntimeMapping) :
    cursor ≤ coveredEnd cursor mappings := by
  have grows (ms : List RuntimeMapping) (c : Nat) : c ≤ ms.foldl (fun covered m =>
      if m.start ≤ cursor ∧ covered < m.stop then m.stop else covered) c := by
    induction ms generalizing c with
    | nil => exact Nat.le_refl _
    | cons m ms ih =>
      simp only [List.foldl_cons]
      refine Nat.le_trans ?_ (ih _)
      split <;> omega
  exact grows mappings cursor

def runtimeRangeOwnedLocked (mappings : List RuntimeMapping) (cursor stop : Nat) : Bool :=
  if cursor < stop then
    if coveredEnd cursor mappings = cursor then false
    else runtimeRangeOwnedLocked mappings (coveredEnd cursor mappings) stop
  else true
termination_by stop - cursor
decreasing_by
  have := coveredEnd_ge cursor mappings
  omega

/-- The first loop of `runtime_replace_locked`: one old entry after another goes
to the scratch array, whole or as the parts outside the range. -/
def splitLoop (start stop : Nat) :
    List RuntimeMapping → Nat → Cells RuntimeMapping → Nat × Cells RuntimeMapping
  | [], count, scratch => (count, scratch)
  | old :: rest, count, scratch =>
    if rangesOverlap start stop old.start old.stop then
      let low := if old.start < start then
        (count + 1, scratch.write count ⟨old.start, start, old.flag⟩) else (count, scratch)
      let high := if stop < old.stop then
        (low.1 + 1, low.2.write low.1 ⟨stop, old.stop, old.flag⟩) else low
      splitLoop start stop rest high.1 high.2
    else splitLoop start stop rest (count + 1) (scratch.write count old)

/-- Split, append, sort and compact in the scratch array; the registry takes the
result unless it has too many entries. -/
def runtimeReplaceLocked (r : Table) (start stop : Nat) (addReplacement : Bool)
    (executable : Int) : Int × Table :=
  let split := splitLoop start stop r.runtimeMappings 0 r.runtimeMappingScratch
  let added := if addReplacement then
    (split.1 + 1, split.2.write split.1 ⟨start, stop, executable⟩) else split
  let sorted := added.2.sortFrom Piece.start (added.1 - 1) 1
  let compacted := sorted.compactFrom Piece.touches Piece.join added.1 0 0
  if maxRuntimeMappings < compacted.1 then (-1, { r with runtimeMappingScratch := compacted.2 })
  else (0, ⟨compacted.2.front compacted.1, compacted.2⟩)

/-- A return value, the `errno` it set if any, and the table left. -/
structure Reply where
  code : Int
  errno : Option Errno
  table : Table

/-- `length == 0 || length > UINTPTR_MAX - address`. -/
def badRange (address length : Nat) : Bool :=
  decide (length = 0) || decide (uintptrMax - address < length)

def guestMemoryRuntimeOwned (r : Table) (address length : Nat) : Bool :=
  !badRange address length &&
    runtimeRangeOwnedLocked r.runtimeMappings address (address + length)

def guestMemoryRuntimeMap (r : Table) (address length : Nat) (executable : Int) : Reply :=
  if badRange address length then ⟨-1, some .einval, r⟩
  else
    let done := runtimeReplaceLocked r address (address + length) true executable
    if done.1 = 0 then ⟨0, none, done.2⟩ else ⟨-1, some .enomem, done.2⟩

def guestMemoryRuntimeProtect (r : Table) (address length : Nat) (executable : Int) : Reply :=
  if badRange address length then ⟨-1, some .einval, r⟩
  else if !runtimeRangeOwnedLocked r.runtimeMappings address (address + length) then ⟨1, none, r⟩
  else
    let done := runtimeReplaceLocked r address (address + length) true executable
    if done.1 ≠ 0 then ⟨-1, some .enomem, done.2⟩ else ⟨0, none, done.2⟩

/-- The result of the replacement is not looked at. -/
def guestMemoryRuntimeUnmap (r : Table) (address length : Nat) : Table :=
  if badRange address length then r
  else (runtimeReplaceLocked r address (address + length) false 0).2

end Linuxemu.Registry
