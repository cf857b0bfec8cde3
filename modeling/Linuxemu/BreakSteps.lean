import Linuxemu.MmapOutcome

/-! Every way `guest_brk_set` can end, said once. -/
namespace Linuxemu.Guest
open Lib Registry

theorem guestMax_fits (h : Host) {value : Nat} (high : value < guestMaxAddress) :
    value ≤ uintptrMax - (h.pageSize.bytes - 1) := by
  have := h.pageSize.bytes_le.2
  unfold guestMaxAddress at high
  unfold uintptrMax
  omega

/-- The bytes by which this request makes the mapping of the heap grow. -/
def Machine.growth (m : Machine) (requested : Nat) : Nat :=
  alignUp requested m.pageBytes - m.breakMappingEnd

/-- What the host does when it is asked for them. -/
def Machine.askGrowth (m : Machine) (requested : Nat) (outcome : Except Errno Nat) :
    Except Errno (Nat × Host) :=
  m.image.host.mmap m.breakMappingEnd (m.growth requested) brkProtection brkFlags (-1) 0 outcome

/-- The machine once the host has mapped them. -/
def Machine.gotGrowth (m : Machine) (requested mapping : Nat) (host : Host) : Machine :=
  { m with
    image := m.image.remap host mapping (m.growth requested)
    received := some (mapping, alignUp (m.growth requested) m.pageBytes) }

/-- What the registry answers. -/
def Machine.ownGrowth (m : Machine) (requested : Nat) : Reply :=
  guestMemoryRuntimeMap m.registry m.breakMappingEnd (m.growth requested) 0

/-- A request for more pages that has passed the checks. -/
structure Machine.Grows (m : Machine) (requested : Nat) : Prop where
  low : m.minimumBreak ≤ requested
  upward : m.currentBreak ≤ requested
  high : requested < guestMaxAddress
  above : m.breakMappingEnd < alignUp requested m.pageBytes

/-- A request that changes nothing before the host is asked. -/
def Machine.RefusesBreak (m : Machine) (requested : Nat) : Prop :=
  requested = 0 ∨ requested < m.minimumBreak ∨
    m.currentBreak ≤ requested ∧ guestMaxAddress ≤ requested

/-- A request that needs no other pages than the heap has. -/
structure Machine.MovesBreak (m : Machine) (requested : Nat) : Prop where
  nonzero : requested ≠ 0
  low : m.minimumBreak ≤ requested
  within : requested < m.currentBreak ∧ m.breakMappingEnd ≤ alignUp requested m.pageBytes ∨
    m.currentBreak ≤ requested ∧ requested < guestMaxAddress ∧
      alignUp requested m.pageBytes ≤ m.breakMappingEnd

/-- A request that gives pages back. -/
structure Machine.ReleasesPages (m : Machine) (requested : Nat) : Prop where
  nonzero : requested ≠ 0
  low : m.minimumBreak ≤ requested
  lower : requested < m.currentBreak
  below : alignUp requested m.pageBytes < m.breakMappingEnd

inductive BrkStep (m : Machine) (requested : Nat) (outcome : Except Errno Nat) :
    Nat × Machine → Prop
  | refused (why : m.RefusesBreak requested) : BrkStep m requested outcome (m.currentBreak, m)
  | moved (moves : m.MovesBreak requested) :
      BrkStep m requested outcome (requested, { m with currentBreak := requested })
  | released (releases : m.ReleasesPages requested) :
      BrkStep m requested outcome (requested,
        { m.munmap (alignUp requested m.pageBytes)
            (m.breakMappingEnd - alignUp requested m.pageBytes) with
          registry := guestMemoryRuntimeUnmap m.registry (alignUp requested m.pageBytes)
            (m.breakMappingEnd - alignUp requested m.pageBytes)
          breakMappingEnd := alignUp requested m.pageBytes
          currentBreak := requested })
  | failed (grows : m.Grows requested) (errno : Errno)
      (asked : m.askGrowth requested outcome = .error errno) :
      BrkStep m requested outcome (m.currentBreak, m)
  | elsewhere (grows : m.Grows requested) {mapping : Nat} {host : Host}
      (asked : m.askGrowth requested outcome = .ok (mapping, host))
      (other : mapping ≠ m.breakMappingEnd) :
      BrkStep m requested outcome (m.currentBreak,
        (m.gotGrowth requested mapping host).munmap mapping (m.growth requested))
  | full (grows : m.Grows requested) {host : Host}
      (asked : m.askGrowth requested outcome = .ok (m.breakMappingEnd, host))
      (refused : (m.ownGrowth requested).code ≠ 0) :
      BrkStep m requested outcome (m.currentBreak,
        { m.gotGrowth requested m.breakMappingEnd host with
          registry := (m.ownGrowth requested).table }.munmap m.breakMappingEnd
            (m.growth requested))
  | grown (grows : m.Grows requested) {host : Host}
      (asked : m.askGrowth requested outcome = .ok (m.breakMappingEnd, host))
      (owned : (m.ownGrowth requested).code = 0) :
      BrkStep m requested outcome (requested,
        { m.gotGrowth requested m.breakMappingEnd host with
          registry := (m.ownGrowth requested).table
          breakMappingEnd := alignUp requested m.pageBytes
          currentBreak := requested })

theorem guestBrkSet_step (requested : Nat) (outcome : Except Errno Nat) (m : Machine) :
    BrkStep m requested outcome (guestBrkSet requested outcome m) := by
  unfold guestBrkSet
  split
  · rename_i zero
    exact .refused (.inl zero)
  rename_i nonzero
  split
  · rename_i below
    exact .refused (.inr (.inl below))
  rename_i low
  have low : m.minimumBreak ≤ requested := Nat.le_of_not_lt low
  split
  · rename_i shrinks
    dsimp only
    split
    · rename_i below
      exact .released ⟨nonzero, low, shrinks, below⟩
    · rename_i level
      exact .moved ⟨nonzero, low, .inl ⟨shrinks, Nat.le_of_not_lt level⟩⟩
  rename_i upward
  have upward : m.currentBreak ≤ requested := Nat.le_of_not_lt upward
  split
  · rename_i outside
    refine .refused (.inr (.inr ⟨upward, ?_⟩))
    by_contra inside
    have fits : requested ≤ uintptrMax - (m.pageBytes - 1) :=
      guestMax_fits m.image.host (by omega)
    omega
  rename_i inside
  dsimp only
  split
  · rename_i above
    have grows : m.Grows requested := ⟨low, upward, by omega, above⟩
    obtain ⟨errno, asked, result⟩ | ⟨mapping, host, asked, result⟩ := mmap_cases m
      m.breakMappingEnd (m.growth requested) brkProtection brkFlags (-1) 0 outcome
    · rw [show alignUp requested m.pageBytes - m.breakMappingEnd = m.growth requested from rfl,
        result]
      exact .failed grows errno asked
    · rw [show alignUp requested m.pageBytes - m.breakMappingEnd = m.growth requested from rfl,
        result]
      dsimp only
      split
      · rename_i other
        exact .elsewhere grows asked other
      · rename_i here
        obtain rfl : mapping = m.breakMappingEnd := not_not.mp here
        split
        · rename_i refused
          exact .full grows asked refused
        · rename_i owned
          exact .grown grows asked (not_not.mp owned)
  · rename_i level
    exact .moved ⟨nonzero, low, .inr ⟨upward, by omega, Nat.le_of_not_lt level⟩⟩

end Linuxemu.Guest
