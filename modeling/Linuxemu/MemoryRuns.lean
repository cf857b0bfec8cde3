import Linuxemu.Load
import Linuxemu.MemoryCalls

/-! Runs of one guest thread: memory calls, its own stores, and what the emulator
does with host pages of its own in between. -/
namespace Linuxemu.Guest
open Lib Registry
variable {m m' : Machine} {address : Nat} {value : UInt8}

/-- A guest store of one byte. It takes the trap away from a word it touches. -/
def Machine.guestStore (m : Machine) (address : Nat) (value : UInt8) : Option Machine :=
  if !m.guestMemoryRangeOwned address 1 then none
  else (m.image.host.storeByte address value).map fun host =>
    { m with
      image := { m.image with
        host
        trapped := fun a => if a ≤ address ∧ address < a + 4 then none else m.image.trapped a } }

/-- A mapped page that belongs to the guest. -/
def Machine.guestPage (m : Machine) (page : Nat) : Bool :=
  (m.image.host.pages page).isSome && m.guestMemoryRangeOwned (page * m.pageBytes) m.pageBytes

/-- The machine after the emulator has changed pages and bytes of its own. -/
def Machine.withHost (m : Machine) (pages : Nat → Option Page) (bytes : Store (Option Nat)) :
    Machine :=
  { m with image := { m.image with host := { m.image.host with pages, bytes } } }

/-- The states of the runs from `start` in which every call is one that `may` be made. -/
inductive RunUnder (may : Machine → MemoryCall → Prop) (start : Machine) : Machine → Prop
  | start : RunUnder may start start
  | call {m m' : Machine} {c : MemoryCall} {code : Int} (before : RunUnder may start m)
      (allowed : may m c) (done : m.call c = some (code, m')) : RunUnder may start m'
  | store {m m' : Machine} {address : Nat} {value : UInt8} (before : RunUnder may start m)
      (done : m.guestStore address value = some m') : RunUnder may start m'
  | emulator {m : Machine} {pages : Nat → Option Page} {bytes : Store (Option Nat)}
      (before : RunUnder may start m)
      (spared : ∀ page, m.guestPage page = true → pages page = m.image.host.pages page)
      (own : ∀ p, p.region ≠ none ∨ m.guestPage (p.index / m.pageBytes) = true →
        bytes p = m.image.host.bytes p) : RunUnder may start (m.withHost pages bytes)

/-- The states that a loaded program can reach. -/
def Reached (m : Machine) : Prop :=
  ∃ start, Loaded start ∧ RunUnder (fun _ _ => True) start m

theorem Reached.call {c : MemoryCall} {code : Int} (h : Reached m)
    (done : m.call c = some (code, m')) : Reached m' := by
  obtain ⟨start, loaded, run⟩ := h
  exact ⟨start, loaded, .call run trivial done⟩

theorem Reached.store (h : Reached m) (done : m.guestStore address value = some m') :
    Reached m' := by
  obtain ⟨start, loaded, run⟩ := h
  exact ⟨start, loaded, .store run done⟩

theorem guestStore_frame (done : m.guestStore address value = some m') :
    ∃ image, m' = { m with image } ∧ image.host.pageSize = m.image.host.pageSize ∧
      image.patches = m.image.patches ∧ image.host.pages = m.image.host.pages ∧
      ∀ a w, image.trapped a = some w → m.image.trapped a = some w := by
  unfold Machine.guestStore at done
  split at done
  · cases done
  · rw [Option.map_eq_some_iff] at done
    obtain ⟨host, stored, rfl⟩ := done
    rw [Host.storeByte, Option.map_eq_some_iff] at stored
    obtain ⟨place, -, rfl⟩ := stored
    refine ⟨_, rfl, rfl, rfl, rfl, ?_⟩
    intro a w found
    dsimp only at found
    split at found
    · cases found
    · exact found

/-- An invariant that does not look at memory holds along a run if each call keeps it. -/
theorem RunUnder.invariant {may : Machine → MemoryCall → Prop} {start : Machine}
    (Inv : Machine → Prop) (run : RunUnder may start m) (first : Inv start)
    (frame : ∀ m image, image.host.pageSize = m.image.host.pageSize → Inv m →
      Inv { m with image })
    (step : ∀ m m' c code, may m c → m.call c = some (code, m') → Inv m → Inv m') : Inv m := by
  induction run with
  | start => exact first
  | call _ allowed done ih => exact step _ _ _ _ allowed done ih
  | store _ done ih =>
    obtain ⟨image, rfl, size, -⟩ := guestStore_frame done
    exact frame _ image size ih
  | emulator _ _ _ ih => exact frame _ _ rfl ih

/-- A host on which every call but those on a bad descriptor succeeds. -/
def willingHost (address : Nat) : MmapHost :=
  ⟨.ok address, none, [.upto 4096], ⟨none, [.upto 4096], true, [.upto 4096]⟩, none, none⟩

end Linuxemu.Guest
