import Linuxemu.Lib.IntType
import Linuxemu.PollTimeout

/-! The deadlines of a futex wait (`linux_futex.c`): seconds and nanoseconds of the guest are
added to the host's clock, with a carry, and an absolute time of the monotonic clock is first
made relative, with a borrow. The width and the sign of the host's `time_t` are parameters. -/
namespace Linuxemu.Futex
open Lib Poll

structure Timespec where
  tvSec : Int
  tvNsec : Int
  deriving DecidableEq, Repr

namespace Timespec

/-- `long` has 32 bits. -/
def long (value : Int) : Int := value.bmod (2 ^ 32)

/-- The whole time as a number of nanoseconds. -/
def nanos (x : Timespec) : Int := x.tvSec * 1000000000 + x.tvNsec

/-- What a clock gives. -/
def Proper (timeT : IntType) (x : Timespec) : Prop :=
  timeT.Holds x.tvSec ∧ 0 ≤ x.tvNsec ∧ x.tvNsec < 1000000000

instance (timeT : IntType) (x : Timespec) : Decidable (x.Proper timeT) :=
  inferInstanceAs (Decidable (_ ∧ _ ∧ _))

end Timespec

open Timespec

def loadLinuxTimespec (timeT : IntType) (m : Memory) (guestTimeout : Nat) : Option Timespec :=
  let seconds := int32At m guestTimeout
  let nanoseconds := int32At m (guestTimeout + 4)
  if seconds < 0 ∨ nanoseconds < 0 ∨ 1000000000 ≤ nanoseconds then none
  else some ⟨timeT.store seconds, long nanoseconds⟩

/-- `tv_sec` and `tv_nsec` of a sum, with the carry. -/
def addTimes (timeT : IntType) (x y : Timespec) : Timespec :=
  let seconds := timeT.store (x.tvSec + y.tvSec)
  let nanoseconds := long (x.tvNsec + y.tvNsec)
  if 1000000000 ≤ nanoseconds then
    ⟨timeT.store (seconds + 1), long (nanoseconds - 1000000000)⟩
  else ⟨seconds, nanoseconds⟩

/-- No clock reading is a `clock_gettime` that fails, no result the return value -1. -/
def relativeDeadline (timeT : IntType) (m : Memory) (guestTimeout : Nat)
    (realtimeNow : Option Timespec) : Option Timespec := do
  let relative ← loadLinuxTimespec timeT m guestTimeout
  let deadline ← realtimeNow
  return addTimes timeT deadline relative

/-- `seconds` and `nanoseconds` when they are computed. -/
def difference (timeT : IntType) (guest monotonicNow : Timespec) : Timespec :=
  ⟨timeT.store (guest.tvSec - monotonicNow.tvSec), long (guest.tvNsec - monotonicNow.tvNsec)⟩

def borrow (timeT : IntType) (x : Timespec) : Timespec :=
  if x.tvNsec < 0 then ⟨timeT.store (x.tvSec - 1), long (x.tvNsec + 1000000000)⟩ else x

/-- The guest's time has come. -/
def passed (guest monotonicNow : Timespec) : Bool :=
  decide (guest.tvSec < monotonicNow.tvSec) ||
    decide (guest.tvSec = monotonicNow.tvSec) && decide (guest.tvNsec ≤ monotonicNow.tvNsec)

def absoluteDeadline (timeT : IntType) (m : Memory) (guestTimeout : Nat) (realtime : Bool)
    (monotonicNow realtimeNow : Option Timespec) : Option Timespec := do
  let guest ← loadLinuxTimespec timeT m guestTimeout
  if realtime then return guest
  let monotonicNow ← monotonicNow
  let realtimeNow ← realtimeNow
  if passed guest monotonicNow then return realtimeNow
  return addTimes timeT realtimeNow (borrow timeT (difference timeT guest monotonicNow))

/-! ## Exact times -/

variable {timeT : IntType} {guest : Timespec}

theorem long_eq {value : Int} (low : -2 ^ 31 ≤ value) (high : value < 2 ^ 31) :
    long value = value := by
  apply Int.bmod_eq_of_le
  · omega
  · omega

/-- What is accepted fits the host's types. -/
theorem loadLinuxTimespec_proper (wide : 32 ≤ timeT.bits) {m : Memory} {guestTimeout : Nat}
    (loaded : loadLinuxTimespec timeT m guestTimeout = some guest) :
    guest.Proper timeT ∧ guest.tvSec = int32At m guestTimeout ∧
      guest.tvNsec = int32At m (guestTimeout + 4) := by
  unfold loadLinuxTimespec at loaded
  dsimp only at loaded
  split at loaded
  · cases loaded
  · rename_i good
    cases loaded
    have small : int32At m guestTimeout < 2 ^ 31 := by
      have := Int.bmod_lt (x := (m.word guestTimeout).toNat) (m := 2 ^ 32) (by decide)
      unfold int32At
      omega
    have fits : timeT.Holds (int32At m guestTimeout) :=
      IntType.holds_int32 wide (by omega) small
    have sec := IntType.store_of_holds fits
    have nsec : long (int32At m (guestTimeout + 4)) = int32At m (guestTimeout + 4) :=
      long_eq (by omega) (by omega)
    rw [sec, nsec]
    generalize int32At m guestTimeout = seconds at *
    generalize int32At m (guestTimeout + 4) = nanoseconds at *
    refine ⟨⟨fits, ?_⟩, rfl, rfl⟩
    dsimp only
    omega

/-- A sum that fits is exact, also where the seconds added were stored modulo the width. -/
theorem addTimes_exact {x y : Timespec} {seconds wait : Int} (proper : x.Proper timeT)
    (low : 0 ≤ y.tvNsec) (high : y.tvNsec < 1000000000) (stored : y.tvSec = timeT.store seconds)
    (exact : seconds * 1000000000 + y.tvNsec = wait)
    (fits : timeT.Holds ((x.nanos + wait) / 1000000000)) :
    (addTimes timeT x y).nanos = x.nanos + wait ∧
      0 ≤ (addTimes timeT x y).tvNsec ∧ (addTimes timeT x y).tvNsec < 1000000000 := by
  obtain ⟨-, least, most⟩ := proper
  have nsec : long (x.tvNsec + y.tvNsec) = x.tvNsec + y.tvNsec := long_eq (by omega) (by omega)
  have sec : timeT.store (x.tvSec + y.tvSec) = timeT.store (x.tvSec + seconds) := by
    rw [stored, IntType.store_add_store]
  unfold nanos at *
  simp only [addTimes, nsec, sec]
  split
  · have whole : (x.tvSec * 1000000000 + x.tvNsec + wait) / 1000000000 =
        x.tvSec + seconds + 1 := by omega
    have rest : long (x.tvNsec + y.tvNsec - 1000000000) = x.tvNsec + y.tvNsec - 1000000000 :=
      long_eq (by omega) (by omega)
    rw [whole] at fits
    rw [IntType.store_store_add, IntType.store_of_holds fits, rest]
    dsimp only
    omega
  · have whole : (x.tvSec * 1000000000 + x.tvNsec + wait) / 1000000000 =
        x.tvSec + seconds := by omega
    rw [whole] at fits
    rw [IntType.store_of_holds fits]
    dsimp only
    omega

theorem passed_iff {monotonicNow : Timespec} (proper : guest.Proper timeT)
    (clock : monotonicNow.Proper timeT) :
    passed guest monotonicNow = true ↔ guest.nanos ≤ monotonicNow.nanos := by
  obtain ⟨-, low, high⟩ := proper
  obtain ⟨-, low', high'⟩ := clock
  simp only [passed, Bool.or_eq_true, Bool.and_eq_true, decide_eq_true_eq, nanos]
  omega

/-- The seconds and nanoseconds still to wait. The exact differences of seconds are not
negative, before the borrow and after it. -/
theorem borrow_difference {monotonicNow : Timespec} (proper : guest.Proper timeT)
    (clock : monotonicNow.Proper timeT) (later : monotonicNow.nanos < guest.nanos) :
    ∃ seconds : Int, 0 ≤ seconds ∧ seconds ≤ guest.tvSec - monotonicNow.tvSec ∧
      (borrow timeT (difference timeT guest monotonicNow)).tvSec = timeT.store seconds ∧
      0 ≤ (borrow timeT (difference timeT guest monotonicNow)).tvNsec ∧
      (borrow timeT (difference timeT guest monotonicNow)).tvNsec < 1000000000 ∧
      seconds * 1000000000 + (borrow timeT (difference timeT guest monotonicNow)).tvNsec =
        guest.nanos - monotonicNow.nanos := by
  obtain ⟨-, low, high⟩ := proper
  obtain ⟨-, low', high'⟩ := clock
  have nsec : long (guest.tvNsec - monotonicNow.tvNsec) = guest.tvNsec - monotonicNow.tvNsec :=
    long_eq (by omega) (by omega)
  unfold nanos at *
  simp only [borrow, difference, nsec]
  split
  · refine ⟨guest.tvSec - monotonicNow.tvSec - 1, by omega, by omega, ?_, ?_⟩
    · exact timeT.store_store_add _ (-1)
    · rw [long_eq (by omega) (by omega)]
      dsimp only
      omega
  · refine ⟨guest.tvSec - monotonicNow.tvSec, by omega, by omega, rfl, ?_⟩
    dsimp only
    omega

/-- A deadline is the clock's time and the time still to wait, to the nanosecond, whatever the
sign of `time_t`: for a relative time as it stands, for an absolute one from the moment the
monotonic clock shows. Nowhere is a smaller number of seconds to be represented than 0. -/
theorem deadlines_exact {timeT : IntType} (wide : 32 ≤ timeT.bits) {m : Memory}
    {guestTimeout : Nat} {guest monotonicNow realtimeNow : Timespec}
    (loaded : loadLinuxTimespec timeT m guestTimeout = some guest)
    (monotonic : monotonicNow.Proper timeT) (realtime : realtimeNow.Proper timeT) :
    guest.nanos = int32At m guestTimeout * 1000000000 + int32At m (guestTimeout + 4) ∧
    (timeT.Holds ((realtimeNow.nanos + guest.nanos) / 1000000000) →
      ∃ deadline, relativeDeadline timeT m guestTimeout (some realtimeNow) = some deadline ∧
        deadline.nanos = realtimeNow.nanos + guest.nanos ∧
        0 ≤ deadline.tvNsec ∧ deadline.tvNsec < 1000000000) ∧
    (timeT.Holds ((realtimeNow.nanos + max 0 (guest.nanos - monotonicNow.nanos)) / 1000000000) →
      ∃ deadline, absoluteDeadline timeT m guestTimeout false (some monotonicNow)
          (some realtimeNow) = some deadline ∧
        deadline.nanos = realtimeNow.nanos + max 0 (guest.nanos - monotonicNow.nanos) ∧
        0 ≤ deadline.tvNsec ∧ deadline.tvNsec < 1000000000) ∧
    (passed guest monotonicNow = false → 0 ≤ guest.tvSec - monotonicNow.tvSec ∧
      (timeT.Holds (guest.tvSec - monotonicNow.tvSec) →
        0 ≤ (difference timeT guest monotonicNow).tvSec ∧
        0 ≤ (borrow timeT (difference timeT guest monotonicNow)).tvSec)) := by
  obtain ⟨proper, seconds, nanoseconds⟩ := loadLinuxTimespec_proper wide loaded
  refine ⟨?_, ?_, ?_, ?_⟩
  · rw [nanos, seconds, nanoseconds]
  · intro fits
    refine ⟨addTimes timeT realtimeNow guest, ?_, ?_⟩
    · rw [relativeDeadline, loaded]
      rfl
    · exact addTimes_exact realtime proper.2.1 proper.2.2 (IntType.store_of_holds proper.1).symm rfl
        fits
  · intro fits
    rw [absoluteDeadline, loaded]
    change ∃ deadline, (if passed guest monotonicNow = true then some realtimeNow else
      some (addTimes timeT realtimeNow _)) = some deadline ∧ _
    by_cases early : passed guest monotonicNow = true
    · have before := (passed_iff proper monotonic).mp early
      rw [if_pos early, Int.max_eq_left (by omega), Int.add_zero]
      exact ⟨realtimeNow, rfl, rfl, realtime.2⟩
    · have after := (passed_iff proper monotonic).not.mp early
      obtain ⟨left, -, -, stored, low, high, rest⟩ :=
        borrow_difference proper monotonic (Int.not_le.mp after)
      rw [Int.max_eq_right (by omega)] at fits ⊢
      rw [if_neg early]
      exact ⟨_, rfl, addTimes_exact realtime low high stored rest fits⟩
  · intro late
    have after := (passed_iff proper monotonic).not.mp (by rw [late]; exact Bool.false_ne_true)
    obtain ⟨left, positive, most, stored, -⟩ := borrow_difference proper monotonic (by omega)
    refine ⟨by omega, fun fits => ⟨?_, ?_⟩⟩
    · rw [difference, IntType.store_of_holds fits]
      dsimp only
      omega
    · have zero : timeT.Holds 0 := IntType.holds_int32 wide (by omega) (by omega)
      rw [stored, IntType.store_of_holds (zero.between fits positive most)]
      exact positive

/-- The guest waits for 4.000000000 on a monotonic clock at 3.999999999, with a `time_t` that has
no sign: no whole second is left after the borrow. -/
theorem deadlines_exact_borrow :
    let timeT : IntType := ⟨32, false, by decide⟩
    let m : Memory := Memory.storeWords (fun _ => 0) 4096 [4, 0]
    ∃ deadline, absoluteDeadline timeT m 4096 false (some ⟨3, 999999999⟩)
        (some ⟨1700000000, 999999999⟩) = some deadline ∧
      deadline.nanos = 1700000001000000000 ∧ 0 ≤ deadline.tvNsec ∧
      deadline.tvNsec < 1000000000 := by
  intro timeT m
  have loaded : loadLinuxTimespec timeT m 4096 = some ⟨4, 0⟩ := by decide +kernel
  exact (deadlines_exact (show 32 ≤ timeT.bits by decide) loaded (by decide +kernel)
    (by decide +kernel)).2.2.1 (by decide +kernel)

end Linuxemu.Futex
