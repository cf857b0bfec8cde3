import Mathlib.Data.Rat.Floor
import Mathlib.Tactic.Linarith
import Linuxemu.Errno
import Linuxemu.Lib.Bytes

/-! The timeout of `ppoll` (`linux_poll.c`): a `timespec` of the guest becomes milliseconds of
the host's `poll`, for which a negative number is no timeout at all. -/
namespace Linuxemu.Poll
open Lib

/-- A conversion to the host's `int`. -/
def asInt (value : Int) : Int := value.bmod (2 ^ 32)

def intMax : Int := 2 ^ 31 - 1

def int32At (m : Memory) (a : Nat) : Int := Int.bmod (m.word a).toNat (2 ^ 32)

def int64At (m : Memory) (a : Nat) : Int :=
  Int.bmod ((m.word a).toNat + 2 ^ 32 * (m.word (a + 4)).toNat : Nat) (2 ^ 64)

/-- The fields of a `timespec`, of two 64-bit words or two of 32 bits. -/
def seconds (m : Memory) (address : Nat) (time64 : Bool) : Int :=
  if time64 then int64At m address else int32At m address

def nanoseconds (m : Memory) (address : Nat) (time64 : Bool) : Int :=
  if time64 then int64At m (address + 8) else int32At m (address + 4)

/-- What is stored in `*milliseconds`, or the error returned. -/
def timespecTimeout (m : Memory) (address : Nat) (time64 : Bool) : Except Errno Int :=
  if address = 0 then .ok (-1)
  else
    let seconds := seconds m address time64
    let nanoseconds := nanoseconds m address time64
    if seconds < 0 ∨ nanoseconds < 0 ∨ 1000000000 ≤ nanoseconds then .error .einval
    else if (intMax - 1) / 1000 < seconds then .ok intMax
    else .ok (asInt (seconds * 1000 + (nanoseconds + 999999) / 1000000))

/-- The time in whole milliseconds, rounded up. -/
def milliseconds (seconds nanoseconds : Int) : Int :=
  ⌈(seconds : ℚ) * 1000 + (nanoseconds : ℚ) / 1000000⌉

theorem milliseconds_eq (seconds nanoseconds : Int) :
    milliseconds seconds nanoseconds = seconds * 1000 + (nanoseconds + 999999) / 1000000 := by
  have low := Int.mul_ediv_self_le (x := nanoseconds + 999999) (k := 1000000) (by decide)
  have high := Int.lt_mul_ediv_self_add (x := nanoseconds + 999999) (k := 1000000) (by decide)
  generalize (nanoseconds + 999999) / 1000000 = whole at *
  have low' : (1000000 : ℚ) * whole ≤ nanoseconds + 999999 := by exact_mod_cast low
  have high' : (nanoseconds : ℚ) + 999999 + 1 ≤ 1000000 * whole + 1000000 := by
    exact_mod_cast Int.add_one_le_iff.mpr high
  rw [milliseconds, Int.ceil_eq_iff]
  push_cast
  constructor
  · linarith
  · linarith

/-- With the fields in range the timeout is exact, except in the last second before the
limit, past which the sum does not fit. -/
theorem timeout_exact_iff (m : Memory) {address : Nat} (some : address ≠ 0) (time64 : Bool)
    (whole : 0 ≤ seconds m address time64) (low : 0 ≤ nanoseconds m address time64)
    (high : nanoseconds m address time64 < 1000000000) :
    timespecTimeout m address time64 =
        .ok (min intMax
          (milliseconds (seconds m address time64) (nanoseconds m address time64))) ↔
      ¬ (seconds m address time64 = 2147483 ∧ 647000000 < nanoseconds m address time64) := by
  rw [timespecTimeout, if_neg some, milliseconds_eq]
  dsimp only
  generalize seconds m address time64 = seconds at *
  generalize nanoseconds m address time64 = nanoseconds at *
  rw [if_neg (by omega)]
  have limit : (intMax - 1) / 1000 = 2147483 := by decide
  have top : intMax = 2147483647 := by decide
  rw [limit, top]
  by_cases later : 2147483 < seconds
  · rw [if_pos later, min_eq_left (by omega)]
    constructor
    · intro _ last
      omega
    · intro _
      rfl
  · rw [if_neg later, Except.ok.injEq]
    by_cases fits : seconds * 1000 + (nanoseconds + 999999) / 1000000 ≤ 2147483647
    · rw [min_eq_right fits, asInt, Int.bmod_eq_of_le (by omega) (by omega)]
      constructor
      · intro _ last
        omega
      · intro _
        rfl
    · -- the sum has wrapped to a negative number
      have wrapped : asInt (seconds * 1000 + (nanoseconds + 999999) / 1000000) < 0 := by
        rw [asInt, Int.bmod_def]
        omega
      rw [min_eq_left (by omega)]
      constructor
      · intro same
        omega
      · intro early
        omega

/-- A `timespec` of 2147483.647 seconds, the last whose milliseconds fit. -/
theorem timeout_exact_last :
    let m : Memory := Memory.storeWords (fun _ => 0) 4096 [2147483, 647000000]
    timespecTimeout m 4096 false =
      .ok (min intMax (milliseconds (seconds m 4096 false) (nanoseconds m 4096 false))) := by
  intro m
  apply (timeout_exact_iff m (by decide) false _ _ _).mpr
  all_goals decide +kernel

/-- One of 2147483.648 seconds, in both layouts: the host waits without a timeout. -/
theorem timeout_wraps :
    let m : Memory := Memory.storeWords (fun _ => 0) 4096 [2147483, 648000000]
    let m64 : Memory := Memory.storeWords (fun _ => 0) 4096 [2147483, 0, 648000000, 0]
    timespecTimeout m 4096 false = .ok (-2147483648) ∧
    milliseconds (seconds m 4096 false) (nanoseconds m 4096 false) = intMax + 1 ∧
    timespecTimeout m64 4096 true = .ok (-2147483648) ∧
    milliseconds (seconds m64 4096 true) (nanoseconds m64 4096 true) = intMax + 1 := by
  decide +kernel

end Linuxemu.Poll
