import Linuxemu.Lib.Runs
import Mathlib.Data.List.Perm.Subperm
import Mathlib.Data.UInt

/-! Thread ids (`guest_thread.c`): where they come from, and the registry by which
`guest_thread_kill` finds a thread. -/
namespace Linuxemu.ThreadIds
open Lib
variable {pid : UInt32} {first : Nat}

def tidMask : UInt32 := 0x3fffffff

def initialGuestTid (pid : UInt32) : UInt32 :=
  let tid := pid &&& tidMask
  if tid = 0 then 1 else tid

/-- The state of a thread. `number` is history: how many ids had been given out before its own. -/
structure GuestThread where
  number : Nat
  tid : UInt32
  deriving DecidableEq, Repr

/-- `cloning` are the threads that have their id and are not in the registry yet;
`allocated` is history. -/
structure Threads where
  nextTid : UInt32
  threadRegistry : List GuestThread
  cloning : List GuestThread
  allocated : Nat
  deriving DecidableEq, Repr

variable {s t : Threads}

/-- Also the child's side of a fork. -/
def guestThreadInitialize (pid : UInt32) : Threads :=
  let tid := initialGuestTid pid
  ⟨tid + 1, [⟨0, tid⟩], [], 1⟩

/-- What some thread of the process does next: one round of the loop of
`allocate_guest_tid`, the end of a clone, or its own end. -/
inductive Event where
  | allocate
  | register (thread : GuestThread)
  | abandon (thread : GuestThread)
  | finish (thread : GuestThread)

variable {e : Event}

/-- `none` where the step cannot be taken; the main thread ends with the process. -/
def Threads.next (s : Threads) : Event → Option Threads
  | .allocate =>
    let tid := s.nextTid &&& tidMask
    let s := { s with nextTid := s.nextTid + 1 }
    if tid = 0 then some s
    else some { s with cloning := ⟨s.allocated, tid⟩ :: s.cloning, allocated := s.allocated + 1 }
  | .register thread =>
    if thread ∈ s.cloning then
      some { s with
        cloning := s.cloning.erase thread
        threadRegistry := thread :: s.threadRegistry }
    else none
  -- the host could not create the thread
  | .abandon thread =>
    if thread ∈ s.cloning then some { s with cloning := s.cloning.erase thread } else none
  | .finish thread =>
    if thread ∈ s.threadRegistry ∧ thread.number ≠ 0 then
      some { s with threadRegistry := s.threadRegistry.erase thread }
    else none

def Step (s : Threads) (e : Event) (t : Threads) : Prop := s.next e = some t

/-- Every state of a process with this pid. -/
def Reachable (pid : UInt32) : Threads → Prop :=
  Run Step (fun _ _ => True) (· = guestThreadInitialize pid)

/-- The thread a `guest_thread_kill` signals, if any. -/
def Threads.killed (s : Threads) (tid : Int) : Option GuestThread :=
  s.threadRegistry.find? fun thread => decide ((thread.tid.toNat : Int) = tid)

/-- Ids in the 30-bit range of a robust futex word, no two alike, and each reaches the thread
that has it. -/
structure Threads.IdsOk (s : Threads) : Prop where
  valid : ∀ thread ∈ s.threadRegistry, 1 ≤ thread.tid.toNat ∧ thread.tid.toNat ≤ 2 ^ 30 - 1
  unique : s.threadRegistry.Pairwise fun thread other => thread.tid ≠ other.tid
  killed : ∀ thread ∈ s.threadRegistry, s.killed thread.tid.toNat = some thread

/-! ## The ids in order -/

/-- The id given out after `number` others, the first being `first`. -/
def tidAt (first number : Nat) : Nat := (first - 1 + number) % (2 ^ 30 - 1) + 1

theorem tidAt_valid (first number : Nat) :
    1 ≤ tidAt first number ∧ tidAt first number ≤ 2 ^ 30 - 1 := by
  unfold tidAt
  omega

theorem tidAt_eq_iff (first : Nat) (m n : Nat) :
    tidAt first m = tidAt first n ↔ m % (2 ^ 30 - 1) = n % (2 ^ 30 - 1) := by
  unfold tidAt
  omega

theorem tidAt_zero (valid : 1 ≤ first ∧ first ≤ 2 ^ 30 - 1) :
    tidAt first 0 = first := by
  unfold tidAt
  omega

theorem tidAt_succ (first number : Nat) :
    tidAt first (number + 1) = tidAt first number + 1 ∨
      (tidAt first number = 2 ^ 30 - 1 ∧ tidAt first (number + 1) = 1) := by
  unfold tidAt
  omega

theorem masked_toNat (tid : UInt32) : (tid &&& tidMask).toNat = tid.toNat % 2 ^ 30 := by
  rw [UInt32.toNat_and]
  exact Nat.and_two_pow_sub_one_eq_mod tid.toNat 30

theorem succ_toNat_mod (tid : UInt32) :
    (tid + 1).toNat % 2 ^ 30 = (tid.toNat % 2 ^ 30 + 1) % 2 ^ 30 := by
  rw [UInt32.toNat_add]
  change (tid.toNat + 1) % 2 ^ 32 % 2 ^ 30 = _
  omega

theorem initialGuestTid_valid (pid : UInt32) :
    1 ≤ (initialGuestTid pid).toNat ∧ (initialGuestTid pid).toNat ≤ 2 ^ 30 - 1 := by
  have masked := masked_toNat pid
  unfold initialGuestTid
  simp only
  split
  · decide
  · rename_i nonzero
    have : (pid &&& tidMask).toNat ≠ 0 := fun zero => nonzero (UInt32.toNat.inj zero)
    omega

/-! ## Runs -/

def Threads.all (s : Threads) : List GuestThread := s.threadRegistry ++ s.cloning

/-- What a step can do to the ids: nothing new, a round that draws zero, or one more id. -/
theorem step_cases (step : Step s e t) :
    (t.nextTid = s.nextTid ∧ t.allocated = s.allocated ∧ t.all.Subperm s.all) ∨
    (t.nextTid = s.nextTid + 1 ∧ t.allocated = s.allocated ∧ t.all.Subperm s.all ∧
      s.nextTid.toNat % 2 ^ 30 = 0) ∨
    (t.nextTid = s.nextTid + 1 ∧ t.allocated = s.allocated + 1 ∧
      s.nextTid.toNat % 2 ^ 30 ≠ 0 ∧
      t.all.Subperm (⟨s.allocated, s.nextTid &&& tidMask⟩ :: s.all)) := by
  unfold Step Threads.next at step
  cases e with
  | allocate =>
    have masked := masked_toNat s.nextTid
    simp only at step
    split at step <;> cases step
    · rename_i zero
      rw [zero] at masked
      exact .inr (.inl ⟨rfl, rfl, .refl _, masked.symm⟩)
    · rename_i nonzero
      have some : s.nextTid.toNat % 2 ^ 30 ≠ 0 := fun zero =>
        nonzero (UInt32.toNat.inj (masked.trans zero))
      exact .inr (.inr ⟨rfl, rfl, some, List.perm_middle.subperm⟩)
  | register thread =>
    simp only at step
    split at step <;> cases step
    rename_i there
    have moved : (thread :: s.threadRegistry ++ s.cloning.erase thread).Perm s.all :=
      List.perm_middle.symm.trans ((List.perm_cons_erase there).symm.append_left _)
    exact .inl ⟨rfl, rfl, moved.subperm⟩
  | abandon thread =>
    simp only at step
    split at step <;> cases step
    exact .inl ⟨rfl, rfl, (List.erase_sublist.append_left _).subperm⟩
  | finish thread =>
    simp only at step
    split at step <;> cases step
    exact .inl ⟨rfl, rfl, (List.erase_sublist.append_right _).subperm⟩

/-- Each thread has the id of its number, and `next_tid` stands at the next one or, if that
is 1, at the zero before it. -/
structure Ordered (first : Nat) (s : Threads) : Prop where
  tids : ∀ thread ∈ s.all, thread.tid.toNat = tidAt first thread.number
  older : ∀ thread ∈ s.all, thread.number < s.allocated
  distinct : (s.all.map GuestThread.number).Nodup
  next : s.nextTid.toNat % 2 ^ 30 = tidAt first s.allocated ∨
    (s.nextTid.toNat % 2 ^ 30 = 0 ∧ tidAt first s.allocated = 1)

theorem nodup_of_subperm {threads others : List GuestThread} (fewer : threads.Subperm others)
    (distinct : (others.map GuestThread.number).Nodup) :
    (threads.map GuestThread.number).Nodup := by
  obtain ⟨kept, same, sub⟩ := fewer
  exact (same.map _).nodup_iff.mp ((sub.map _).nodup distinct)

theorem initialize_ordered (pid : UInt32) :
    Ordered (initialGuestTid pid).toNat (guestThreadInitialize pid) := by
  have valid := initialGuestTid_valid pid
  have zero := tidAt_zero valid
  have one := tidAt_succ (initialGuestTid pid).toNat 0
  have bound := tidAt_valid (initialGuestTid pid).toNat (0 + 1)
  refine ⟨?_, ?_, List.nodup_singleton _, ?_⟩
  · intro thread there
    cases List.mem_singleton.mp there
    exact zero.symm
  · intro thread there
    cases List.mem_singleton.mp there
    exact Nat.one_pos
  · change (initialGuestTid pid + 1).toNat % 2 ^ 30 = tidAt _ (0 + 1) ∨
      (initialGuestTid pid + 1).toNat % 2 ^ 30 = 0 ∧ tidAt _ (0 + 1) = 1
    rw [succ_toNat_mod]
    omega

theorem step_ordered (ok : Ordered first s) (step : Step s e t) : Ordered first t := by
  obtain ⟨tids, older, distinct, next⟩ := ok
  obtain ⟨same, count, fewer⟩ | ⟨round, count, fewer, zero⟩ | ⟨round, count, nonzero, fewer⟩ :=
    step_cases step
  · exact ⟨fun thread there => tids thread (fewer.subset there),
      fun thread there => count ▸ older thread (fewer.subset there),
      nodup_of_subperm fewer distinct, by rw [same, count]; exact next⟩
  · refine ⟨fun thread there => tids thread (fewer.subset there),
      fun thread there => count ▸ older thread (fewer.subset there),
      nodup_of_subperm fewer distinct, ?_⟩
    rw [round, count, succ_toNat_mod]
    have valid := tidAt_valid first s.allocated
    omega
  · have drawn : (s.nextTid &&& tidMask).toNat = tidAt first s.allocated := by
      rw [masked_toNat]
      omega
    have new {thread : GuestThread} (there : thread ∈ t.all) :
        thread = ⟨s.allocated, s.nextTid &&& tidMask⟩ ∨ thread ∈ s.all :=
      List.mem_cons.mp (fewer.subset there)
    refine ⟨?_, ?_, nodup_of_subperm fewer ?_, ?_⟩
    · intro thread there
      obtain rfl | old := new there
      · exact drawn
      · exact tids thread old
    · intro thread there
      rw [count]
      obtain rfl | old := new there
      · exact Nat.lt_succ_self _
      · exact Nat.lt_succ_of_lt (older thread old)
    · rw [List.map_cons, List.nodup_cons]
      refine ⟨?_, distinct⟩
      intro there
      obtain ⟨thread, old, number⟩ := List.mem_map.mp there
      exact Nat.lt_irrefl _ (number ▸ older thread old)
    · rw [round, count, succ_toNat_mod]
      have after := tidAt_succ first s.allocated
      have valid := tidAt_valid first (s.allocated + 1)
      omega

theorem reachable_ordered (run : Reachable pid s) :
    Ordered (initialGuestTid pid).toNat s :=
  run.invariant _ (fun _ start => start ▸ initialize_ordered pid)
    fun _ _ _ ok _ step => step_ordered ok step

theorem Reachable.next (run : Reachable pid s) (e : Event) (step : s.next e = some t) :
    Reachable pid t :=
  Run.next run trivial step

/-- The ids are unique exactly while no two registered threads were numbered a multiple of
2^30 - 1 apart; they are always valid. -/
theorem ids_ok_iff {pid : UInt32} {s : Threads} (run : Reachable pid s) :
    s.IdsOk ↔ ∀ thread ∈ s.threadRegistry, ∀ other ∈ s.threadRegistry,
      thread.number % (2 ^ 30 - 1) = other.number % (2 ^ 30 - 1) → thread = other := by
  have ok := reachable_ordered run
  have tids {thread : GuestThread} (there : thread ∈ s.threadRegistry) :=
    ok.tids thread (List.mem_append_left _ there)
  have distinct : (s.threadRegistry.map GuestThread.number).Nodup :=
    nodup_of_subperm (List.sublist_append_left _ _).subperm ok.distinct
  constructor
  · intro ids thread there other there' apart
    have same : thread.tid = other.tid := by
      apply UInt32.toNat.inj
      rw [tids there, tids there', tidAt_eq_iff]
      exact apart
    have reached := ids.killed thread there
    rw [same, ids.killed other there'] at reached
    exact (Option.some.inj reached).symm
  · intro apart
    have same {thread other : GuestThread} (there : thread ∈ s.threadRegistry)
        (there' : other ∈ s.threadRegistry) (tid : thread.tid.toNat = other.tid.toNat) :
        thread = other := by
      rw [tids there, tids there', tidAt_eq_iff] at tid
      exact apart thread there other there' tid
    refine ⟨?_, ?_, ?_⟩
    · intro thread there
      rw [tids there]
      exact tidAt_valid _ _
    · refine (List.pairwise_map.mp distinct).imp_of_mem ?_
      intro thread other there there' numbers tid
      exact numbers (congrArg GuestThread.number (same there there' (congrArg UInt32.toNat tid)))
    · intro thread there
      unfold Threads.killed
      cases found : s.threadRegistry.find? fun other =>
          decide ((other.tid.toNat : Int) = thread.tid.toNat) with
      | none => simpa using List.find?_eq_none.mp found thread there
      | some other =>
        have tid := List.find?_some found
        rw [decide_eq_true_eq] at tid
        rw [same (List.mem_of_find?_eq_some found) there (Int.ofNat.inj tid)]

/-- The main thread of process 0x40000002 and the first it starts. -/
theorem ids_ok_two : Threads.IdsOk ⟨4, [⟨1, 3⟩, ⟨0, 2⟩], [], 2⟩ := by
  have start : Reachable 0x40000002 ⟨3, [⟨0, 2⟩], [], 1⟩ := .start (by decide)
  have run : Reachable 0x40000002 ⟨4, [⟨1, 3⟩, ⟨0, 2⟩], [], 2⟩ :=
    (start.next .allocate rfl).next (.register ⟨1, 3⟩) rfl
  exact (ids_ok_iff run).mpr (by decide)

/-! ## All ids used up -/

section
variable {pid : UInt32} {s : Threads}

/-- A clone gets its id, after a round that drew zero if need be. -/
theorem reachable_allocate (run : Reachable pid s) :
    ∃ t tid, Reachable pid t ∧ t.threadRegistry = s.threadRegistry ∧
      t.cloning = ⟨s.allocated, tid⟩ :: s.cloning ∧ t.allocated = s.allocated + 1 := by
  have masked := masked_toNat s.nextTid
  have masked' := masked_toNat (s.nextTid + 1)
  by_cases zero : s.nextTid &&& tidMask = 0
  · have nonzero : (s.nextTid + 1) &&& tidMask ≠ 0 := by
      intro again
      rw [zero] at masked
      rw [again, succ_toNat_mod, ← masked] at masked'
      exact absurd masked' (by decide)
    exact ⟨_, _, (run.next .allocate (if_pos zero)).next .allocate (if_neg nonzero), rfl, rfl, rfl⟩
  · exact ⟨_, _, run.next .allocate (if_neg zero), rfl, rfl, rfl⟩

/-- A thread that starts and ends leaves the registry as it was. -/
theorem reachable_round (run : Reachable pid s) (idle : s.cloning = []) (started : 0 < s.allocated) :
    ∃ t, Reachable pid t ∧ t.threadRegistry = s.threadRegistry ∧ t.cloning = [] ∧
      t.allocated = s.allocated + 1 := by
  obtain ⟨t, tid, run, registry, cloning, count⟩ := reachable_allocate run
  rw [idle] at cloning
  have registered := run.next (.register ⟨s.allocated, tid⟩)
    (if_pos (cloning ▸ List.mem_singleton_self _))
  have finished := registered.next (.finish ⟨s.allocated, tid⟩)
    (if_pos ⟨List.mem_cons_self, Nat.pos_iff_ne_zero.mp started⟩)
  refine ⟨_, finished, ?_, ?_, count⟩
  · simp [registry]
  · simp [cloning]

theorem reachable_rounds (pid : UInt32) (count : Nat) :
    ∃ s, Reachable pid s ∧ s.threadRegistry = [⟨0, initialGuestTid pid⟩] ∧ s.cloning = [] ∧
      s.allocated = count + 1 := by
  induction count with
  | zero => exact ⟨guestThreadInitialize pid, .start rfl, rfl, rfl, rfl⟩
  | succ count ih =>
    obtain ⟨s, run, registry, idle, allocated⟩ := ih
    obtain ⟨t, run, same, idle, next⟩ := reachable_round run idle (by omega)
    exact ⟨t, run, same.trans registry, idle, by omega⟩

end

/-- The thread created after 2^30 - 2 others have come and gone has the id of the main thread. -/
theorem main_tid_again :
    ∃ s thread other, Reachable 1 s ∧ s.threadRegistry = [thread, other] ∧ thread ≠ other ∧
      thread.tid = 1 ∧ other.tid = 1 ∧ ¬ s.IdsOk := by
  obtain ⟨s, run, registry, idle, count⟩ := reachable_rounds 1 (2 ^ 30 - 2)
  obtain ⟨t, tid, run, same, cloning, -⟩ := reachable_allocate run
  rw [idle] at cloning
  have registered := run.next (.register ⟨s.allocated, tid⟩)
    (if_pos (cloning ▸ List.mem_singleton_self _))
  have main : initialGuestTid 1 = 1 := by decide
  have last : tid = 1 := by
    apply UInt32.toNat.inj
    rw [(reachable_ordered registered).tids ⟨s.allocated, tid⟩ List.mem_cons_self, main, count]
    change tidAt 1 (2 ^ 30 - 2 + 1) = 1
    decide
  rw [main] at registry
  refine ⟨_, ⟨s.allocated, tid⟩, ⟨0, 1⟩, registered, ?_, ?_, last, rfl, ?_⟩
  · rw [same, registry]
  · intro equal
    have number := congrArg GuestThread.number equal
    simp only [count] at number
    omega
  · intro ids
    have unique := ids.unique
    rw [same, registry, last] at unique
    exact List.rel_of_pairwise_cons unique List.mem_cons_self rfl

end Linuxemu.ThreadIds
