import Linuxemu.ThreadLife

/-! The ids of guest threads. For `next_tid` and the registry, what clones, ends and forks do is a
run of `ThreadIds`, in which a thread is its id and its number. -/
namespace Linuxemu.ThreadLife
open Lib
open ThreadIds (Threads guestThreadInitialize tidMask)

/-- The state a clone has drawn an id for and not registered yet. -/
def Stage.numbered : Stage → Option Pointer
  | .creating c _ | .recording c _ _ | .registering c _ _ => some c.child
  | .starting | .awaiting | .telling | .resuming | .guest | .drawing _ | .notifying .. | .retiring
  | .releasing .. | .unlinking _ | .clearing _ | .closing | .forgetting | .freeing => none

def World.numbered (w : World) (h : HostThread) : Option Pointer :=
  (w.threads h).bind fun t => t.stage.numbered

def World.tid (w : World) (a : Pointer) : UInt32 := ((w.heap a).map GuestThreadState.tid).getD 0

def World.thread (w : World) (number : Pointer → Nat) (a : Pointer) : ThreadIds.GuestThread :=
  ⟨number a, w.tid a⟩

/-- The ids and the registry are those of `s`, where the state at `a` was numbered `number a`. -/
structure Shows (w : World) (s : Threads) (number : Pointer → Nat) : Prop where
  nextTid : s.nextTid = w.nextTid
  main : mainThread ∈ w.threadRegistry ∧ number mainThread = 0
  registry : s.threadRegistry = w.threadRegistry.map (w.thread number)
  cloning : ∀ h a, w.numbered h = some a → w.thread number a ∈ s.cloning
  apart : ∀ h k a b, w.numbered h = some a → w.numbered k = some b → number a = number b → a = b

def Numbered (w : World) : Prop :=
  ∃ pid s number, ThreadIds.Reachable pid s ∧ Shows w s number

attribute [grind =] World.put_threads World.put_heap World.put_threadRegistry World.write_threads
  World.write_heap World.write_threadRegistry World.drop_threads World.drop_heap
  World.drop_threadRegistry World.leave_threads World.leave_heap World.leave_threadRegistry
  World.renewed_threads World.renewed_heap World.renewed_threadRegistry World.numbered World.tid
  Stage.numbered

section
variable {whole : Bool} {w w' : World} {h : HostThread} {c : Pointer}

/-! ## What a step does to the ids -/

theorem Numbered.same (ids : Numbered w) (nextTid : w'.nextTid = w.nextTid)
    (registry : w'.threadRegistry = w.threadRegistry)
    (tids : ∀ a ∈ w.threadRegistry, w'.tid a = w.tid a)
    (numbered : ∀ k a, w'.numbered k = some a → w.numbered k = some a ∧ w'.tid a = w.tid a) :
    Numbered w' := by
  obtain ⟨pid, s, number, run, shows⟩ := ids
  refine ⟨pid, s, number, run, shows.nextTid.trans nextTid.symm, registry ▸ shows.main, ?_, ?_, ?_⟩
  · rw [shows.registry, registry]
    exact List.map_congr_left fun a member => by rw [World.thread, World.thread, tids a member]
  · intro k a drawn
    obtain ⟨before, tid⟩ := numbered k a drawn
    rw [World.thread, tid]
    exact shows.cloning k a before
  · intro k l a b first second
    exact shows.apart k l a b (numbered k a first).1 (numbered l b second).1

/-- A state is changed, but for its id. -/
theorem Numbered.write {memory : UInt32 → UInt32} {t t' : Thread} {n n' : GuestThreadState}
    (ids : Numbered w) (here : w.threads h = some t) (found : w.heap c = some n)
    (tid : n'.tid = n.tid)
    (stage : t'.stage.numbered = none ∨ t'.stage.numbered = t.stage.numbered) :
    Numbered (({ w with memory }.write c n').put h t') :=
  ids.same rfl rfl (by grind) (by grind)

/-- A round of `allocate_guest_tid` that draws zero. -/
theorem Numbered.passed (ids : Numbered w) (zero : w.nextTid &&& tidMask = 0) :
    Numbered { w with nextTid := w.nextTid + 1 } := by
  obtain ⟨pid, s, number, run, shows⟩ := ids
  have next : s.next .allocate = some { s with nextTid := s.nextTid + 1 } :=
    if_pos (shows.nextTid ▸ zero)
  exact ⟨pid, _, number, run.next _ next,
    { shows with nextTid := congrArg (· + 1) shows.nextTid }⟩

/-- One that draws an id for the state at `c`. -/
theorem Numbered.drawn (ids : Numbered w) (nonzero : w.nextTid &&& tidMask ≠ 0)
    (nextTid : w'.nextTid = w.nextTid + 1) (registry : w'.threadRegistry = w.threadRegistry)
    (unlisted : c ∉ w.threadRegistry) (tid : w'.tid c = w.nextTid &&& tidMask)
    (tids : ∀ a, a ≠ c → w'.tid a = w.tid a)
    (numbered : ∀ k a, w'.numbered k = some a → a = c ∨ w.numbered k = some a) :
    Numbered w' := by
  obtain ⟨pid, s, number, run, shows⟩ := ids
  have next : s.next .allocate = some ⟨s.nextTid + 1, s.threadRegistry,
      ⟨s.allocated, s.nextTid &&& tidMask⟩ :: s.cloning, s.allocated + 1⟩ :=
    if_neg (shows.nextTid ▸ nonzero)
  let number' := Function.update number c s.allocated
  have drawn : w'.thread number' c = ⟨s.allocated, s.nextTid &&& tidMask⟩ := by
    simp [World.thread, number', tid, shows.nextTid]
  have others (a : Pointer) (other : a ≠ c) : w'.thread number' a = w.thread number a := by
    simp [World.thread, number', other, tids]
  have older {k : HostThread} {a : Pointer} (mine : w.numbered k = some a) :
      number a < s.allocated :=
    (ThreadIds.reachable_ordered run).older _ (List.mem_append_right _ (shows.cloning k a mine))
  refine ⟨pid, _, number', run.next _ next, ?_, ?_, ?_, ?_, ?_⟩
  · rw [nextTid, ← shows.nextTid]
  · have other : mainThread ≠ c := fun same => unlisted (same ▸ shows.main.1)
    exact ⟨registry ▸ shows.main.1, (Function.update_of_ne other _ _).trans shows.main.2⟩
  · rw [shows.registry, registry]
    exact List.map_congr_left fun a member => (others a fun same => unlisted (same ▸ member)).symm
  · intro k a mine
    by_cases same : a = c
    · rw [same, drawn]
      exact List.mem_cons_self
    · rw [others a same]
      exact List.mem_cons_of_mem _ (shows.cloning k a ((numbered k a mine).resolve_left same))
  · intro k l a b first second same
    grind [Function.update_apply, shows.apart]

section
variable (ids : Numbered w) (mine : w.numbered h = some c) (nextTid : w'.nextTid = w.nextTid)
  (numbered : ∀ k a, w'.numbered k = some a →
    w.numbered k = some a ∧ a ≠ c ∧ w'.tid a = w.tid a)
include ids mine nextTid numbered

/-- The clone that drew the id of the state at `c` is done with it. -/
theorem Numbered.placed (tids : ∀ a ∈ w.threadRegistry, w'.tid a = w.tid a)
    (registry : w'.threadRegistry = w.threadRegistry ∨
      w'.threadRegistry = c :: w.threadRegistry ∧ w'.tid c = w.tid c) : Numbered w' := by
  obtain ⟨pid, s, number, run, shows⟩ := ids
  have there := shows.cloning h c mine
  have same {a : Pointer} (tid : w'.tid a = w.tid a) : w'.thread number a = w.thread number a := by
    rw [World.thread, tid, World.thread]
  have left (k : HostThread) (a : Pointer) (other : w'.numbered k = some a) :
      w'.thread number a ∈ s.cloning.erase (w.thread number c) := by
    obtain ⟨before, apart, tid⟩ := numbered k a other
    rw [same tid, List.mem_erase_of_ne]
    · exact shows.cloning k a before
    · exact fun equal =>
        apart (shows.apart k h a c before mine (congrArg ThreadIds.GuestThread.number equal))
  have apart (k l : HostThread) (a b : Pointer) (first : w'.numbered k = some a)
      (second : w'.numbered l = some b) : number a = number b → a = b :=
    shows.apart k l a b (numbered k a first).1 (numbered l b second).1
  have listed : s.threadRegistry = w.threadRegistry.map (w'.thread number) := by
    rw [shows.registry]
    exact List.map_congr_left fun a member => (same (tids a member)).symm
  obtain registry | ⟨registry, tid⟩ := registry
  · exact ⟨pid, _, number, run.next (.abandon _) (if_pos there),
      shows.nextTid.trans nextTid.symm, registry ▸ shows.main, registry ▸ listed, left, apart⟩
  · refine ⟨pid, _, number, run.next (.register _) (if_pos there), shows.nextTid.trans nextTid.symm,
      ⟨?_, shows.main.2⟩, ?_, left, apart⟩
    · exact registry ▸ List.mem_cons_of_mem _ shows.main.1
    · rw [registry, List.map_cons, same tid, listed]

end

theorem erase_map {α β : Type} [DecidableEq α] [DecidableEq β] {f : α → β} {c : α} {l : List α}
    (only : ∀ a ∈ l, f a = f c → a = c) : (l.map f).erase (f c) = (l.erase c).map f := by
  induction l with
  | nil => rfl
  | cons a l ih => grind

/-- The thread whose state is at `c` leaves the registry. -/
theorem Numbered.finished (ids : Numbered w) (member : c ∈ w.threadRegistry)
    (other : c ≠ mainThread) (nextTid : w'.nextTid = w.nextTid)
    (registry : w'.threadRegistry = w.threadRegistry.erase c) (tids : ∀ a, w'.tid a = w.tid a)
    (numbered : ∀ k a, w'.numbered k = some a → w.numbered k = some a) : Numbered w' := by
  obtain ⟨pid, s, number, run, shows⟩ := ids
  have same : w'.thread number = w.thread number := by
    funext a
    rw [World.thread, tids, World.thread]
  have distinct : (w.threadRegistry.map number).Nodup := by
    have all := (ThreadIds.reachable_ordered run).distinct
    rw [Threads.all, List.map_append, shows.registry, List.map_map] at all
    exact all.of_append_left
  have there : w.thread number c ∈ s.threadRegistry :=
    shows.registry ▸ List.mem_map_of_mem member
  have nonzero : number c ≠ 0 := fun zero =>
    other (List.inj_on_of_nodup_map distinct member shows.main.1 (zero.trans shows.main.2.symm))
  refine ⟨pid, _, number, run.next (.finish _) (if_pos ⟨there, nonzero⟩),
    shows.nextTid.trans nextTid.symm, ⟨?_, shows.main.2⟩, ?_, ?_, ?_⟩
  · rw [registry]
    exact (List.mem_erase_of_ne other.symm).mpr shows.main.1
  · rw [same, registry, shows.registry]
    refine erase_map fun a there equal => ?_
    exact List.inj_on_of_nodup_map distinct there member
      (congrArg ThreadIds.GuestThread.number equal)
  · intro k a mine
    rw [same]
    exact shows.cloning k a (numbered k a mine)
  · intro k l a b first second
    exact shows.apart k l a b (numbered k a first) (numbered l b second)

/-- A fork begins the ids anew. -/
theorem renewed_ids (w : World) (h : HostThread) (pid : UInt32) (own : Own) (result : Int) :
    Numbered (w.renewed h pid own result) := by
  have idle (k : HostThread) : (w.renewed h pid own result).numbered k = none := by grind
  exact ⟨pid, guestThreadInitialize pid, fun _ => 0, .start rfl, rfl,
    ⟨List.mem_singleton_self _, rfl⟩, rfl, fun k a drawn => by grind, fun k l a b drawn => by grind⟩

end
end Linuxemu.ThreadLife
