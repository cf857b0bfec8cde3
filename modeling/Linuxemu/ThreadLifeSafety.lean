import Linuxemu.ThreadLifeIds

/-! No interleaving of clones, ends, kills, signals and forks faults. A thread has its own state,
and a clone the state it makes; how far each of them has got with it is the invariant. -/
namespace Linuxemu.ThreadLife
open Lib
variable {stage : Stage} {r : List Pointer} {next : Outcome}

/-- What a clone has done to the state it makes. -/
structure Making where
  child : Pointer
  created : Option HostThread
  recorded : Option HostThread
  listed : Bool
  notes : List Note

variable {m : Making}

/-- How a thread stands to its own state: `keyed` while `pthread_getspecific` gives it, `retired`
when it is off the registry again, `done` says how much of its life has been noted. -/
structure Standing where
  waits : Bool
  keyed : Bool
  ends : Bool
  retired : Bool
  done : Nat

namespace Stage

def making : Stage → Option Making
  | .drawing c | .creating c _ => some ⟨c.child, none, none, false, []⟩
  | .recording c _ k => some ⟨c.child, some k, none, false, []⟩
  | .registering c _ k => some ⟨c.child, some k, some k, false, []⟩
  | .notifying c _ k => some ⟨c.child, some k, some k, true, []⟩
  | .releasing c _ k => some ⟨c.child, some k, some k, true, [.parentTold]⟩
  | _ => none

def standing : Stage → Standing
  | .starting => ⟨true, false, false, false, 1⟩
  | .awaiting => ⟨true, true, false, false, 1⟩
  | .telling => ⟨false, true, false, false, 1⟩
  | .resuming => ⟨false, true, false, false, 2⟩
  | .retiring => ⟨false, true, true, false, 3⟩
  | .unlinking _ => ⟨false, true, true, false, 4⟩
  | .clearing _ => ⟨false, true, true, true, 5⟩
  | .closing | .forgetting => ⟨false, true, true, true, 6⟩
  | .freeing => ⟨false, false, true, true, 6⟩
  | _ => ⟨false, true, false, false, 3⟩

theorem waits_making (makes : stage.making = some m) :
    stage.standing.waits = false := by
  cases stage <;> first | rfl | cases makes

theorem making_numbered {c : Pointer} (drawn : stage.numbered = some c) :
    ∃ m, stage.making = some m ∧ m.child = c ∧ m.listed = false := by
  cases stage <;> cases drawn <;> exact ⟨_, rfl, rfl, rfl⟩

theorem done_waits (waits : stage.standing.waits = true) :
    stage.standing.done = 1 ∧ stage.standing.retired = false := by
  cases stage <;> first | exact ⟨rfl, rfl⟩ | cases waits

end Stage

/-- The state that a thread makes. -/
def Thread.child (t : Thread) : Option Pointer := t.stage.making.map Making.child

/-- What holds of a thread and its own state; the clone that made the state may not have let it go
yet. -/
structure OwnOk (registry : List Pointer) (h : HostThread) (t : Thread) (n : GuestThreadState) :
    Prop where
  owner : n.owner = some h
  key : t.key = if t.stage.standing.keyed then some t.state else none
  ends : t.stage.standing.ends = true → t.state ≠ mainThread
  waits : n.maker = none ∨ t.stage.standing.waits = true
  start : n.maker = none → t.stage.standing.waits = true → n.start = true
  notes : n.maker = none → t.state ≠ mainThread → n.notes = lifecycle.take t.stage.standing.done
  listed : n.maker = none → (t.state ∈ registry ↔ t.stage.standing.retired = false)

structure MakingOk (registry : List Pointer) (h : HostThread) (m : Making) (n : GuestThreadState) :
    Prop where
  maker : n.maker = some h
  start : n.start = false
  owner : n.owner = m.created
  recorded : n.hostThread = m.recorded
  notes : n.notes = m.notes
  listed : m.child ∈ registry ↔ m.listed = true

/-- `whole` if no fork has left states behind. -/
structure Inv (whole : Bool) (w : World) : Prop where
  main : ∃ n, w.heap mainThread = some n ∧ n.maker = none
  own : ∀ h t, w.threads h = some t → ∃ n, w.heap t.state = some n ∧ OwnOk w.threadRegistry h t n
  made : ∀ h t m, w.threads h = some t → t.stage.making = some m →
    ∃ n, w.heap m.child = some n ∧ MakingOk w.threadRegistry h m n
  owner : ∀ a n h, w.heap a = some n → n.owner = some h → (w.threads h).map Thread.state = some a
  maker : ∀ a n h, w.heap a = some n → n.maker = some h → (w.threads h).bind Thread.child = some a
  nodup : w.threadRegistry.Nodup
  listed : ∀ a ∈ w.threadRegistry,
    ∃ n, w.heap a = some n ∧ n.owner ≠ none ∧ n.hostThread = n.owner
  kept : whole = true → ∀ a n, w.heap a = some n → n.owner ≠ none ∨ n.maker ≠ none
  ids : Numbered w

attribute [grind cases] OwnOk MakingOk Inv
attribute [grind intro] OwnOk MakingOk
attribute [grind =] Thread.child Stage.making Stage.standing

section
variable {whole : Bool} {w : World} {h : HostThread} {t t' : Thread} {n n' : GuestThreadState}
  {c : Pointer}

theorem put_self (here : w.threads h = some t) : w.put h t = w := by
  have same : (w.put h t).threads = w.threads := by grind
  exact congrArg (fun threads => { w with threads }) same

/-! ## Who has a state -/

/-- A thread that waits no longer has its state to itself. -/
theorem OwnOk.alone (ok : OwnOk r h t n) (waits : t.stage.standing.waits = false) :
    n.maker = none :=
  ok.waits.resolve_right (by rw [waits]; exact Bool.false_ne_true)

section
variable (inv : Inv whole w)
include inv

theorem Inv.ownOk (here : w.threads h = some t) (found : w.heap t.state = some n) :
    OwnOk w.threadRegistry h t n := by
  obtain ⟨n', found', ok⟩ := inv.own h t here
  cases found.symm.trans found'
  exact ok

/-- A state that is being made is some clone's. -/
theorem Inv.making (found : w.heap c = some n) (made : n.maker ≠ none) :
    ∃ x tx m, w.threads x = some tx ∧ tx.stage.making = some m ∧ m.child = c ∧
      MakingOk w.threadRegistry x m n := by
  obtain ⟨x, maker⟩ := Option.ne_none_iff_exists'.mp made
  obtain ⟨tx, there, child⟩ := Option.bind_eq_some_iff.mp (inv.maker c n x found maker)
  obtain ⟨m, makes, rfl⟩ := Option.map_eq_some_iff.mp child
  obtain ⟨n', found', ok⟩ := inv.made x tx m there makes
  cases found.symm.trans found'
  exact ⟨x, tx, m, there, makes, rfl, ok⟩

/-- A state that says start is nobody's to make. -/
theorem Inv.started (found : w.heap c = some n) (start : n.start = true) : n.maker = none := by
  by_contra made
  obtain ⟨x, tx, m, -, -, -, ok⟩ := inv.making found made
  exact Bool.false_ne_true (ok.start.symm.trans start)

/-- A state on the registry is that of a host thread that is there. -/
theorem Inv.present (member : c ∈ w.threadRegistry) :
    ∃ n x tx, w.heap c = some n ∧ n.hostThread = some x ∧ w.threads x = some tx ∧ tx.state = c := by
  obtain ⟨n, found, owned, host⟩ := inv.listed c member
  obtain ⟨x, owner⟩ := Option.ne_none_iff_exists'.mp owned
  obtain ⟨tx, there, own⟩ := Option.map_eq_some_iff.mp (inv.owner c n x found owner)
  exact ⟨n, x, tx, found, host.trans owner, there, own⟩

theorem Inv.numbered (h : HostThread) (c : Pointer) (drawn : w.numbered h = some c) :
    c ∉ w.threadRegistry ∧ ∃ n, w.heap c = some n ∧ n.maker = some h := by
  obtain ⟨t, here, stage⟩ := Option.bind_eq_some_iff.mp drawn
  obtain ⟨m, makes, rfl, listed⟩ := Stage.making_numbered stage
  obtain ⟨n, found, ok⟩ := inv.made h t m here makes
  exact ⟨by simp [ok.listed, listed], n, found, ok.maker⟩

/-! ## A thread and its own state -/

/-- A thread goes on with its own state. -/
theorem Inv.advanced (t' : Thread) (n' : GuestThreadState) (here : w.threads h = some t)
    (found : w.heap t.state = some n) (alone : n.maker = none) (state : t'.state = t.state)
    (making : t'.stage.making = t.stage.making) (numbered : t'.stage.numbered = t.stage.numbered)
    (same : n'.maker = n.maker ∧ n'.owner = n.owner ∧ n'.hostThread = n.hostThread ∧ n'.tid = n.tid)
    (ok : OwnOk w.threadRegistry h t' n') (memory : UInt32 → UInt32) :
    Inv whole (({ w with memory }.write t.state n').put h t') where
  ids := inv.ids.write here found same.2.2.2 (.inr numbered)
  main := by grind
  own := by grind
  made := by grind
  owner := by grind
  maker := by grind
  nodup := inv.nodup
  listed := by grind
  kept := by grind

/-- A thread goes on without a change to a state. -/
theorem Inv.put (here : w.threads h = some t) (state : t'.state = t.state)
    (making : t'.stage.making = t.stage.making) (numbered : t'.stage.numbered = t.stage.numbered)
    (keep : ∀ n, w.heap t.state = some n → OwnOk w.threadRegistry h t n →
      OwnOk w.threadRegistry h t' n) :
    Inv whole (w.put h t') :=
  { inv with
    own := by grind, made := by grind, owner := by grind, maker := by grind
    ids := inv.ids.same rfl rfl (fun _ _ => rfl) (by grind) }

theorem Inv.answered (here : w.threads h = some t) (result : Int) :
    Inv whole (w.put h { t with result }) :=
  inv.put here rfl rfl rfl fun _ _ ok => { ok with }

theorem Inv.stored (memory : UInt32 → UInt32) : Inv whole { w with memory } :=
  { inv with ids := inv.ids.same rfl rfl (fun _ _ => rfl) fun _ _ drawn => ⟨drawn, rfl⟩ }

/-- The next note on a thread's own state. -/
theorem Inv.noted (here : w.threads h = some t) (found : w.heap t.state = some n) (stage : Stage)
    (what : Note)
    (waits : t.stage.standing.waits = false) (making : stage.making = t.stage.making)
    (numbered : stage.numbered = t.stage.numbered)
    (next : stage.standing = { t.stage.standing with done := t.stage.standing.done + 1 })
    (note : lifecycle[t.stage.standing.done]? = some what) (memory : UInt32 → UInt32) :
    Inv whole (({ w with memory }.write t.state { n with notes := n.notes ++ [what] }).put h
      { t with stage }) := by
  have ok := inv.ownOk here found
  have alone := ok.alone waits
  refine inv.advanced { t with stage } { n with notes := n.notes ++ [what] } here found alone rfl
    making numbered ⟨rfl, rfl, rfl, rfl⟩ ?_ memory
  grind [List.take_add_one]

/-- A thread takes its state off the registry. -/
theorem Inv.unlinked {state : Pointer} {key : Option Pointer} {clear : UInt32} {result : Int}
    (here : w.threads h = some ⟨state, key, .unlinking clear, result⟩)
    (found : w.heap state = some n) :
    Inv whole (({ w with threadRegistry := w.threadRegistry.erase state }.write state
      { n with notes := n.notes ++ [Note.unlinked] }).put h
      ⟨state, key, .clearing clear, result⟩) := by
  have ok := inv.ownOk here found
  have mem (a : Pointer) : a ∈ w.threadRegistry.erase state ↔ a ≠ state ∧ a ∈ w.threadRegistry :=
    inv.nodup.mem_erase_iff
  have notes : n.notes = lifecycle.take 4 := ok.notes (ok.alone rfl) (ok.ends rfl)
  have after : OwnOk (w.threadRegistry.erase state) h ⟨state, key, .clearing clear, result⟩
      { n with notes := n.notes ++ [Note.unlinked] } :=
    { ok with
      notes := fun _ _ => by rw [notes]; rfl
      listed := fun _ => by simp [mem, Stage.standing] }
  have member : state ∈ w.threadRegistry := (ok.listed (ok.alone rfl)).mpr rfl
  exact { ids := inv.ids.finished member (ok.ends rfl) rfl rfl (by grind) (by grind)
          main := by grind, own := by grind, made := by grind, owner := by grind,
          maker := by grind, nodup := inv.nodup.erase state, listed := by grind, kept := by grind }

/-- A thread frees its state and ends. -/
theorem Inv.freed (here : w.threads h = some t) (makes : t.stage.making = none)
    (found : w.heap t.state = some n) (waits : t.stage.standing.waits = false)
    (ends : t.stage.standing.ends = true) (retired : t.stage.standing.retired = true) :
    Inv whole ((w.drop t.state).leave h) where
  ids := inv.ids.same rfl rfl (by grind) (fun x a _ => by have := inv.numbered x a; grind)
  main := by grind
  own := by grind
  made := by grind
  owner := by grind
  maker := by grind
  nodup := inv.nodup
  listed := by grind
  kept := by grind

end

theorem renewed_inv (w : World) (h : HostThread) (pid : UInt32) (own : Own) (result : Int)
    (alone : whole = true → ∀ a, w.heap a = none) : Inv whole (w.renewed h pid own result) := by
  have main : (w.renewed h pid own result).heap mainThread = some (mainState pid h own) := rfl
  exact { ids := renewed_ids .., main := ⟨_, main, rfl⟩, own := by grind [mainState],
          made := by grind, owner := by grind [mainState, Option.map_eq_some_iff],
          maker := by grind [mainState, Option.map_eq_some_iff],
          nodup := List.nodup_singleton _, listed := by grind [mainState],
          kept := by grind [mainState] }

/-! ## A clone and the state it makes -/

section
variable {m m' : Making} {state : Pointer} {key : Option Pointer} {result : Int} {tid : UInt32}
  {g : Cloning} {k : HostThread}

/-- The state is the clone's alone to make, and not its own. -/
theorem Inv.child (inv : Inv whole w) (here : w.threads h = some t)
    (makes : t.stage.making = some m) (found : w.heap m.child = some n) :
    MakingOk w.threadRegistry h m n ∧ t.state ≠ m.child ∧ m.child ≠ mainThread := by
  obtain ⟨n', found', ok⟩ := inv.made h t m here makes
  cases found.symm.trans found'
  refine ⟨ok, fun same => ?_, fun same => ?_⟩
  · have own := inv.ownOk here (same ▸ found)
    grind [Stage.waits_making makes]
  · grind

/-- A clone goes on with the state it makes. -/
theorem Inv.worked {nextTid : UInt32} {memory : UInt32 → UInt32} (inv : Inv whole w)
    (here : w.threads h = some t) (makes : t.stage.making = some m)
    (found : w.heap m.child = some n) (state : t'.state = t.state) (key : t'.key = t.key)
    (standing : t'.stage.standing = t.stage.standing)
    (makes' : t'.stage.making = some m') (child : m'.child = m.child)
    (ghost : n'.maker = n.maker ∧ n'.owner = n.owner)
    (host : m.listed = true → n'.hostThread = n.hostThread)
    (ok : MakingOk w.threadRegistry h m' n')
    (ids : Numbered (({ w with nextTid, memory }.write m.child n').put h t')) :
    Inv whole (({ w with nextTid, memory }.write m.child n').put h t') := by
  have before := inv.child here makes found
  exact { ids, main := by grind, own := by grind, made := by grind, owner := by grind,
          maker := by grind, nodup := inv.nodup, listed := by grind, kept := by grind }

theorem Inv.begun (inv : Inv whole w) (here : w.threads h = some ⟨state, key, .guest, result⟩)
    (fresh : w.heap g.child = none) (parent : Own) :
    Inv whole ((w.write g.child (clonedState g.gpr parent h)).put h
      ⟨state, key, .drawing g, result⟩) where
  ids := inv.ids.same rfl rfl (by grind) (fun x a _ => by have := inv.numbered x a; grind)
  main := by grind
  own := by grind
  made := by grind [clonedState]
  owner := by grind [clonedState]
  maker := by grind [clonedState]
  nodup := inv.nodup
  listed := by grind
  kept := by grind [clonedState]

section
variable (inv : Inv whole w) (found : w.heap g.child = some n)
include inv found

theorem Inv.drawn (here : w.threads h = some ⟨state, key, .drawing g, result⟩)
    (nonzero : w.nextTid &&& ThreadIds.tidMask ≠ 0) :
    Inv whole (({ w with nextTid := w.nextTid + 1 }.write g.child
      { n with tid := w.nextTid &&& ThreadIds.tidMask }).put h
      ⟨state, key, .creating g (w.nextTid &&& ThreadIds.tidMask), result⟩) := by
  have ok := (inv.child here rfl found).1
  have unlisted : g.child ∉ w.threadRegistry := by simp [ok.listed]
  exact inv.worked here rfl found rfl rfl rfl rfl rfl ⟨rfl, rfl⟩ (fun _ => rfl) { ok with }
    (inv.ids.drawn nonzero rfl rfl unlisted (by grind) (by grind) (by grind))

/-- The new thread waits at its start. -/
theorem Inv.created (here : w.threads h = some ⟨state, key, .creating g tid, result⟩)
    (free : w.threads k = none) :
    Inv whole (((w.write g.child { n with owner := some k }).put k
      ⟨g.child, none, .starting, 0⟩).put h ⟨state, key, .recording g tid k, result⟩) := by
  have child := inv.child here rfl found
  exact { ids := inv.ids.same rfl rfl (by grind) (by grind), main := by grind, own := by grind,
          made := by grind, owner := by grind, maker := by grind, nodup := inv.nodup,
          listed := by grind, kept := by grind }

/-- A state that no thread was created for is freed. -/
theorem Inv.abandoned (here : w.threads h = some ⟨state, key, .creating g tid, result⟩)
    (errno : Int) :
    Inv whole ((w.drop g.child).put h ⟨state, key, .guest, errno⟩) := by
  have child := inv.child here rfl found
  have mine : w.numbered h = some g.child := by grind
  exact { ids := inv.ids.placed mine rfl (fun x a _ => by have := inv.numbered x a; grind)
            (by grind) (.inl rfl)
          main := by grind, own := by grind, made := by grind, owner := by grind,
          maker := by grind, nodup := inv.nodup, listed := by grind, kept := by grind }

theorem Inv.recorded (here : w.threads h = some ⟨state, key, .recording g tid k, result⟩) :
    Inv whole ((w.write g.child { n with hostThread := some k }).put h
      ⟨state, key, .registering g tid k, result⟩) :=
  have ok := (inv.child here rfl found).1
  inv.worked here rfl found rfl rfl rfl rfl rfl ⟨rfl, rfl⟩ (by simp) { ok with recorded := rfl }
    (inv.ids.write here found rfl (.inr rfl))

theorem Inv.registered (here : w.threads h = some ⟨state, key, .registering g tid k, result⟩) :
    Inv whole ({ w with threadRegistry := g.child :: w.threadRegistry }.put h
      ⟨state, key, .notifying g tid k, result⟩) := by
  have child := inv.child here rfl found
  have made (x : HostThread) (other : x ≠ h) (tx : Thread) (mx : Making)
      (there : w.threads x = some tx) (makes : tx.stage.making = some mx) :
      ∃ nx, w.heap mx.child = some nx ∧ MakingOk (g.child :: w.threadRegistry) x mx nx := by
    obtain ⟨nx, cell, ok⟩ := inv.made x tx mx there makes
    exact ⟨nx, cell, { ok with listed := by grind }⟩
  have mine : w.numbered h = some g.child := by grind
  exact { inv with
          ids := inv.ids.placed mine rfl (fun x a _ => by have := inv.numbered x a; grind)
            (fun _ _ => rfl) (.inr ⟨rfl, rfl⟩)
          own := by grind, made := by grind, owner := by grind, maker := by grind,
          nodup := by grind, listed := by grind }

theorem Inv.notified (here : w.threads h = some ⟨state, key, .notifying g tid k, result⟩)
    (memory : UInt32 → UInt32) :
    Inv whole (({ w with memory }.write g.child
      { n with notes := n.notes ++ [Note.parentTold] }).put h
        ⟨state, key, .releasing g tid k, result⟩) :=
  have ok := (inv.child here rfl found).1
  inv.worked here rfl found rfl rfl rfl rfl rfl ⟨rfl, rfl⟩ (fun _ => rfl)
    { ok with notes := congrArg (· ++ [Note.parentTold]) ok.notes }
    (inv.ids.write here found rfl (.inl rfl))

/-- The clone lets go of the state, and the new thread is alone with it. -/
theorem Inv.released (here : w.threads h = some ⟨state, key, .releasing g tid k, result⟩)
    (result' : Int) :
    Inv whole ((w.write g.child { n with start := true, maker := none }).put h
      ⟨state, key, .guest, result'⟩) := by
  have child := inv.child here rfl found
  exact { ids := inv.ids.write here found rfl (.inl rfl), main := by grind,
          own := by grind [Stage.done_waits, lifecycle], made := by grind, owner := by grind,
          maker := by grind, nodup := inv.nodup, listed := by grind,
          kept := by grind }

end
end

/-! ## Steps -/

/-- No fault, and the invariant after it. -/
def Outcome.Keeps (whole : Bool) : Outcome → Prop
  | .next w => Inv whole w
  | .blocked | .ended => True
  | .fault => False

theorem deref_keeps {next : GuestThreadState → Outcome} (found : w.heap c = some n)
    (keeps : (next n).Keeps whole) : (w.deref c next).Keeps whole := by
  rw [World.deref, found]
  exact keeps

theorem free_keeps {next : World → Outcome} (found : w.heap c = some n) (other : c ≠ mainThread)
    (keeps : (next (w.drop c)).Keeps whole) : (w.free c next).Keeps whole := by
  rw [World.free, if_neg (by rw [found]; simp [other])]
  exact keeps

theorem walk_keeps (inv : Inv whole w) {kept : Bool} (keeps : next.Keeps kept) :
    (w.walk next).Keeps kept := by
  rw [World.walk, if_neg ?_]
  · exact keeps
  · rintro ⟨a, member, missing⟩
    obtain ⟨n, found, -⟩ := inv.listed a member
    cases missing.symm.trans found

theorem startStep_keeps (inv : Inv whole w) (here : w.threads h = some t) (e : Event) :
    (w.startStep h t t.stage e).Keeps whole := by
  obtain ⟨n, found, -⟩ := inv.own h t here
  obtain ⟨state, key, stage, result⟩ := t
  dsimp only
  unfold World.startStep
  split
  · exact inv.put here rfl rfl rfl fun n _ ok => { ok with key := rfl }
  · refine deref_keeps found ?_
    split
    · rename_i start
      refine inv.put here rfl rfl rfl fun n' cell ok =>
        { ok with waits := .inl (inv.started cell ?_), start := by simp [Stage.standing] }
      cases found.symm.trans cell
      exact start
    · exact inv
  · exact deref_keeps found (inv.noted here found .resuming .childTold rfl rfl rfl rfl rfl _)
  · exact deref_keeps found (inv.noted here found .guest .resumed rfl rfl rfl rfl rfl w.memory)
  · trivial

theorem finishStep_keeps (inv : Inv whole w) (here : w.threads h = some t) (e : Event) :
    (w.finishStep h t t.stage e).Keeps whole := by
  obtain ⟨n, found, ok⟩ := inv.own h t here
  obtain ⟨state, key, stage, result⟩ := t
  dsimp only
  unfold World.finishStep
  split
  · exact deref_keeps found
      (inv.noted here found (.unlinking _) .unmapped rfl rfl rfl rfl rfl w.memory)
  · exact walk_keeps inv (deref_keeps found (inv.unlinked here found))
  · exact deref_keeps found (inv.noted here found .closing .cleared rfl rfl rfl rfl rfl _)
  · refine deref_keeps found ?_
    exact inv.put here rfl rfl rfl fun _ _ ok => { ok with }
  · exact inv.put here rfl rfl rfl fun _ _ ok => { ok with key := rfl }
  · exact free_keeps found (ok.ends rfl) (inv.freed here rfl found rfl rfl rfl)
  · trivial

theorem cloneStep_keeps (inv : Inv whole w) (here : w.threads h = some t) (e : Event) :
    (w.cloneStep h t t.stage e).Keeps whole := by
  have child {m : Making} (makes : t.stage.making = some m) : ∃ n, w.heap m.child = some n :=
    (inv.made h t m here makes).imp fun _ => And.left
  obtain ⟨state, key, stage, result⟩ := t
  dsimp only at child ⊢
  unfold World.cloneStep
  split
  · obtain ⟨n, found⟩ := child rfl
    dsimp only
    split
    · exact { inv with ids := inv.ids.passed ‹_› }
    · exact deref_keeps found (inv.drawn found here ‹_›)
  · obtain ⟨n, found⟩ := child rfl
    split
    · trivial
    · rename_i free
      exact deref_keeps found (inv.created found here (not_not.mp free))
  · obtain ⟨n, found⟩ := child rfl
    exact free_keeps found (inv.child here rfl found).2.2 (inv.abandoned found here _)
  · obtain ⟨n, found⟩ := child rfl
    exact deref_keeps found (inv.recorded found here)
  · obtain ⟨n, found⟩ := child rfl
    exact deref_keeps found (inv.registered found here)
  · obtain ⟨n, found⟩ := child rfl
    exact deref_keeps found (inv.notified found here _)
  · obtain ⟨n, found⟩ := child rfl
    exact deref_keeps found (inv.released found here _)
  · trivial

theorem kill_keeps (inv : Inv whole w) (here : w.threads h = some t) (tid : Int) (hostSignal : Nat)
    (outcome : Option Errno) (rest : List Pointer) (listed : ∀ a ∈ rest, a ∈ w.threadRegistry) :
    (w.kill h t tid hostSignal outcome rest).Keeps whole := by
  induction rest with
  | nil => exact inv.answered here _
  | cons a rest ih =>
    have member := listed a List.mem_cons_self
    obtain ⟨n, x, tx, found, host, there, -⟩ := inv.present member
    refine deref_keeps found ?_
    split
    · exact ih fun b later => listed b (List.mem_cons_of_mem a later)
    split
    · exact inv.answered here 0
    rw [if_neg (by simp [host, there])]
    exact inv.answered here _

/-- Outside the window of a fork the thread's own state is there for a signal handler. -/
theorem signalled_keeps (key : t.key = none ∨ t.key = some c) (found : w.heap c = some n)
    (keeps : next.Keeps whole) :
    (w.signalled t next).Keeps whole := by
  unfold World.signalled
  obtain key | key := key
  · rw [key]
    exact keeps
  · rw [key]
    exact deref_keeps found keeps

theorem OwnOk.keyed (ok : OwnOk r h t n) :
    t.key = none ∨ t.key = some t.state := by
  rw [ok.key]
  split
  · exact .inr rfl
  · exact .inl rfl

/-- A fork keeps the invariant, unless a cloned thread is interrupted in it. -/
theorem afterFork_keeps (inv : Inv whole w) (here : w.threads h = some t) (pid : UInt32)
    {interrupted : Bool} (calm : interrupted = true → t.state = mainThread) :
    (w.afterFork h t pid interrupted).Keeps false := by
  obtain ⟨n, found, ok⟩ := inv.own h t here
  have renewed (w : World) (own : Own) :
      (Outcome.next (w.renewed h pid own t.result)).Keeps false :=
    renewed_inv w h pid own t.result (by simp)
  refine walk_keeps inv ?_
  obtain key | key := ok.keyed
  · rw [key]
    exact renewed w _
  rw [key]
  refine deref_keeps found ?_
  dsimp only
  cases interrupted with
  | false =>
    split
    · exact renewed w _
    · rename_i other
      exact free_keeps found other (renewed _ _)
  | true =>
    rw [if_pos (calm rfl), if_pos rfl]
    exact signalled_keeps (.inr key) found (renewed w _)

theorem guestStep_keeps (inv : Inv whole w) (here : w.threads h = some t) (stage : t.stage = .guest)
    (e : Event) (stays : whole = true → e.forks = false)
    (calm : ∀ pid, e = .fork pid true → t.state = mainThread) :
    (w.guestStep h t e).Keeps whole := by
  obtain ⟨n, found, ok⟩ := inv.own h t here
  obtain ⟨state, key, stage, result⟩ := t
  cases stage
  obtain rfl : key = some state := ok.key
  unfold World.guestStep
  split
  · rename_i gpr place
    split
    · exact inv.answered here _
    cases place with
    | none => exact inv.answered here _
    | some a =>
      dsimp only
      split
      · trivial
      · rename_i fresh
        exact deref_keeps found (inv.begun (g := ⟨gpr, a⟩) here (not_not.mp fresh) n.own)
  · exact kill_keeps inv here _ _ _ _ fun _ member => member
  · rename_i fields
    have written : Inv whole ((w.write state { n with own := fields }).put h _) :=
      inv.advanced _ { n with own := fields } here found (ok.alone rfl) rfl rfl rfl
        ⟨rfl, rfl, rfl, rfl⟩ { ok with } w.memory
    rw [put_self (w := World.write _ _ _) here] at written
    exact deref_keeps found written
  · exact inv.stored _
  · split
    · trivial
    · rename_i main
      exact inv.put here rfl rfl rfl fun _ _ ok =>
        { ok with ends := fun _ same => main (.inr (congrArg some same)) }
  · rename_i pid interrupted
    cases whole with
    | true => cases stays rfl
    | false => exact afterFork_keeps inv here pid fun during => calm pid (by rw [during])
  · trivial

/-- A signal handler of the child of a fork finds the state of a cloned thread freed. -/
def World.Exposed (w : World) (h : HostThread) (e : Event) : Prop :=
  ∃ t pid, w.threads h = some t ∧ t.stage = .guest ∧ t.state ≠ mainThread ∧ e = .fork pid true

theorem step_keeps (inv : Inv whole w) (h : HostThread) (e : Event)
    (stays : whole = true → e.forks = false) (calm : ¬w.Exposed h e) :
    (w.step h e).Keeps whole := by
  unfold World.step
  split
  · trivial
  rename_i t here
  split
  · obtain ⟨n, found, ok⟩ := inv.own h t here
    exact signalled_keeps ok.keyed found inv
  · rename_i stage
    refine guestStep_keeps inv here stage _ stays fun pid same => ?_
    by_contra other
    exact calm ⟨t, pid, here, stage, other, same⟩
  all_goals
    first
    | exact startStep_keeps inv here _
    | exact finishStep_keeps inv here _
    | exact cloneStep_keeps inv here _

theorem exposed_faults (inv : Inv whole w) {e : Event} (exposed : w.Exposed h e) :
    w.step h e = .fault := by
  obtain ⟨t, pid, here, stage, other, rfl⟩ := exposed
  obtain ⟨n, found, ok⟩ := inv.own h t here
  have key : t.key = some t.state := by
    rw [ok.key, stage]
    rfl
  have gone : (w.drop t.state).heap t.state = none := if_pos rfl
  simp only [World.step, here, stage, World.guestStep, World.afterFork, World.walk, key,
    World.deref, found, if_neg other, World.free, World.signalled, gone]
  simp [other]

theorem reachable_inv (reachable : Reachable whole w) : Inv whole w := by
  refine reachable.invariant (Inv whole) ?_ fun w e w' inv stays step => ?_
  · rintro w ⟨pid, h, memory, rfl⟩
    exact renewed_inv _ h pid _ 0 fun _ _ => rfl
  · have next : w.step e.1 e.2 = .next w' := step
    have keeps := step_keeps inv e.1 e.2 stays fun exposed => by
      cases next.symm.trans (exposed_faults inv exposed)
    rw [next] at keeps
    exact keeps

/-- Every interleaving shows a run of `ThreadIds`. -/
theorem reachable_numbered (reachable : Reachable whole w) : Numbered w :=
  (reachable_inv reachable).ids

theorem registered_tid_valid (reachable : Reachable whole w) (member : c ∈ w.threadRegistry) :
    1 ≤ (w.tid c).toNat ∧ (w.tid c).toNat ≤ 2 ^ 30 - 1 := by
  obtain ⟨pid, s, number, run, shows⟩ := reachable_numbered reachable
  have there : w.thread number c ∈ s.all :=
    List.mem_append_left _ (shows.registry ▸ List.mem_map_of_mem member)
  have tid : (w.tid c).toNat = _ := (ThreadIds.reachable_ordered run).tids _ there
  rw [tid]
  exact ThreadIds.tidAt_valid _ _

end
end Linuxemu.ThreadLife
