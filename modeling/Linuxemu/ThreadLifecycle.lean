import Linuxemu.ThreadLifeSafety

/-! What holds of guest threads over every interleaving: no step faults but in one place of a fork,
the registry is exact, the life of a cloned thread goes through its stages in order, and no state
leaks. -/
namespace Linuxemu.ThreadLife
open Lib

/-! ## A run to look at -/

/-- These events, without those that cannot happen. -/
def World.follow (w : World) : List (HostThread × Event) → World
  | [] => w
  | e :: rest =>
    match w.step e.1 e.2 with
    | .next w' => w'.follow rest
    | _ => w.follow rest

theorem follow_reachable {whole : Bool} {w : World} (reachable : Reachable whole w)
    {events : List (HostThread × Event)} (unforked : ∀ e ∈ events, e.2.forks = false) :
    Reachable whole (w.follow events) := by
  induction events generalizing w with
  | nil => exact reachable
  | cons e rest ih =>
    obtain ⟨first, later⟩ := List.forall_mem_cons.mp unforked
    rw [World.follow]
    split
    · exact ih (.next reachable (fun _ => first) ‹_›) later
    · exact ih reachable later

/-- A clone that asks for everything. -/
def cloneRegisters (i : Fin 16) : UInt32 := if i = 0 then linuxThreadAllowed else 0x8000

/-- Thread 0 clones thread 1 at place 1, which has run its guest code after 11 steps, ends, and
frees its state in step 18; the next clone, at the same place, gets no thread from the host. -/
def life : List (HostThread × Event) :=
  [(0, .clone cloneRegisters (some 1)), (0, .go), (0, .create (.ok 1)), (1, .go), (0, .go),
    (0, .go), (0, .go), (0, .go), (1, .go), (1, .go), (1, .go), (1, .exit), (1, .go), (1, .go),
    (1, .go), (1, .go), (1, .go), (1, .go), (0, .clone cloneRegisters (some 1)), (0, .go),
    (0, .create (.error .eagain))]

def lived (steps : Nat) : World := (initialized 7 0 fun _ => 0).follow (life.take steps)

theorem lived_reachable (whole : Bool) (steps : Nat) : Reachable whole (lived steps) :=
  follow_reachable (.start ⟨7, 0, _, rfl⟩) fun e member =>
    (show ∀ e ∈ life, e.2.forks = false by decide) e (List.mem_of_mem_take member)

/-! ## Safety -/

/-- No interleaving uses a state after it was freed, frees it twice, or signals a thread that has
ended, with one exception: a host signal in the child of a cloned thread's fork, after its state was
freed and before the key is set. -/
theorem faults_iff {w : World} (reachable : Reachable false w) (h : HostThread) (e : Event) :
    w.step h e = .fault ↔ ∃ t pid, w.threads h = some t ∧ t.stage = .guest ∧
      t.state ≠ mainThread ∧ e = .fork pid true := by
  have inv := reachable_inv reachable
  constructor
  · intro fault
    by_contra calm
    have keeps := step_keeps inv h e (by simp) calm
    rw [fault] at keeps
    exact keeps
  · exact exposed_faults inv

theorem faults_iff_lived :
    (lived 11).step 1 (.fork 9 true) = .fault ∧ (lived 11).step 1 (.fork 9 false) ≠ .fault ∧
      (lived 17).step 1 .go ≠ .fault := by
  refine ⟨(faults_iff (lived_reachable _ 11) 1 _).mpr
    ⟨⟨1, some 1, .guest, 0⟩, 9, rfl, rfl, ?_, rfl⟩, fun fault => ?_, fun fault => ?_⟩
  · decide
  · obtain ⟨_, _, -, -, -, same⟩ := (faults_iff (lived_reachable _ 11) 1 _).mp fault
    cases same
  · obtain ⟨_, _, -, -, -, same⟩ := (faults_iff (lived_reachable _ 17) 1 _).mp fault
    cases same

/-- The registry has every thread that its clone has let go and that has not left it, once, and
nothing but threads that are there and have not left it. -/
theorem registry_exact {w : World} (reachable : Reachable false w) :
    w.threadRegistry.Nodup ∧
      (∀ h t, w.threads h = some t → (t.stage.standing.waits = false ∨
          ∃ n, w.heap t.state = some n ∧ n.start = true) →
        t.stage.standing.retired = false → t.state ∈ w.threadRegistry) ∧
      ∀ a ∈ w.threadRegistry, ∃ n h t, w.heap a = some n ∧ n.hostThread = some h ∧
        w.threads h = some t ∧ t.state = a ∧ t.stage.standing.retired = false := by
  have inv := reachable_inv reachable
  refine ⟨inv.nodup, fun h t here free stays => ?_, fun a member => ?_⟩
  · obtain ⟨n, found, ok⟩ := inv.own h t here
    refine (ok.listed ?_).mpr stays
    obtain runs | ⟨n', found', start⟩ := free
    · exact ok.alone runs
    · cases found.symm.trans found'
      exact inv.started found start
  · obtain ⟨n, h, t, found, host, here, rfl⟩ := inv.present member
    have ok := inv.ownOk here found
    refine ⟨n, h, t, found, host, here, rfl, ?_⟩
    -- a thread whose clone has not let it go still waits
    by_cases alone : n.maker = none
    · exact (ok.listed alone).mp member
    · exact (Stage.done_waits (ok.waits.resolve_left alone)).2

/-- Two threads are listed, the second one still in its loop. -/
theorem registry_exact_two :
    (lived 8).threadRegistry = [1, mainThread] ∧ (lived 8).threadRegistry.Nodup ∧
      1 ∈ (lived 8).threadRegistry :=
  have exact' := registry_exact (lived_reachable _ 8)
  ⟨by decide +kernel, exact'.1,
    exact'.2.1 1 ⟨1, some 1, .awaiting, 0⟩ rfl (.inr ⟨_, rfl, rfl⟩) rfl⟩

/-! ## Lives -/

/-- The loop of `guest_thread_start` ends: as long as a thread has to wait, the clone that created
it is there and has yet to let it go. -/
theorem waits_for_clone {w : World} (reachable : Reachable false w) {h : HostThread} {t : Thread}
    {n : GuestThreadState} (here : w.threads h = some t) (waits : t.stage.standing.waits = true)
    (found : w.heap t.state = some n) (start : n.start = false) :
    ∃ x tx m, w.threads x = some tx ∧ tx.stage.making = some m ∧ m.child = t.state ∧
      m.created = some h := by
  have inv := reachable_inv reachable
  have ok := inv.ownOk here found
  have made : n.maker ≠ none := fun alone =>
    Bool.false_ne_true (start.symm.trans (ok.start alone waits))
  obtain ⟨x, tx, m, there, makes, child, making⟩ := inv.making found made
  exact ⟨x, tx, m, there, makes, child, making.owner.symm.trans ok.owner⟩

theorem waits_for_clone_begun : ∃ x tx m, (lived 4).threads x = some tx ∧
    tx.stage.making = some m ∧ m.child = 1 ∧ m.created = some 1 :=
  waits_for_clone (lived_reachable _ 4) (h := 1) (t := ⟨1, some 1, .awaiting, 0⟩) rfl rfl rfl rfl

/-- In a process that does not fork, a state that is allocated is that of a thread, or a clone is at
work on it. -/
theorem nothing_leaks {w : World} (unforked : Reachable true w) {a : Pointer} {n : GuestThreadState}
    (found : w.heap a = some n) :
    ∃ h t, w.threads h = some t ∧ (t.state = a ∨ t.child = some a) := by
  have inv := reachable_inv unforked
  obtain owned | made := inv.kept rfl a n found
  · obtain ⟨h, owner⟩ := Option.ne_none_iff_exists'.mp owned
    obtain ⟨t, here, own⟩ := Option.map_eq_some_iff.mp (inv.owner a n h found owner)
    exact ⟨h, t, here, .inl own⟩
  · obtain ⟨h, t, m, here, makes, child, -⟩ := inv.making found made
    exact ⟨h, t, here, .inr (Option.map_eq_some_iff.mpr ⟨m, makes, child⟩)⟩

/-- Neither the thread that has ended nor the clone that failed leaves its state; in between the
clone is at work on it. -/
theorem nothing_leaks_lived :
    ((lived 18).heap 1).isNone = true ∧ ((lived 21).heap 1).isNone = true ∧
      ∃ n, (lived 20).heap 1 = some n ∧
        ∃ h t, (lived 20).threads h = some t ∧ (t.state = 1 ∨ t.child = some 1) :=
  ⟨by decide +kernel, by decide +kernel, _, rfl, nothing_leaks (lived_reachable _ 20) rfl⟩

end Linuxemu.ThreadLife
