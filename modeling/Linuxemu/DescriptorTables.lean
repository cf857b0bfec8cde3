import Linuxemu.Descriptors
import Linuxemu.Lib.Runs

/-! The tables beside the host's descriptors describe what is open, as long as the guest
leaves the hidden write end of each `eventfd` alone. -/
namespace Linuxemu.Fd
open Linuxemu.Path (Text)
variable {s : Tables} {fd first result second : Nat} {i : Fin maxTrackedFds}
  {destination source : Int} {path : Option Text} {f : OpenFile} {eventfd : Bool} {h : Host}
variable {refused : Option Errno} {host : Host} {c : Call} {k : Nat}

/-- A peer is the write end of the `eventfd`'s pipe, and a path the one its descriptor was
opened by. -/
structure Truthful (s : Tables) : Prop where
  peers : ∀ i peer, s.eventfdWritePeers i = peer + 1 → ∃ number,
    s.host.table i = some (.pipe number true .read) ∧
    s.host.table peer = some (.pipe number true .write)
  paths : ∀ i path, s.fdPaths i = some path → s.host.table i = some (.path path)

/-- No two `eventfd`s share a peer, and the host's numbers are below `OPEN_MAX`. -/
structure Sound (s : Tables) : Prop extends Truthful s where
  unique : ∀ i j, s.eventfdWritePeers i ≠ 0 → s.eventfdWritePeers i = s.eventfdWritePeers j → i = j
  bounded : ∀ fd, s.host.table fd ≠ none → fd < s.host.openMax

/-- The descriptor is some `eventfd`'s write end. -/
def Tables.Hidden (s : Tables) (fd : Nat) : Prop := ∃ i, s.eventfdWritePeers i = fd + 1

/-- The descriptor is no `eventfd`. -/
def Tables.Unpaired (s : Tables) (fd : Nat) : Prop := ∀ i, i.val = fd → s.eventfdWritePeers i = 0

theorem Start.sound (start : Start s) : Sound s := by
  refine ⟨⟨fun i peer paired => ?_, fun i path opened => ?_⟩, fun i j some _ => ?_, start.bounded⟩
  · rw [start.peers] at paired
    cases paired
  · rw [start.paths] at opened
    cases opened
  · exact absurd (start.peers i) some

/-! ## One descriptor at a time -/

/-- The descriptor gets this open file, or is closed, and its path is set. -/
def Tables.replace (s : Tables) (fd : Nat) (f : Option OpenFile) (path : Option Text) : Tables :=
  { s with
    host := s.host.put fd f
    fdPaths := fun i => if i.val = fd then path else s.fdPaths i }

theorem Host.put_same (h : Host) (fd : Nat) (f : Option OpenFile) : (h.put fd f).table fd = f :=
  if_pos rfl

theorem Host.put_other (h : Host) (f : Option OpenFile) (other : k ≠ fd) :
    (h.put fd f).table k = h.table k :=
  if_neg other

namespace Truthful
variable {s : Tables} (truthful : Truthful s)
include truthful

theorem hidden_file (hidden : s.Hidden fd) :
    ∃ number, s.host.table fd = some (.pipe number true .write) := by
  obtain ⟨i, paired⟩ := hidden
  obtain ⟨number, -, write⟩ := truthful.peers i fd paired
  exact ⟨number, write⟩

/-- A write end is no `eventfd` itself. -/
theorem hidden_unpaired (hidden : s.Hidden fd) : s.Unpaired fd := by
  rintro i rfl
  obtain ⟨number, write⟩ := truthful.hidden_file hidden
  by_contra paired
  obtain ⟨peer, paired⟩ := Nat.exists_eq_succ_of_ne_zero paired
  obtain ⟨other, read, -⟩ := truthful.peers i peer paired
  rw [write] at read
  cases read

theorem free_unpaired (free : s.host.table fd = none) : s.Unpaired fd := by
  rintro i rfl
  by_contra paired
  obtain ⟨peer, paired⟩ := Nat.exists_eq_succ_of_ne_zero paired
  obtain ⟨number, read, -⟩ := truthful.peers i peer paired
  rw [free] at read
  cases read

theorem free_not_hidden (free : s.host.table fd = none) : ¬ s.Hidden fd := by
  intro hidden
  obtain ⟨number, write⟩ := truthful.hidden_file hidden
  rw [free] at write
  cases write

theorem path_of_other (other : ∀ path, s.host.table i ≠ some (.path path)) :
    s.fdPaths i = none := by
  cases known : s.fdPaths i with
  | none => rfl
  | some path => exact absurd (truthful.paths i path known) (other path)

/-- Only a hidden write end may not get another file. -/
theorem replace_iff {f : Option OpenFile} (unpaired : s.Unpaired fd)
    (named : ∀ p, path = some p → f = some (.path p)) :
    Truthful (s.replace fd f path) ↔ (s.Hidden fd → f = s.host.table fd) := by
  constructor
  · rintro after ⟨i, paired⟩
    have apart : i.val ≠ fd := by
      intro same
      rw [unpaired i same] at paired
      cases paired
    obtain ⟨number, read, write⟩ := truthful.peers i fd paired
    obtain ⟨number', read', write'⟩ := after.peers i fd paired
    have read' : s.host.table i = some (.pipe number' true .read) :=
      (s.host.put_other f apart).symm.trans read'
    have write' : f = some (.pipe number' true .write) := (s.host.put_same fd f).symm.trans write'
    rw [read] at read'
    cases read'
    rw [write', write]
  · intro spared
    constructor
    · intro i peer paired
      have apart : i.val ≠ fd := by
        intro same
        have zero : s.eventfdWritePeers i = peer + 1 := paired
        rw [unpaired i same] at zero
        cases zero
      obtain ⟨number, read, write⟩ := truthful.peers i peer paired
      refine ⟨number, (s.host.put_other f apart).trans read, ?_⟩
      by_cases same : peer = fd
      · subst same
        exact (s.host.put_same peer f).trans ((spared ⟨i, paired⟩).trans write)
      · exact (s.host.put_other f same).trans write
    · intro i p known
      have known : (if i.val = fd then path else s.fdPaths i) = some p := known
      by_cases same : i.val = fd
      · rw [if_pos same] at known
        show (s.host.put fd f).table i = _
        rw [same, s.host.put_same]
        exact named p known
      · rw [if_neg same] at known
        exact (s.host.put_other f same).trans (truthful.paths i p known)

end Truthful

namespace Sound
variable {s : Tables} (sound : Sound s)
include sound

theorem replace {f : Option OpenFile} (unpaired : s.Unpaired fd)
    (named : ∀ p, path = some p → f = some (.path p)) (spared : s.Hidden fd → f = s.host.table fd)
    (small : f ≠ none → fd < s.host.openMax) : Sound (s.replace fd f path) := by
  refine ⟨(sound.replace_iff unpaired named).mpr spared, sound.unique, fun k isOpen => ?_⟩
  by_cases same : k = fd
  · subst same
    exact small (fun none => isOpen ((s.host.put_same k f).trans none))
  · exact sound.bounded k fun none => isOpen ((s.host.put_other f same).trans none)

/-- A new descriptor. -/
theorem opened (free : s.host.table fd = none) (small : fd < s.host.openMax)
    (named : ∀ p, path = some p → f = .path p) :
    Sound (s.replace fd (some f) path) := by
  apply sound.replace (sound.free_unpaired free)
  · intro p known
    rw [named p known]
  · intro hidden
    exact absurd hidden (sound.free_not_hidden free)
  · intro _
    exact small

end Sound

/-! ## What the helpers do to one descriptor -/

theorem tracked_some {fd : Int} : tracked fd = some i ↔ fd = i.val := by
  unfold tracked
  constructor
  · intro h
    split at h
    · cases h
      simp only
      omega
    · cases h
  · rintro rfl
    have small : (0 : Int) ≤ i.val ∧ (i.val : Int) < maxTrackedFds := by
      have := i.isLt
      omega
    rw [dif_pos small]
    simp

theorem tracked_none (h : tracked fd = none) (i : Fin maxTrackedFds) : i.val ≠ fd := by
  rintro rfl
  rw [tracked_some.mpr rfl] at h
  cases h

theorem Host.put_none (free : h.table fd = none) : h.put fd none = h := by
  have same : (fun k => if k = fd then none else h.table k) = h.table := by
    funext k
    by_cases here : k = fd
    · rw [if_pos here, here, free]
    · rw [if_neg here]
  rw [Host.put, same]

theorem Host.put_put (h : Host) (fd : Nat) (f g : Option OpenFile) :
    (h.put fd f).put fd g = h.put fd g := by
  have same : (fun k => if k = fd then g else if k = fd then f else h.table k) =
      fun k => if k = fd then g else h.table k := by
    funext k
    by_cases here : k = fd
    · rw [if_pos here, if_pos here]
    · rw [if_neg here, if_neg here, if_neg here]
  simp only [Host.put, same]

theorem Host.file_nat (h : Host) (fd : Nat) : h.file fd = h.table fd := by
  simp [Host.file]

theorem Host.close_nat (h : Host) (fd : Nat) : h.close fd = h.put fd none := by
  simp [Host.close]

namespace Tables
variable (s : Tables)

theorem setPeer_same (i : Fin maxTrackedFds) (peer : Nat) :
    (s.setPeer i peer).eventfdWritePeers i = peer := by
  simp only [setPeer, Function.update_self]

theorem setPeer_other {j : Fin maxTrackedFds} (peer : Nat) (other : j ≠ i) :
    (s.setPeer i peer).eventfdWritePeers j = s.eventfdWritePeers j := by
  simp only [setPeer, Function.update_of_ne other]

theorem setPath_replace (i : Fin maxTrackedFds) (f : Option OpenFile) (path : Option Text) :
    ({ s with host := s.host.put i f }).setPath i path = s.replace i f path := by
  have same : Function.update s.fdPaths i path =
      fun j => if j.val = i.val then path else s.fdPaths j := by
    funext j
    by_cases here : j = i
    · subst here
      rw [Function.update_self, if_pos rfl]
    · rw [Function.update_of_ne here, if_neg fun same => here (Fin.ext same)]
  simp only [setPath, replace, same]

/-- Beyond the tables only the host changes. -/
theorem untracked_replace (beyond : tracked fd = none) (f : Option OpenFile) (path : Option Text) :
    { s with host := s.host.put fd f } = s.replace fd f path := by
  have same : s.fdPaths = fun j => if j.val = fd then path else s.fdPaths j := by
    funext j
    rw [if_neg (tracked_none beyond j)]
  rw [replace, ← same]

theorem copyFdPath_replace (source : Int) (fd : Nat) (f : Option OpenFile) :
    ({ s with host := s.host.put fd f }).copyFdPath source fd = s.replace fd f (s.path source) := by
  unfold copyFdPath
  cases found : tracked fd with
  | none => exact s.untracked_replace found f _
  | some i =>
    have same : fd = i.val := Int.ofNat.inj (tracked_some.mp found)
    subst same
    exact s.setPath_replace i f _

end Tables

/-- A descriptor whose path is not known gets another file. -/
theorem Truthful.plain_replace (truthful : Truthful s)
    (unnamed : ∀ path, s.host.table fd ≠ some (.path path)) (f : Option OpenFile) :
    { s with host := s.host.put fd f } = s.replace fd f none := by
  have same : s.fdPaths = fun j => if j.val = fd then none else s.fdPaths j := by
    funext j
    by_cases here : j.val = fd
    · rw [if_pos here]
      exact truthful.path_of_other fun path => here ▸ unnamed path
    · rw [if_neg here]
  rw [Tables.replace, ← same]

theorem Truthful.path_file (truthful : Truthful s) {fd : Int} {path : Text}
    (known : s.path fd = some path) : s.host.file fd = some (.path path) := by
  obtain ⟨i, found, known⟩ := Option.bind_eq_some_iff.mp known
  rw [tracked_some.mp found, Host.file_nat]
  exact truthful.paths i path known

/-! ## Letting an `eventfd` go -/

theorem Sound.unpair (sound : Sound s) (i : Fin maxTrackedFds) :
    Sound (s.setPeer i 0) := by
  have entry {j : Fin maxTrackedFds} (some : (s.setPeer i 0).eventfdWritePeers j ≠ 0) :
      (s.setPeer i 0).eventfdWritePeers j = s.eventfdWritePeers j := by
    by_cases same : j = i
    · subst same
      exact absurd (s.setPeer_same j 0) some
    · exact s.setPeer_other 0 same
  refine ⟨⟨fun j peer paired => ?_, sound.paths⟩, fun j k some same => ?_, sound.bounded⟩
  · have kept := entry (by rw [paired]; exact Nat.succ_ne_zero peer)
    exact sound.peers j peer (kept.symm.trans paired)
  · have first := entry some
    have second := entry (same ▸ some)
    exact sound.unique j k (first ▸ some) (first.symm.trans (same.trans second))

/-- `release_wake_eventfd` leaves a descriptor that is no `eventfd`, or does away with the
pair's write end. -/
theorem Sound.release_cases (sound : Sound s) (fd : Int) :
    (s.releaseWakeEventfd fd = s ∧ ∀ i : Fin maxTrackedFds, fd = i.val → s.eventfdWritePeers i = 0) ∨
    ∃ i peer, fd = (i : Fin maxTrackedFds).val ∧ s.eventfdWritePeers i = peer + 1 ∧
      s.releaseWakeEventfd fd = (s.setPeer i 0).replace peer none none := by
  unfold Tables.releaseWakeEventfd
  cases found : tracked fd with
  | none =>
    left
    refine ⟨rfl, fun i same => ?_⟩
    rw [tracked_some.mpr same] at found
    cases found
  | some i =>
    have here := tracked_some.mp found
    simp only
    by_cases zero : s.eventfdWritePeers i = 0
    · left
      refine ⟨if_pos zero, fun j same => ?_⟩
      rw [show j = i from Fin.ext (Int.ofNat.inj (same.symm.trans here))]
      exact zero
    · right
      obtain ⟨peer, paired⟩ := Nat.exists_eq_succ_of_ne_zero zero
      obtain ⟨number, -, write⟩ := sound.peers i peer paired
      refine ⟨i, peer, here, paired, ?_⟩
      rw [if_neg zero, paired, Nat.succ_eq_add_one, Nat.add_sub_cancel, Host.close_nat]
      apply (sound.unpair i).plain_replace
      intro path same
      rw [show (s.setPeer i 0).host.table peer = _ from write] at same
      cases same

theorem Sound.release (sound : Sound s) (fd : Int) :
    Sound (s.releaseWakeEventfd fd) := by
  rcases sound.release_cases fd with ⟨same, -⟩ | ⟨i, peer, -, paired, same⟩
  · rw [same]
    exact sound
  · rw [same]
    have unhidden : ¬ (s.setPeer i 0).Hidden peer := by
      rintro ⟨j, again⟩
      by_cases here : j = i
      · subst here
        rw [s.setPeer_same] at again
        cases again
      · rw [s.setPeer_other 0 here] at again
        exact here (sound.unique j i (by omega) (again.trans paired.symm))
    apply (sound.unpair i).replace
    · intro j same
      by_contra some
      have kept : s.eventfdWritePeers j ≠ 0 := by
        intro zero
        apply some
        by_cases here : j = i
        · subst here
          exact s.setPeer_same j 0
        · exact (s.setPeer_other 0 here).trans zero
      exact kept (sound.hidden_unpaired ⟨i, paired⟩ j same)
    · nofun
    · intro hidden
      exact absurd hidden unhidden
    · intro some
      exact absurd rfl some

/-! ## New descriptors -/

theorem refuse_ok {α : Type} {answer : Except Errno α} {a : α} (h : refuse refused answer = .ok a) :
    refused = none ∧ answer = .ok a := by
  cases refused with
  | none => exact ⟨rfl, h⟩
  | some errno => cases h

namespace Host
variable {h after : Host}

theorem install_ok (done : h.install first f = .ok (fd, after)) :
    h.table fd = none ∧ fd < h.openMax ∧ after = h.put fd (some f) := by
  unfold install at done
  split at done
  · cases done
  · rename_i fd' found
    cases done
    have free := List.find?_some found
    have range := List.mem_of_find?_eq_some found
    rw [List.mem_range'_1] at range
    exact ⟨by simpa using free, by omega, rfl⟩

theorem dupFrom_ok {fd : Int} (done : h.dupFrom fd first = .ok (result, after)) :
    ∃ f, h.file fd = some f ∧ h.table result = none ∧ result < h.openMax ∧
      after = h.put result (some f) := by
  unfold dupFrom at done
  split at done
  · cases done
  · rename_i f found
    exact ⟨f, found, install_ok done⟩

theorem fcntlDup_ok {fd first : Int} (done : h.fcntlDup fd first = .ok (result, after)) :
    ∃ f, h.file fd = some f ∧ h.table result = none ∧ result < h.openMax ∧
      after = h.put result (some f) := by
  unfold fcntlDup at done
  split at done
  · cases done
  · split at done
    · cases done
    · exact dupFrom_ok done

theorem pipe_ok (done : h.pipe eventfd = .ok (first, second, after)) :
    (h.table first = none ∧ first < h.openMax) ∧
      (h.table second = none ∧ second < h.openMax) ∧ second ≠ first ∧
      after = { (h.put first (some (.pipe h.pipes eventfd .read))).put second
        (some (.pipe h.pipes eventfd .write)) with pipes := h.pipes + 1 } := by
  unfold pipe at done
  cases one : h.install 0 (.pipe h.pipes eventfd .read) with
  | error errno =>
    rw [one] at done
    cases done
  | ok opened =>
    obtain ⟨a, middle⟩ := opened
    rw [one] at done
    obtain ⟨free, small, rfl⟩ := install_ok one
    cases two : (h.put a (some (.pipe h.pipes eventfd .read))).install 0
        (.pipe h.pipes eventfd .write) with
    | error errno =>
      simp only [bind, Except.bind, two] at done
      cases done
    | ok opened =>
      obtain ⟨b, last⟩ := opened
      simp only [bind, Except.bind, two] at done
      obtain ⟨free', small', rfl⟩ := install_ok two
      cases done
      have apart : second ≠ first := by
        rintro rfl
        rw [put_same] at free'
        cases free'
      rw [put_other _ _ apart] at free'
      exact ⟨⟨free, small⟩, ⟨free', small'⟩, apart, rfl⟩

theorem put_comm {a b : Nat} (apart : b ≠ a) (f g : Option OpenFile) :
    (h.put a f).put b g = (h.put b g).put a f := by
  have same : (fun k => if k = b then g else if k = a then f else h.table k) =
      fun k => if k = a then f else if k = b then g else h.table k := by
    funext k
    by_cases here : k = a
    · subst here
      rw [if_neg apart.symm, if_pos rfl, if_pos rfl]
    · rw [if_neg here, if_neg here]
  simp only [put, same]

end Host

namespace Sound
variable {s : Tables} (sound : Sound s)
include sound

theorem pipes (n : Nat) : Sound { s with host := { s.host with pipes := n } } :=
  ⟨⟨sound.peers, sound.paths⟩, sound.unique, sound.bounded⟩

/-- A descriptor that was opened and closed again. -/
theorem reopened (free : s.host.table fd = none) (f : Option OpenFile) :
    Sound { s with host := (s.host.put fd f).close fd } := by
  rw [Host.close_nat, Host.put_put, Host.put_none free]
  exact sound

/-- A descriptor with no path in the tables. -/
theorem socket (free : s.host.table fd = none) (small : fd < s.host.openMax) :
    Sound { s with host := s.host.put fd (some f) } := by
  have unnamed (path : Text) : s.host.table fd ≠ some (.path path) := by
    rw [free]
    nofun
  rw [sound.plain_replace unnamed]
  exact sound.opened free small nofun

theorem duplicated {fd : Int} (source : s.host.file fd = some f) (free : s.host.table result = none)
    (small : result < s.host.openMax) :
    Sound ({ s with host := s.host.put result (some f) }.copyFdPath fd result) := by
  rw [Tables.copyFdPath_replace]
  apply sound.opened free small
  intro path known
  have named := sound.path_file known
  rw [source] at named
  exact Option.some.inj named

end Sound

/-! ## Calls that only open -/

namespace Sound
variable {s : Tables} (sound : Sound s)
include sound

theorem linuxOpenPath (directoryFd : Int) (guestPath : Option Text) (flags : UInt32)
    (resolve : Resolver) (refused : Option Errno) :
    Sound (s.linuxOpenPath directoryFd guestPath flags resolve refused).2 := by
  unfold Tables.linuxOpenPath
  split
  · exact sound
  · dsimp only
    split
    · exact sound
    · rename_i hostPath _
      split
      · exact sound
      · rename_i fd host done
        obtain ⟨free, small, rfl⟩ := Host.install_ok (refuse_ok done).2
        have opened : Sound (s.replace fd (some (.path hostPath)) (some hostPath)) :=
          sound.opened free small fun p same => by rw [Option.some.inj same]
        split
        · rename_i beyond
          rw [s.untracked_replace beyond _ (some hostPath)]
          exact opened
        · rename_i i found
          obtain rfl : fd = i.val := Int.ofNat.inj (tracked_some.mp found)
          rw [s.setPath_replace]
          exact opened

theorem linuxDup (fd : Int) (refused : Option Errno) : Sound (s.linuxDup fd refused).2 := by
  unfold Tables.linuxDup
  split
  · exact sound
  · split
    · exact sound
    · rename_i result host done
      obtain ⟨f, source, free, small, rfl⟩ := Host.dupFrom_ok (refuse_ok done).2
      dsimp only
      exact sound.duplicated source free small

theorem linuxFcntlDup (fd : Int) (cloexec : Bool) (argument : Int) (refused : Option Errno) :
    Sound (s.linuxFcntlDup fd cloexec argument refused).2 := by
  unfold Tables.linuxFcntlDup
  split
  · exact sound
  · split
    · exact sound
    · rename_i result host done
      obtain ⟨f, source, free, small, rfl⟩ := Host.fcntlDup_ok (refuse_ok done).2
      split
      · exact sound.reopened free _
      · dsimp only
        exact sound.duplicated source free small

theorem makeSocket (domain : Int) (linuxType : UInt32) (refused configured : Option Errno) :
    Sound (s.makeSocket domain linuxType refused configured).2 := by
  unfold Tables.makeSocket
  split
  · exact sound
  · split
    · exact sound
    · split
      · exact sound
      · rename_i fd host done
        obtain ⟨free, small, rfl⟩ := Host.install_ok (refuse_ok done).2
        split
        · exact sound.reopened free _
        · exact sound.socket free small

theorem acceptSocket (listener : Int) (flags : Option UInt32) (refused configured : Option Errno)
    (stored : Int) : Sound (s.acceptSocket listener flags refused configured stored).2 := by
  unfold Tables.acceptSocket
  split
  · exact sound
  · split
    · exact sound
    · rename_i fd host done
      obtain ⟨free, small, rfl⟩ := Host.install_ok (refuse_ok done).2
      split
      · exact sound.reopened free _
      · split
        · exact sound.reopened free _
        · exact sound.socket free small

/-- A pipe that was opened and closed again. -/
theorem pipe_reopened (done : s.host.pipe eventfd = .ok (first, second, host)) :
    Sound { s with host := (host.close first).close second } := by
  obtain ⟨⟨free, -⟩, ⟨free', -⟩, apart, rfl⟩ := Host.pipe_ok done
  have same : ((s.host.put first (some (.pipe s.host.pipes eventfd .read))).put second
      (some (.pipe s.host.pipes eventfd .write))).put first none = s.host.put second
        (some (.pipe s.host.pipes eventfd .write)) := by
    rw [Host.put_comm apart, Host.put_put, Host.put_none]
    exact (s.host.put_other _ apart.symm).trans free
  have closed := sound.pipes (s.host.pipes + 1)
  rw [Host.close_nat, Host.close_nat]
  rw [show (Host.put _ first none) = { s.host.put second
    (some (.pipe s.host.pipes eventfd .write)) with pipes := s.host.pipes + 1 } from
    congrArg (fun h : Host => { h with pipes := s.host.pipes + 1 }) same]
  rw [show (Host.put _ second none) = { s.host with pipes := s.host.pipes + 1 } from
    congrArg (fun h : Host => { h with pipes := s.host.pipes + 1 })
      ((s.host.put_put second _ none).trans (Host.put_none free'))]
  exact closed

/-- Both ends, with no path. -/
theorem piped (done : s.host.pipe eventfd = .ok (first, second, host)) :
    Sound { s with host := host } := by
  obtain ⟨⟨free, small⟩, ⟨free', small'⟩, apart, rfl⟩ := Host.pipe_ok done
  have one : Sound { s with host := s.host.put first (some (.pipe s.host.pipes eventfd .read)) } :=
    sound.socket free small
  have two := one.socket (f := .pipe s.host.pipes eventfd .write)
    ((s.host.put_other _ apart).trans free') small'
  exact two.pipes (s.host.pipes + 1)

/-- There is no path to take from a descriptor that was not opened by one. -/
theorem unnamed (fd : Nat) (file : ∀ path, s.host.table fd ≠ some (.path path)) :
    s.copyFdPath (-1) fd = s := by
  unfold Tables.copyFdPath
  split
  · rfl
  · rename_i i found
    obtain rfl : fd = i.val := Int.ofNat.inj (tracked_some.mp found)
    have none : s.path (-1) = s.fdPaths i := (sound.path_of_other file).symm
    rw [none, Tables.setPath, Function.update_eq_self]

theorem linuxPipe (flags : UInt32) (refused configured : Option Errno) :
    Sound (s.linuxPipe flags refused configured).2 := by
  unfold Tables.linuxPipe
  split
  · exact sound
  · split
    · exact sound
    · rename_i first second host done
      have done := (refuse_ok done).2
      split
      · exact sound.pipe_reopened done
      · have opened := sound.piped done
        obtain ⟨-, -, apart, rfl⟩ := Host.pipe_ok done
        dsimp only
        rw [opened.unnamed first, opened.unnamed second]
        · exact opened
        · intro path
          simp only [Host.put_same]
          nofun
        · intro path
          simp only [Host.put_other _ _ apart.symm, Host.put_same]
          nofun

/-- The two ends of a new pipe become a pair. -/
theorem paired {peer number : Nat} (read : s.host.table i = some (.pipe number true .read))
    (write : s.host.table peer = some (.pipe number true .write)) (unhidden : ¬ s.Hidden peer) :
    Sound (s.setPeer i (peer + 1)) := by
  refine ⟨⟨fun j other known => ?_, sound.paths⟩, fun j k some same => ?_, sound.bounded⟩
  · by_cases here : j = i
    · subst here
      rw [s.setPeer_same] at known
      obtain rfl : peer = other := Nat.succ.inj known
      exact ⟨number, read, write⟩
    · rw [s.setPeer_other _ here] at known
      exact sound.peers j other known
  · by_cases first : j = i <;> by_cases second : k = i
    · exact first.trans second.symm
    · subst first
      rw [s.setPeer_same, s.setPeer_other _ second] at same
      exact absurd ⟨k, same.symm⟩ unhidden
    · subst second
      rw [s.setPeer_same, s.setPeer_other _ first] at same
      exact absurd ⟨j, same⟩ unhidden
    · rw [s.setPeer_other _ first] at some same
      rw [s.setPeer_other _ second] at same
      exact sound.unique j k some same

theorem linuxEventfd2 (initialValue flags : UInt32) (refused configured : Option Errno) :
    Sound (s.linuxEventfd2 initialValue flags refused configured).2 := by
  unfold Tables.linuxEventfd2
  split
  · exact sound
  · split
    · exact sound
    · split
      · exact sound
      · rename_i first second host done
        have done := (refuse_ok done).2
        split
        · exact sound.pipe_reopened done
        · rename_i i found
          obtain rfl : first = i.val := Int.ofNat.inj (tracked_some.mp found)
          split
          · exact sound.pipe_reopened done
          · have opened := sound.piped done
            obtain ⟨-, ⟨free, -⟩, apart, rfl⟩ := Host.pipe_ok done
            have read := (Host.put_other (s.host.put i (some (.pipe s.host.pipes true .read)))
              (some (.pipe s.host.pipes true .write)) apart.symm).trans (s.host.put_same _ _)
            have pair := opened.paired (i := i) read (Host.put_same _ _ _)
              (sound.free_not_hidden free)
            dsimp only
            rw [pair.unnamed]
            · exact pair
            · intro path same
              cases read.symm.trans same

end Sound

/-! ## Calls that close -/

theorem Sound.release_hidden (sound : Sound s) (fd : Int)
    (hidden : (s.releaseWakeEventfd fd).Hidden k) : s.Hidden k := by
  rcases sound.release_cases fd with ⟨same, -⟩ | ⟨i, peer, -, -, same⟩
  · rw [same] at hidden
    exact hidden
  · rw [same] at hidden
    obtain ⟨j, paired⟩ := hidden
    have paired : (s.setPeer i 0).eventfdWritePeers j = k + 1 := paired
    by_cases here : j = i
    · subst here
      rw [s.setPeer_same] at paired
      cases paired
    · rw [s.setPeer_other 0 here] at paired
      exact ⟨j, paired⟩

/-- Afterwards the descriptor is no `eventfd`. -/
theorem Sound.release_unpaired (sound : Sound s) (fd : Nat) :
    (s.releaseWakeEventfd fd).Unpaired fd := by
  rintro j rfl
  rcases sound.release_cases j.val with ⟨same, zero⟩ | ⟨i, peer, here, -, same⟩
  · rw [same]
    exact zero j rfl
  · rw [same]
    obtain rfl : j = i := Fin.ext (Int.ofNat.inj here)
    exact s.setPeer_same j 0

/-- A hidden write end is not released. -/
theorem Sound.release_of_hidden (sound : Sound s) (hidden : s.Hidden fd) :
    s.releaseWakeEventfd fd = s := by
  rcases sound.release_cases fd with ⟨same, -⟩ | ⟨i, peer, here, paired, -⟩
  · exact same
  · have zero := sound.hidden_unpaired hidden i (Int.ofNat.inj here).symm
    rw [zero] at paired
    cases paired

theorem linuxCloseFd_eq (s : Tables) (fd : Nat) (answer : Option Errno) :
    (s.linuxCloseFd fd answer).2 = (s.releaseWakeEventfd fd).replace fd none none := by
  unfold Tables.linuxCloseFd
  cases found : tracked fd with
  | none =>
    have same : s.releaseWakeEventfd fd = s := by
      rw [Tables.releaseWakeEventfd, found]
    rw [same, ← s.untracked_replace found none]
    simp only [Host.file_nat, Host.close_nat]
    split
    · rename_i closed
      rw [Host.put_none closed]
    · rfl
  | some i =>
    obtain rfl : fd = i.val := Int.ofNat.inj (tracked_some.mp found)
    rw [← Tables.setPath_replace]
    simp only [Host.file_nat, Host.close_nat]
    split
    · rename_i closed
      simp only [Tables.setPath] at closed
      rw [Host.put_none closed]
    · simp only [Tables.setPath]

theorem Sound.close_iff (sound : Sound s) (fd : Nat) (answer : Option Errno) :
    Truthful (s.linuxCloseFd fd answer).2 ↔ ¬ s.Hidden fd := by
  have named : ∀ p, (none : Option Text) = some p → (none : Option OpenFile) = some (.path p) := nofun
  rw [linuxCloseFd_eq, (sound.release fd).replace_iff (sound.release_unpaired fd) named]
  constructor
  · intro spared hidden
    rw [sound.release_of_hidden hidden] at spared
    exact sound.free_not_hidden (spared hidden).symm hidden
  · intro unhidden hidden
    exact absurd (sound.release_hidden fd hidden) unhidden

theorem Sound.close (sound : Sound s) (fd : Nat) (answer : Option Errno)
    (unhidden : ¬ s.Hidden fd) : Sound (s.linuxCloseFd fd answer).2 := by
  rw [linuxCloseFd_eq]
  apply (sound.release fd).replace (sound.release_unpaired fd)
  · intro p same
    cases same
  · intro hidden
    exact absurd (sound.release_hidden fd hidden) unhidden
  · intro some
    exact absurd rfl some

/-! ## Calls that duplicate over a descriptor -/

theorem Host.dup2_ok {after : Host} (done : h.dup2 source destination = .ok (result, after)) :
    ∃ f, h.file source = some f ∧ destination = result ∧ result < h.openMax ∧
      after = h.put result (some f) := by
  unfold dup2 at done
  split at done
  · cases done
  · rename_i f found
    split at done
    · cases done
    · cases done
      exact ⟨f, found, by omega, by omega, rfl⟩

/-- A hidden write end is duplicated over by itself at most. -/
def Tables.SparesOver (s : Tables) (source destination : Int) (refused : Option Errno) : Prop :=
  source ≠ destination → s.isWakeEventfd source = false → s.host.file source ≠ none →
    refused = none → ∀ k : Nat, destination = k → s.Hidden k → s.host.file source = s.host.table k

theorem Host.fcntlFd_none {fd : Int} (ok : h.fcntlFd fd = none) : h.file fd ≠ none := by
  intro closed
  rw [fcntlFd, if_pos closed] at ok
  cases ok

theorem Host.dup2_error {errno : Errno} (failed : h.dup2 source destination = .error errno) :
    h.file source = none ∨ ∀ k : Nat, destination = k → h.openMax ≤ k := by
  unfold dup2 at failed
  split at failed
  · left
    assumption
  · split at failed
    · right
      rintro k rfl
      omega
    · cases failed

/-- `dup2` gives the destination the source's file, or fails with nothing lost. -/
theorem Sound.dup2_cases (sound : Sound s) (source destination : Int) (refused : Option Errno) :
    (Sound (s.linuxDup2 source destination refused).2 ∧ s.SparesOver source destination refused) ∨
    ∃ (k : Nat) (f : OpenFile), destination = k ∧ source ≠ destination ∧
      s.isWakeEventfd source = false ∧ refused = none ∧
      s.host.file source ≠ none ∧ (s.releaseWakeEventfd k).host.file source = some f ∧
      k < (s.releaseWakeEventfd k).host.openMax ∧
      (s.linuxDup2 source destination refused).2 = (s.releaseWakeEventfd k).replace k (some f)
        ((s.releaseWakeEventfd k).path source) := by
  unfold Tables.linuxDup2
  split
  · rename_i same
    left
    constructor
    · split <;> exact sound
    · intro other
      exact absurd same other
  · rename_i other
    split
    · rename_i wake
      left
      refine ⟨sound, fun _ plain => ?_⟩
      rw [wake] at plain
      cases plain
    · rename_i plain
      split
      · rename_i errno failed
        left
        refine ⟨sound, fun _ _ isOpen => ?_⟩
        rw [Host.fcntlFd, if_neg isOpen] at failed
        cases failed
      · rename_i ok
        have isOpen := Host.fcntlFd_none ok
        dsimp only
        split
        · rename_i errno failed
          left
          refine ⟨sound.release destination, ?_⟩
          rintro - - - rfl k rfl hidden
          rw [sound.release_of_hidden hidden] at failed
          rcases Host.dup2_error failed with closed | large
          · exact absurd closed isOpen
          · obtain ⟨number, write⟩ := sound.hidden_file hidden
            have small := sound.bounded k (by rw [write]; nofun)
            exact absurd (large k rfl) (by omega)
        · rename_i result host done
          right
          obtain ⟨free, done⟩ := refuse_ok done
          obtain ⟨f, found, rfl, small, rfl⟩ := Host.dup2_ok done
          refine ⟨result, f, rfl, other, Bool.eq_false_iff.mpr plain, free, isOpen, found, small, ?_⟩
          dsimp only
          exact Tables.copyFdPath_replace _ source result (some f)

theorem Sound.dup2_iff (sound : Sound s) (source destination : Int) (refused : Option Errno) :
    Truthful (s.linuxDup2 source destination refused).2 ↔ s.SparesOver source destination refused := by
  rcases sound.dup2_cases source destination refused with
    ⟨after, spared⟩ | ⟨k, f, here, other, plain, free, isOpen, found, small, same⟩
  · exact ⟨fun _ => spared, fun _ => after.toTruthful⟩
  · subst here
    have named : ∀ p, (s.releaseWakeEventfd k).path source = some p → some f = some (.path p) :=
      fun p known => found.symm.trans ((sound.release k).path_file known)
    rw [same, (sound.release k).replace_iff (sound.release_unpaired k) named]
    constructor
    · intro spared _ _ _ _ k' same' hidden
      obtain rfl : k = k' := Int.ofNat.inj same'
      rw [sound.release_of_hidden hidden] at spared found
      exact found.trans (spared hidden)
    · intro spared hidden
      have hidden := sound.release_hidden k hidden
      have file := spared other plain isOpen free k rfl hidden
      rw [sound.release_of_hidden hidden] at found ⊢
      exact found.symm.trans file

theorem Sound.dup2 (sound : Sound s) (spared : s.SparesOver source destination refused) :
    Sound (s.linuxDup2 source destination refused).2 := by
  have truthful := (sound.dup2_iff source destination refused).mpr spared
  rcases sound.dup2_cases source destination refused with
    ⟨after, -⟩ | ⟨k, f, here, other, plain, free, isOpen, found, small, same⟩
  · exact after
  · subst here
    rw [same] at truthful ⊢
    have named : ∀ p, (s.releaseWakeEventfd k).path source = some p → some f = some (.path p) :=
      fun p known => found.symm.trans ((sound.release k).path_file known)
    apply (sound.release k).replace (sound.release_unpaired k) named
    · exact ((sound.release k).replace_iff (sound.release_unpaired k) named).mp truthful
    · intro _
      exact small

/-- `dup3` is `dup2` but for the arguments it refuses. -/
theorem dup3_eq (s : Tables) {flags : UInt32} (refused : Option Errno)
    (other : source ≠ destination) (known : flags &&& ~~~linuxOCloexec = 0) :
    (s.linuxDup3 source destination flags refused).2 = (s.linuxDup2 source destination refused).2 := by
  unfold Tables.linuxDup3 Tables.linuxDup2
  rw [if_neg (by simp [other, known]), if_neg other]
  split
  · rfl
  · split
    · rfl
    · dsimp only
      split
      · rfl
      · rename_i result host done
        obtain ⟨f, -, rfl, -, rfl⟩ := Host.dup2_ok (refuse_ok done).2
        have set : (Host.put (s.releaseWakeEventfd result).host result (some f)).fcntlFd result = none := by
          rw [Host.fcntlFd, Host.file_nat, Host.put_same, if_neg nofun]
        rw [set, ite_self]

/-! ## Runs -/

/-- The call neither closes a hidden write end nor duplicates another file over one. -/
def Spares (s : Tables) : Call → Prop
  | .close fd _ => ∀ k : Nat, fd = k → ¬ s.Hidden k
  | .dup2 source destination refused => s.SparesOver source destination refused
  | .dup3 source destination flags refused =>
    flags &&& ~~~linuxOCloexec = 0 → s.SparesOver source destination refused
  | _ => True

theorem close_negative (s : Tables) {fd : Int} (negative : fd < 0) (answer : Option Errno) :
    (s.linuxCloseFd fd answer).2 = s := by
  have found : tracked fd = none := by
    rw [tracked, dif_neg (by omega)]
  have closed : s.host.file fd = none := by
    rw [Host.file, if_neg (by omega)]
  simp only [Tables.linuxCloseFd, found, closed]

theorem call_sound (sound : Sound s) (spared : Spares s c) :
    Sound (s.call c).2 := by
  cases c with
  | openat directoryFd guestPath flags resolve refused =>
    exact sound.linuxOpenPath directoryFd guestPath flags resolve refused
  | close fd answer =>
    by_cases negative : fd < 0
    · rw [Tables.call, close_negative s negative]
      exact sound
    · obtain ⟨k, rfl⟩ := Int.eq_ofNat_of_zero_le (Int.not_lt.mp negative)
      exact sound.close k answer (spared k rfl)
  | dup fd refused => exact sound.linuxDup fd refused
  | dup2 source destination refused => exact sound.dup2 spared
  | dup3 source destination flags refused =>
    by_cases refuses : source = destination ∨ flags &&& ~~~linuxOCloexec ≠ 0
    · rw [Tables.call, Tables.linuxDup3, if_pos refuses]
      exact sound
    · simp only [not_or, not_not] at refuses
      rw [Tables.call, dup3_eq s refused refuses.1 refuses.2]
      exact sound.dup2 (spared refuses.2)
  | fcntlDup fd cloexec argument refused => exact sound.linuxFcntlDup fd cloexec argument refused
  | pipe flags refused configured => exact sound.linuxPipe flags refused configured
  | eventfd2 initialValue flags refused configured =>
    exact sound.linuxEventfd2 initialValue flags refused configured
  | socket domain linuxType refused configured => exact sound.makeSocket domain linuxType refused configured
  | accept listener flags refused configured stored =>
    exact sound.acceptSocket listener flags refused configured stored

/-- A call that does not spare a hidden write end leaves an `eventfd` without its peer. -/
theorem call_spares (sound : Sound s) (after : Truthful (s.call c).2) :
    Spares s c := by
  cases c with
  | close fd answer =>
    rintro k rfl
    exact (sound.close_iff k answer).mp after
  | dup2 source destination refused => exact (sound.dup2_iff source destination refused).mp after
  | dup3 source destination flags refused =>
    intro known other
    rw [Tables.call, dup3_eq s refused other known] at after
    exact (sound.dup2_iff source destination refused).mp after other
  | _ => trivial

/-- As long as no call closes or replaces the hidden write end of an `eventfd`, the tables
describe the descriptors that are open; the first such call breaks them. -/
theorem side_tables_truthful {s : Tables} (run : Lib.Run Step Spares Start s) :
    Truthful s ∧ ∀ c t, Step s c t → (Truthful t ↔ Spares s c) := by
  have sound : Sound s := by
    apply run.invariant Sound
    · intro s start
      exact start.sound
    · rintro s c _ sound spared rfl
      exact call_sound sound spared
  refine ⟨sound.toTruthful, ?_⟩
  rintro c _ rfl
  constructor
  · exact call_spares sound
  · intro spared
    exact (call_sound sound spared).toTruthful

instance (s : Tables) (fd : Nat) : Decidable (s.Hidden fd) :=
  inferInstanceAs (Decidable (∃ _ : Fin maxTrackedFds, _))

/-- Three inherited descriptors. -/
def inherited : Tables where
  host := ⟨256, fun fd => if fd < 3 then some .other else none, 0⟩
  fdPaths _ := none
  eventfdWritePeers _ := 0

theorem inherited_start : Start inherited := by
  refine ⟨fun _ => rfl, fun _ => rfl, fun fd isOpen => ?_⟩
  by_contra large
  have beyond : ¬ fd < 3 := fun small => large (Nat.lt_trans small (by decide))
  exact isOpen (if_neg beyond)

/-- With an `eventfd`: 3 and, hidden, 4. -/
def paired : Tables := (inherited.call (.eventfd2 0 0x80800 none none)).2

theorem side_tables_truthful_replaced : Truthful (paired.call (.dup2 1 3 none)).2 := by
  have unhidden : ¬ paired.Hidden 3 := by decide +kernel
  have free : Spares inherited (.eventfd2 0 0x80800 none none) := trivial
  have run : Lib.Run Step Spares Start paired := .next (.start inherited_start) free rfl
  have spared : Spares paired (.dup2 1 3 none) := by
    intro _ _ _ _ k same hidden
    obtain rfl : k = 3 := Int.ofNat.inj same.symm
    exact absurd hidden unhidden
  exact ((side_tables_truthful run).2 _ _ rfl).mpr spared

/-- The guest closes the hidden end and opens a file. -/
def misdirected : Tables :=
  ((paired.call (.close 4 none)).2.call (.openat linuxAtFdcwd (some (Path.bytes "/data")) 1
    (fun _ _ _ _ => .ok (Path.bytes "/root/data")) none)).2

/-- A write to the `eventfd` then goes to the file. -/
theorem eventfd_peer_misdirected :
    Lib.Run Step (fun _ _ => True) Start misdirected ∧ ¬ Truthful misdirected ∧
      misdirected.eventfdWritePeers ⟨3, by decide⟩ = 4 + 1 ∧
      misdirected.host.table 4 = some (.path (Path.bytes "/root/data")) := by
  have run : Lib.Run Step (fun _ _ => True) Start misdirected :=
    .next (.next (.next (.start inherited_start) trivial rfl) trivial rfl) trivial rfl
  have peer : misdirected.eventfdWritePeers ⟨3, by decide⟩ = 4 + 1 := by decide +kernel
  have file : misdirected.host.table 4 = some (.path (Path.bytes "/root/data")) := by decide +kernel
  refine ⟨run, fun truthful => ?_, peer, file⟩
  obtain ⟨number, -, write⟩ := truthful.peers _ 4 peer
  rw [file] at write
  cases write

end Linuxemu.Fd
