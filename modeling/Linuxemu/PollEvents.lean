import Mathlib.Data.List.Forall2
import Mathlib.Data.List.GetD
import Linuxemu.Descriptors
import Linuxemu.Lib.BitTable

/-! The events of `poll` (`linux_poll.c`): what the guest asks for is translated for the host's
call, with a descriptor of the emulator's own behind the guest's when a signal is waited for, and
what the host reports is translated back. -/
namespace Linuxemu.Poll
open Lib BitTable Fd
variable {revents : List (BitVec 16)}

/-! ## The translation of events -/

/-- The host's events that the source names, but for `POLLIN`. -/
inductive HostEvent where
  | rdnorm | rdband | pri | out | wrband | err | hup | nval
  deriving DecidableEq, Repr

variable {e : HostEvent}

/-- The bits of the host's header. -/
structure PollHost where
  bit : HostEvent → BitVec 16
  pollin : BitVec 16

/-- The tests of `poll_events_to_host`. -/
def requests : List (BitVec 16 × HostEvent) :=
  [(0x001 ||| 0x040, .rdnorm), (0x080, .rdband), (0x002, .pri), (0x004 ||| 0x100, .out),
    (0x200, .wrband)]

def pollEventsToHost (h : PollHost) (value : BitVec 16) : BitVec 16 :=
  translate (requests.map fun (mask, event) => (mask, h.bit event)) value

/-- The tests of `poll_events_to_linux`. -/
def answers : List (HostEvent × BitVec 16) :=
  [(.rdnorm, 0x001 ||| 0x040), (.rdband, 0x001 ||| 0x080), (.pri, 0x002), (.out, 0x004 ||| 0x100),
    (.wrband, 0x200), (.err, 0x008), (.hup, 0x010), (.nval, 0x020)]

def pollEventsToLinux (h : PollHost) (value : BitVec 16) : BitVec 16 :=
  translate (answers.map fun (event, bits) => (h.bit event, bits)) value

/-! ## The call -/

structure LinuxPollfd where
  fd : Int
  events : BitVec 16
  revents : BitVec 16
  deriving DecidableEq, Repr

variable {guest : List LinuxPollfd}

/-- An entry of the host's array as the call finds it. -/
structure HostPollfd where
  fd : Int
  events : BitVec 16
  deriving DecidableEq, Repr

/-- What the host's `poll` answers: an error, or the number returned and every `revents`. -/
abbrev PollCall := List HostPollfd → Int → Except Errno (Nat × List (BitVec 16))

structure PollReturn where
  value : Int
  guest : List LinuxPollfd
  /-- What is stored for the caller, if the call was made. -/
  signalInterrupted : Option Bool

def hostEntries (h : PollHost) (guest : List LinuxPollfd) (signalWaitFd : Int) :
    List HostPollfd :=
  guest.map (fun entry => ⟨entry.fd, pollEventsToHost h entry.events⟩) ++
    if 0 ≤ signalWaitFd then [⟨signalWaitFd, h.pollin⟩] else []

def LinuxPollfd.report (h : PollHost) (entry : LinuxPollfd) (revents : BitVec 16) : LinuxPollfd :=
  { entry with revents := pollEventsToLinux h revents }

def doPoll (h : PollHost) (poll : PollCall) (calloc : Bool) (guest : List LinuxPollfd)
    (timeout signalWaitFd : Int) : PollReturn :=
  let host := hostEntries h guest signalWaitFd
  if 65536 < guest.length then ⟨linuxError .einval, guest, none⟩
  else if host ≠ [] ∧ !calloc then ⟨linuxError .enomem, guest, none⟩
  else match poll host timeout with
  | .error errno => ⟨linuxError errno, guest, some (errno == .eintr)⟩
  | .ok (result, revents) =>
    if 0 < result ∧ 0 ≤ signalWaitFd ∧ revents.getD guest.length 0 ≠ 0 then
      ⟨linuxError .eintr, guest, some true⟩
    else ⟨result, guest.zipWith (LinuxPollfd.report h) revents, some false⟩

/-! ## What the guest sees -/

/-- Different events have no bit in common. -/
def PollHost.Distinct (h : PollHost) : Prop := ∀ e f, e ≠ f → h.bit e &&& h.bit f = 0

/-- What may be reported unasked. -/
def PollHost.conditions (h : PollHost) : BitVec 16 := h.bit .err ||| h.bit .hup ||| h.bit .nval

/-- Every entry reports only what it was asked for and the three conditions, and the result is the
number of entries that report something. -/
def PollHost.Answers (h : PollHost) (poll : PollCall) : Prop :=
  ∀ host timeout result revents, poll host timeout = .ok (result, revents) →
    List.Forall₂ (fun entry reported => Within reported (entry.events ||| h.conditions))
      host revents ∧
    result = revents.countP (· ≠ 0)

/-- The guest's events that come with each other: `POLLIN` and `POLLRDNORM` are one event of the host,
`POLLOUT` and `POLLWRNORM` another, and `POLLRDBAND` comes with `POLLIN`. -/
def together : List (BitVec 16 × BitVec 16) :=
  [(0x041, 0x041), (0x080, 0x081), (0x002, 0x002), (0x104, 0x104), (0x200, 0x200)]

/-- What can come of asking for these events. -/
def answerable (events : BitVec 16) : BitVec 16 := translate together events

/-- `POLLERR`, `POLLHUP` and `POLLNVAL` of the guest. -/
def conditions : BitVec 16 := 0x008 ||| 0x010 ||| 0x020

variable {h : PollHost} {reported events : BitVec 16}

theorem PollHost.Distinct.eq_of_meets (distinct : h.Distinct) {f : HostEvent}
    (met : meets (h.bit e) (h.bit f) = true) : e = f := by
  by_contra other
  rw [meets, distinct e f other] at met
  cases met

/-- An event the host reports is a condition, or the guest asked for it. -/
theorem reported_event (distinct : h.Distinct)
    (within : Within reported (pollEventsToHost h events ||| h.conditions))
    (met : meets reported (h.bit e) = true) :
    (e = .err ∨ e = .hup ∨ e = .nval) ∨
      ∃ mask, (mask, e) ∈ requests ∧ meets events mask = true := by
  obtain asked | condition := meets_or.mp (within.meets met)
  · right
    obtain ⟨entry, member, wanted, same⟩ := meets_translate.mp asked
    obtain ⟨⟨mask, event⟩, request, rfl⟩ := List.mem_map.mp member
    obtain rfl := distinct.eq_of_meets same
    exact ⟨mask, request, wanted⟩
  · left
    simp only [PollHost.conditions, meets_or] at condition
    obtain (err | hup) | nval := condition
    · exact .inl (distinct.eq_of_meets err).symm
    · exact .inr (.inl (distinct.eq_of_meets hup).symm)
    · exact .inr (.inr (distinct.eq_of_meets nval).symm)

theorem pollEventsToLinux_within (distinct : h.Distinct)
    (within : Within reported (pollEventsToHost h events ||| h.conditions)) :
    Within (pollEventsToLinux h reported) (answerable events ||| conditions) := by
  apply translate_within.mpr
  intro entry member met
  obtain ⟨⟨event, bits⟩, answer, rfl⟩ := List.mem_map.mp member
  obtain condition | ⟨mask, request, wanted⟩ := reported_event distinct within met
  · have conditions_only : ∀ a ∈ answers, a.1 = .err ∨ a.1 = .hup ∨ a.1 = .nval →
        Within a.2 conditions := by decide
    exact (conditions_only _ answer condition).or_right _
  · have listed : ∀ r ∈ requests, ∀ a ∈ answers, r.2 = a.1 → (r.1, a.2) ∈ together := by decide
    have alone := translate_within.mp (show Within (answerable events) (answerable events) from
      BitVec.and_self) _ (listed _ request _ answer rfl) wanted
    exact alone.or_left _

/-- No report is lost: what is not zero for the host is not zero for the guest. -/
theorem pollEventsToLinux_ne_zero
    (within : Within reported (pollEventsToHost h events ||| h.conditions)) :
    pollEventsToLinux h reported ≠ 0 ↔ reported ≠ 0 := by
  constructor
  · rintro some rfl
    apply some
    obtain ⟨i, set⟩ := exists_bit some
    obtain ⟨entry, -, met, -⟩ := getLsbD_translate.mp set
    simp [meets] at met
  · intro some
    obtain ⟨i, set⟩ := exists_bit some
    have known : ∃ e, (h.bit e).getLsbD i = true := by
      have asked := within_iff.mp within i set
      rw [BitVec.getLsbD_or, Bool.or_eq_true] at asked
      obtain asked | condition := asked
      · obtain ⟨entry, member, -, bit⟩ := getLsbD_translate.mp asked
        obtain ⟨⟨mask, event⟩, -, rfl⟩ := List.mem_map.mp member
        exact ⟨event, bit⟩
      · simp only [PollHost.conditions, BitVec.getLsbD_or, Bool.or_eq_true] at condition
        obtain (err | hup) | nval := condition
        · exact ⟨_, err⟩
        · exact ⟨_, hup⟩
        · exact ⟨_, nval⟩
    obtain ⟨e, bit⟩ := known
    have listed : ∀ e, ∃ a ∈ answers, a.1 = e ∧ ∃ k < 16, a.2.getLsbD k = true := by
      intro e
      cases e <;> decide
    obtain ⟨⟨event, bits⟩, answer, rfl, k, -, shown⟩ := listed e
    intro zero
    have lit : (pollEventsToLinux h reported).getLsbD k = true :=
      getLsbD_translate.mpr ⟨_, List.mem_map.mpr ⟨_, answer, rfl⟩, meets_iff.mpr ⟨i, set, bit⟩, shown⟩
    rw [zero] at lit
    simp at lit

/-- How a call ends: the guest's array is as it was and the value negative, or the host has
answered and every entry of the guest has its report. -/
theorem doPoll_cases (h : PollHost) (poll : PollCall) (calloc : Bool) (guest : List LinuxPollfd)
    (timeout signalWaitFd : Int) :
    ((doPoll h poll calloc guest timeout signalWaitFd).value < 0 ∧
      (doPoll h poll calloc guest timeout signalWaitFd).guest = guest) ∨
    ∃ result revents, poll (hostEntries h guest signalWaitFd) timeout = .ok (result, revents) ∧
      ¬ (0 < result ∧ 0 ≤ signalWaitFd ∧ revents.getD guest.length 0 ≠ 0) ∧
      doPoll h poll calloc guest timeout signalWaitFd =
        ⟨result, guest.zipWith (LinuxPollfd.report h) revents, some false⟩ := by
  unfold doPoll
  dsimp only
  split
  · exact .inl ⟨linuxError_neg _, rfl⟩
  · split
    · exact .inl ⟨linuxError_neg _, rfl⟩
    · split
      · exact .inl ⟨linuxError_neg _, rfl⟩
      · rename_i result revents answered
        split
        · exact .inl ⟨linuxError_neg _, rfl⟩
        · rename_i own
          exact .inr ⟨result, revents, answered, own, rfl⟩

/-- What an entry of the guest's array has after a call. -/
def Reported (before after : LinuxPollfd) : Prop :=
  after.fd = before.fd ∧ after.events = before.events ∧
    Within after.revents (answerable before.events ||| conditions)

/-- The entries of the guest, and how many of them have something to report beside those behind
them. -/
theorem zipWith_report (distinct : h.Distinct) {own : List HostPollfd}
    (answered : List.Forall₂ (fun entry reported => Within reported (entry.events ||| h.conditions))
      (guest.map (fun entry => ⟨entry.fd, pollEventsToHost h entry.events⟩) ++ own) revents) :
    List.Forall₂ Reported guest (guest.zipWith (LinuxPollfd.report h) revents) ∧
    (guest.zipWith (LinuxPollfd.report h) revents).countP (·.revents ≠ 0) +
      (revents.drop guest.length).countP (· ≠ 0) = revents.countP (· ≠ 0) := by
  induction guest generalizing revents with
  | nil => exact ⟨.nil, Nat.zero_add _⟩
  | cons entry guest ih =>
    rw [List.map_cons, List.cons_append] at answered
    cases answered with
    | @cons _ reported _ revents first rest =>
      obtain ⟨each, count⟩ := ih rest
      have here := pollEventsToLinux_within distinct first
      have seen := pollEventsToLinux_ne_zero first
      refine ⟨.cons ⟨rfl, rfl, here⟩ each, ?_⟩
      rw [List.zipWith_cons_cons, List.countP_cons, List.countP_cons, List.length_cons,
        List.drop_succ_cons, ← count]
      have same : (decide ((entry.report h reported).revents ≠ 0)) = decide (reported ≠ 0) :=
        decide_eq_decide.mpr seen
      rw [same]
      omega

/-- Behind the guest's entries there is at most the emulator's own. -/
theorem drop_own {signalWaitFd : Int}
    (length : (hostEntries h guest signalWaitFd).length = revents.length) :
    revents.drop guest.length =
      if 0 ≤ signalWaitFd then [revents.getD guest.length 0] else [] := by
  rw [hostEntries, List.length_append, List.length_map] at length
  split
  · rename_i waits
    rw [if_pos waits, List.length_singleton] at length
    have inside : guest.length < revents.length := by omega
    rw [List.drop_eq_getElem_cons inside, List.drop_of_length_le (by omega),
      List.getD_eq_getElem _ _ inside]
  · rename_i waits
    rw [if_neg waits, List.length_nil] at length
    exact List.drop_of_length_le (by omega)

/-- `poll` answers what was asked. Of a call that succeeds, every entry shows events that were
asked for, with those that come with them, and error conditions; the result is the number of
entries that show any. A call that fails leaves the array. -/
theorem poll_answers_asked {h : PollHost} (distinct : h.Distinct) {poll : PollCall}
    (answers : h.Answers poll) (calloc : Bool) (guest : List LinuxPollfd)
    (timeout signalWaitFd : Int) :
    (0 ≤ (doPoll h poll calloc guest timeout signalWaitFd).value →
      List.Forall₂ Reported guest (doPoll h poll calloc guest timeout signalWaitFd).guest ∧
      (doPoll h poll calloc guest timeout signalWaitFd).value =
        (doPoll h poll calloc guest timeout signalWaitFd).guest.countP (·.revents ≠ 0)) ∧
    ((doPoll h poll calloc guest timeout signalWaitFd).value < 0 →
      (doPoll h poll calloc guest timeout signalWaitFd).guest = guest) := by
  obtain ⟨failed, same⟩ | ⟨result, revents, answered, quiet, done⟩ :=
    doPoll_cases h poll calloc guest timeout signalWaitFd
  · exact ⟨fun fine => absurd failed (by omega), fun _ => same⟩
  · obtain ⟨within, counted⟩ := answers _ _ _ _ answered
    obtain ⟨each, count⟩ := zipWith_report distinct within
    rw [done]
    refine ⟨fun _ => ⟨each, ?_⟩, fun negative => absurd negative (by dsimp only; omega)⟩
    -- the emulator's own entry is not among those counted
    have own : (revents.drop guest.length).countP (· ≠ 0) = 0 := by
      rw [drop_own within.length_eq] at count ⊢
      by_cases waits : 0 ≤ signalWaitFd
      · by_cases zero : revents.getD guest.length 0 = 0
        · rw [if_pos waits, zero]
          rfl
        · have none : ¬ 0 < result := fun some => quiet ⟨some, waits, zero⟩
          omega
      · rw [if_neg waits]
        rfl
    dsimp only
    omega

/-- A host on which everything asked for is there at once. -/
def readyHost : PollHost where
  bit
    | .rdnorm => 0x01
    | .rdband => 0x02
    | .pri => 0x04
    | .out => 0x08
    | .wrband => 0x10
    | .err => 0x20
    | .hup => 0x40
    | .nval => 0x80
  pollin := 0x03

def readyPoll : PollCall := fun host _ =>
  .ok ((host.map HostPollfd.events).countP (· ≠ 0), host.map HostPollfd.events)

theorem readyHost_distinct : readyHost.Distinct := by
  intro e f
  cases e <;> cases f <;> decide

theorem readyPoll_answers : readyHost.Answers readyPoll := by
  rintro host timeout result revents ⟨⟩
  refine ⟨?_, rfl⟩
  rw [List.forall₂_map_right_iff, List.forall₂_same]
  intro entry _
  exact Within.or_left (show Within entry.events entry.events from BitVec.and_self) _

/-- One descriptor to write to, one to read from, one that nothing is asked of. -/
theorem poll_answers_ready :
    let guest : List LinuxPollfd := [⟨1, 0x104, 0⟩, ⟨0, 0x041, 0⟩, ⟨2, 0, 0⟩]
    (doPoll readyHost readyPoll true guest (-1) (-1)).value = 2 ∧
    List.Forall₂ Reported guest (doPoll readyHost readyPoll true guest (-1) (-1)).guest := by
  intro guest
  have value : (doPoll readyHost readyPoll true guest (-1) (-1)).value = 2 := by decide +kernel
  obtain ⟨succeeds, -⟩ :=
    poll_answers_asked readyHost_distinct readyPoll_answers true guest (-1) (-1)
  exact ⟨value, (succeeds (by rw [value]; decide)).1⟩

/-- Only `POLLIN` is asked for, and `POLLRDNORM` reported too. -/
theorem poll_reports_unasked :
    readyHost.Distinct ∧ readyHost.Answers readyPoll ∧
    (doPoll readyHost readyPoll true [⟨0, 0x001, 0⟩] (-1) (-1)).value = 1 ∧
    (doPoll readyHost readyPoll true [⟨0, 0x001, 0⟩] (-1) (-1)).guest = [⟨0, 0x001, 0x041⟩] ∧
    ¬ Within 0x041 (0x001 ||| conditions) :=
  ⟨readyHost_distinct, readyPoll_answers, by decide +kernel, by decide +kernel, by decide⟩

end Linuxemu.Poll
