import Linuxemu.PendingInvariant
import Linuxemu.Signal

/-! Membership in the Linux and the host signal sets. -/
namespace Linuxemu.Signal
open Pending (signalWord signalBit getLsbD_signalBit signal_ext)
variable {n m : Nat} {s : SignalSet}

/-! ## Linux sets -/

namespace SignalSet

theorem has_union (s t : SignalSet) (n : Nat) : (s.union t).has n = (s.has n || t.has n) := by
  unfold has
  cases signalWord n <;> simp [word, union]

theorem has_minus (s t : SignalSet) (n : Nat) : (s.minus t).has n = (s.has n && !t.has n) := by
  have bit : (n - 1) % 32 < 32 := Nat.mod_lt _ (by decide)
  unfold has
  cases signalWord n <;> simp [word, minus, bit]

theorem signalWord_le (h : n ≤ 64) : signalWord n = 0 ∨ signalWord n = 1 := by
  unfold signalWord
  omega

theorem has_insert (s : SignalSet) (hm : 1 ≤ m ∧ m ≤ 64) (hn : 1 ≤ n ∧ n ≤ 64) :
    (s.insert m).has n = (s.has n || decide (n = m)) := by
  have same (word : signalWord n = signalWord m) : (n - 1) % 32 = (m - 1) % 32 ↔ n = m :=
    ⟨signal_ext hm.1 hn.1 word, fun e => by rw [e]⟩
  have other (word : signalWord n ≠ signalWord m) : n ≠ m := fun e => word (by rw [e])
  unfold has insert
  rcases signalWord_le hm.2 with wm | wm <;> rcases signalWord_le hn.2 with wn | wn
  · simp [wm, wn, word, getLsbD_signalBit, same (wn.trans wm.symm)]
  · simp [wm, wn, word, other (by omega)]
  · simp [wm, wn, word, other (by omega)]
  · simp [wm, wn, word, getLsbD_signalBit, same (wn.trans wm.symm)]

/-- Neither `SIGKILL` nor `SIGSTOP` is in the set. -/
def Clear (s : SignalSet) : Prop := s.has 9 = false ∧ s.has 19 = false

instance (s : SignalSet) : Decidable s.Clear := inferInstanceAs (Decidable (_ ∧ _))

theorem stripped_clear (s : SignalSet) : s.stripped.Clear := by
  constructor <;> simp [has, stripped, word, signalWord]

theorem clear_union {t : SignalSet} : (s.union t).Clear ↔ s.Clear ∧ t.Clear := by
  simp only [Clear, has_union, Bool.or_eq_false_iff]
  tauto

theorem Clear.minus (h : s.Clear) (t : SignalSet) : (s.minus t).Clear := by
  simp [Clear, has_minus, h.1, h.2]

theorem clear_insert (hm : 1 ≤ m ∧ m ≤ 64) (kill : m ≠ 9) (stop : m ≠ 19) :
    (s.insert m).Clear ↔ s.Clear := by
  have kill : ¬ 9 = m := fun e => kill e.symm
  have stop : ¬ 19 = m := fun e => stop e.symm
  simp [Clear, has_insert s hm, kill, stop]

end SignalSet

/-! ## Host sets -/

theorem mergeHostSets_apply (target source : HostSet) (k : Nat) :
    mergeHostSets target source k = (target k || (decide (1 ≤ k ∧ k ≤ sigrtmax) && source k)) := by
  have fold (numbers : List Nat) (set : HostSet) :
      numbers.foldl (fun set number => if source number then sigaddset set number else set) set k =
        (set k || (decide (k ∈ numbers) && source k)) := by
    induction numbers generalizing set with
    | nil => simp
    | cons number rest ih =>
      rw [List.foldl_cons, ih]
      by_cases here : k = number
      · subst here
        cases given : source k <;> simp [sigaddset]
      · have other : (k == number) = false := beq_eq_false_iff_ne.mpr here
        cases given : source number <;> simp [sigaddset, here, other]
  have range : k ∈ List.range' 1 sigrtmax ↔ 1 ≤ k ∧ k ≤ sigrtmax := by
    rw [List.mem_range'_1, sigrtmax]
    omega
  rw [mergeHostSets, fold, decide_eq_decide.mpr range]

theorem linuxSetToHost_sigill (words : SignalSet) : linuxSetToHost words sigill = false := by
  simp [linuxSetToHost, sigdelset]

theorem linuxSetToHost_sigsegv (words : SignalSet) : linuxSetToHost words sigsegv = false := by
  simp [linuxSetToHost, sigdelset]

/-- A signal of the set is in the host's set, unless it has no host number or is a trap. -/
theorem linuxSetToHost_mem {words : SignalSet} (valid : 1 ≤ n ∧ n ≤ 64)
    (member : words.has n = true) (mapped : linuxSignalToHost n ≠ 0)
    (ill : linuxSignalToHost n ≠ sigill) (segv : linuxSignalToHost n ≠ sigsegv) :
    linuxSetToHost words (linuxSignalToHost n) = true := by
  generalize host : linuxSignalToHost n = h at mapped ill segv ⊢
  let add (set : HostSet) (number : Nat) : HostSet :=
    if words.has number = false then set
    else if linuxSignalToHost number = 0 then set
    else sigaddset set (linuxSignalToHost number)
  have grows (set : HostSet) (number : Nat) (already : set h = true) : add set number h = true := by
    simp only [add]
    split
    · exact already
    · split
      · exact already
      · simp [sigaddset, already]
  have keeps (numbers : List Nat) (set : HostSet) (already : set h = true) :
      numbers.foldl add set h = true := by
    induction numbers generalizing set with
    | nil => exact already
    | cons number rest ih => exact ih _ (grows set number already)
  have reaches (numbers : List Nat) (set : HostSet) (here : n ∈ numbers) :
      numbers.foldl add set h = true := by
    induction numbers generalizing set with
    | nil => cases here
    | cons number rest ih =>
      rcases List.mem_cons.mp here with rfl | later
      · apply keeps rest
        simp only [add, member, host, mapped, Bool.true_eq_false, if_false, sigaddset,
          beq_self_eq_true, Bool.true_or]
      · exact ih _ later
  have all := reaches (List.range' 1 linuxSignalCount) (fun _ => false)
    (by simp only [List.mem_range'_1, linuxSignalCount]; omega)
  simp only [linuxSetToHost, sigdelset, Bool.and_eq_true, bne_iff_ne, ne_eq]
  exact ⟨segv, ill, all⟩

/-! ## Numbers -/

theorem linuxSignalToHost_realtime (h : 32 ≤ n ∧ n ≤ 47) :
    linuxSignalToHost n = n + 9 := by
  unfold linuxSignalToHost
  rw [if_pos h, sigrtmin]
  omega

theorem linuxSignalToHost_high (h : 47 < n) : linuxSignalToHost n = 0 := by
  unfold linuxSignalToHost
  rw [if_neg (by omega)]
  split <;> omega

/-- Only the trap signals have the traps' host numbers. -/
theorem linuxSignalToHost_trap (n : Nat) :
    (linuxSignalToHost n = sigill ↔ n = 4) ∧ (linuxSignalToHost n = sigsegv ↔ n = 11) := by
  by_cases low : n < 32
  · revert n
    decide
  · by_cases realtime : n ≤ 47
    · rw [linuxSignalToHost_realtime ⟨by omega, realtime⟩, sigill, sigsegv]
      omega
    · rw [linuxSignalToHost_high (by omega), sigill, sigsegv]
      omega

end Linuxemu.Signal
