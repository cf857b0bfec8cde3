import Linuxemu.InitialStack

/-! What a guest reads at its entry. The reader follows the Linux convention, as
`initial-stack.S` does: the number of arguments, pointers up to a null, pointers up to a null,
then pairs up to `AT_NULL`. -/
namespace Linuxemu.Stack
open Lib Linuxemu.Path Guest
variable {environment addresses arguments : List Nat} {rest : List UInt32} {xs : List Text}
  {m : Memory} {lo hi sp : Nat}

/-! ## The reader -/

/-- The bytes before the NUL. -/
def readString (m : Memory) : Nat → Nat → Option Text
  | 0, _ => none
  | fuel + 1, a =>
    if m a = 0 then some [] else (readString m fuel (a + 1)).map (m a :: ·)

/-- The pointers before the null pointer, and the address behind it. -/
def readPointers (m : Memory) : Nat → Nat → Option (List UInt32 × Nat)
  | 0, _ => none
  | fuel + 1, a =>
    if m.word a = 0 then some ([], a + 4)
    else (readPointers m fuel (a + 4)).map fun rest => (m.word a :: rest.1, rest.2)

/-- The pairs before the one of type `AT_NULL`. -/
def readPairs (m : Memory) : Nat → Nat → Option (List (UInt32 × UInt32))
  | 0, _ => none
  | fuel + 1, a =>
    if m.word a = 0 then some []
    else (readPairs m fuel (a + 8)).map ((m.word a, m.word (a + 4)) :: ·)

structure ProcessEntry where
  argc : UInt32
  argv : List Text
  envp : List Text
  auxv : List (UInt32 × UInt32)

def readEntry (m : Memory) (fuel sp : Nat) : Option ProcessEntry := do
  let (arguments, a) ← readPointers m fuel (sp + 4)
  let (environment, a) ← readPointers m fuel a
  let auxv ← readPairs m fuel a
  let argv ← arguments.mapM fun p => readString m fuel p.toNat
  let envp ← environment.mapM fun p => readString m fuel p.toNat
  return ⟨m.word sp, argv, envp, auxv⟩

section
variable {m : Memory} {fuel a : Nat}

theorem readString_of {x : Text} (string : StringAt m a x) (plain : 0 ∉ x)
    (enough : x.length < fuel) : readString m fuel a = some x := by
  induction x generalizing a fuel with
  | nil =>
    obtain ⟨fuel, rfl⟩ := Nat.exists_eq_add_of_lt enough
    have nul : m a = 0 := string.2
    simp [readString, nul]
  | cons c x ih =>
    obtain ⟨bytes, nul⟩ := string
    rw [List.mem_cons, not_or] at plain
    have first : m a = c := bytes 0 (by simp)
    have rest : StringAt m (a + 1) x := by
      constructor
      · intro i small
        have byte := bytes (i + 1) (by simpa using small)
        rw [Nat.add_assoc, Nat.add_comm 1 i, byte]
        simp
      · rw [Nat.add_assoc, Nat.add_comm 1]
        exact nul
    cases fuel with
    | zero => cases enough
    | succ fuel =>
      have more : c ≠ 0 := fun zero => plain.1 zero.symm
      have tail := ih rest plain.2 (by simpa using enough)
      simp [readString, first, more, tail]

theorem readPointers_of {pointers : List UInt32} (there : ∀ p ∈ pointers, p ≠ 0)
    (words : m.WordsAt a (pointers ++ 0 :: rest)) (enough : pointers.length < fuel) :
    readPointers m fuel a = some (pointers, a + 4 * (pointers.length + 1)) := by
  induction pointers generalizing a fuel with
  | nil =>
    obtain ⟨fuel, rfl⟩ := Nat.exists_eq_add_of_lt enough
    simp [readPointers, words.1]
  | cons p pointers ih =>
    cases fuel with
    | zero => cases enough
    | succ fuel =>
      have pointer : m.word a = p := words.1
      have tail := ih (fun q member => there q (List.mem_cons_of_mem p member)) words.2
        (by simpa using enough)
      have stop : a + 4 + 4 * (pointers.length + 1) = a + 4 * (pointers.length + 1 + 1) := by omega
      rw [readPointers, pointer, if_neg (there p List.mem_cons_self), tail, stop]
      rfl

theorem readPairs_of {pairs : List (UInt32 × UInt32)} (there : ∀ x ∈ pairs, x.1 ≠ 0)
    (words : m.WordsAt a (pairs.flatMap (fun x => [x.1, x.2]) ++ 0 :: rest))
    (enough : pairs.length < fuel) : readPairs m fuel a = some pairs := by
  induction pairs generalizing a fuel with
  | nil =>
    obtain ⟨fuel, rfl⟩ := Nat.exists_eq_add_of_lt enough
    have null : m.word a = 0 := words.1
    simp [readPairs, null]
  | cons x pairs ih =>
    cases fuel with
    | zero => cases enough
    | succ fuel =>
      obtain ⟨kind, value, others⟩ := words
      have tail := ih (fun y member => there y (List.mem_cons_of_mem x member)) others
        (by simpa using enough)
      rw [readPairs, kind, value, if_neg (there x List.mem_cons_self), tail]
      rfl

/-- Strings that lie in a stretch no longer than the fuel are read through their pointers. -/
theorem readStrings_of (strings : List.Forall₂ (Lies m lo hi) addresses xs)
    (plain : ∀ x ∈ xs, 0 ∉ x) (top : hi ≤ 2 ^ 32) (enough : hi ≤ lo + fuel) :
    (addresses.map UInt32.ofNat).mapM (fun p => readString m fuel p.toNat) = some xs := by
  induction strings with
  | nil => rfl
  | @cons address x addresses xs lies _ ih =>
    have low := lies.low
    have high := lies.high
    have first := readString_of lies.string (plain x List.mem_cons_self)
      (show x.length < fuel by omega)
    have rest := ih fun y member => plain y (List.mem_cons_of_mem x member)
    rw [List.map_cons, List.mapM_cons, lies.toNat top, first, rest]
    rfl

end

/-! ## What is read -/

theorem auxiliary_kinds (image : GuestImage) (host : StackHost) (randomAddress execfn : Nat) :
    ∀ x ∈ auxiliary image host randomAddress execfn, x.1 ≠ 0 := by
  unfold auxiliary
  split <;> simp

theorem auxiliary_execfn (image : GuestImage) (host : StackHost) (random execfn : Nat)
    (value : UInt32) :
    (31, value) ∈ auxiliary image host random execfn ↔ value = .ofNat execfn := by
  unfold auxiliary
  split <;> simp

theorem auxiliary_random (image : GuestImage) (host : StackHost) (random execfn : Nat)
    (value : UInt32) :
    (25, value) ∈ auxiliary image host random execfn ↔ value = .ofNat random := by
  unfold auxiliary
  split <;> simp

/-- The addresses of strings above the vectors are no null pointers. -/
theorem pointers_there (strings : List.Forall₂ (Lies m lo hi) addresses xs) (positive : 0 < lo)
    (top : hi ≤ 2 ^ 32) :
    ∀ p ∈ addresses.map UInt32.ofNat, p ≠ 0 := by
  induction strings with
  | nil => simp
  | cons lies _ ih => exact List.forall_mem_cons.mpr ⟨lies.ne_null positive top, ih⟩

/-- The parts of the vectors, each with the zero behind it. -/
theorem vectorWords_parts {auxv : List (UInt32 × UInt32)}
    (words : m.WordsAt sp (vectorWords arguments environment auxv)) :
    m.word sp = .ofNat arguments.length ∧
      (∃ rest, m.WordsAt (sp + 4) (arguments.map UInt32.ofNat ++ 0 :: rest)) ∧
      (∃ rest, m.WordsAt (sp + 4 + 4 * (arguments.length + 1))
        (environment.map UInt32.ofNat ++ 0 :: rest)) ∧
      ∃ rest, m.WordsAt (sp + 4 + 4 * (arguments.length + 1) + 4 * (environment.length + 1))
        (auxv.flatMap (fun x => [x.1, x.2]) ++ 0 :: rest) := by
  simp only [vectorWords, List.append_assoc, List.cons_append] at words
  obtain ⟨count, first⟩ := words
  have second := first.right.2
  have third := second.right.2
  rw [List.length_map, Nat.add_assoc _ _ 4] at second third
  rw [List.length_map, Nat.add_assoc _ _ 4] at third
  exact ⟨count, ⟨_, first⟩, ⟨_, second⟩, ⟨_, third⟩⟩

theorem Stacked.read {lower top : Nat} {argv envp : List Text} {image : GuestImage}
    {host : StackHost} {before after : Memory} {random : Nat}
    (h : Stacked lower top sp argv envp image host before after arguments environment random)
    (fits : top ≤ 2 ^ 32) {fuel : Nat} (enough : top ≤ lower + fuel) (given : argv ≠ [])
    (plainArguments : ∀ x ∈ argv, 0 ∉ x) (plainEnvironment : ∀ x ∈ envp, 0 ∉ x) :
    readEntry after fuel sp = some ⟨.ofNat argv.length, argv, envp,
      auxiliary image host random (after.word (sp + 4)).toNat⟩ := by
  obtain ⟨-, low, words, above, -, -, strings, entries, -⟩ := h
  have counted := strings.length_eq
  have named := entries.length_eq
  have size := auxiliary_length image host random (arguments.headD 0)
  obtain ⟨count, ⟨_, first⟩, ⟨_, second⟩, ⟨_, third⟩⟩ := vectorWords_parts words
  -- the first argument lies above the words, so they are fewer than the fuel
  obtain ⟨x, others, rfl⟩ := List.exists_cons_of_ne_nil given
  obtain ⟨address, addresses, lies, -, rfl⟩ := List.forall₂_cons_right_iff.mp strings
  have bottom := lies.low
  have ceiling := lies.high
  have room : (address :: addresses).length + environment.length + 29 ≤ fuel := by
    unfold stackWords at above
    simp only [List.length_cons] at counted above ⊢
    split at above <;> omega
  have pairs : (auxiliary image host random address).length < fuel := by
    simp only [List.headD_cons] at size
    split at size <;> omega
  have execfn : (after.word (sp + 4)).toNat = address := by
    have word : after.word (sp + 4) = .ofNat address := first.1
    rw [word, lies.toNat fits]
  have readArguments := readPointers_of (pointers_there strings (by omega) fits) first
    (show _ < fuel by rw [List.length_map]; omega)
  have readEnvironment := readPointers_of (pointers_there entries (by omega) fits) second
    (show _ < fuel by rw [List.length_map]; omega)
  have readAuxiliary := readPairs_of (auxiliary_kinds image host random _) third pairs
  rw [List.length_map] at readArguments readEnvironment
  have readArgv := readStrings_of strings plainArguments fits (show _ ≤ _ + fuel by omega)
  have readEnvp := readStrings_of entries plainEnvironment fits (show _ ≤ _ + fuel by omega)
  rw [execfn, ← counted, ← count]
  simp only [readEntry, readArguments, readEnvironment, readAuxiliary, readArgv, readEnvp, bind,
    Option.bind_some]
  rfl

end Linuxemu.Stack
