import Linuxemu.GuestMemory
import Linuxemu.Lib.Bytes
import Linuxemu.Path
import Mathlib.Data.List.Forall2

/-! The first stack of a guest program (`create_guest_stack` of `runtime.c`): strings from
the top down, below them the vectors, as a Linux process expects them at its entry. -/
namespace Linuxemu.Stack
open Lib Linuxemu.Path Guest
variable {environ : List Text} {written : Memory} {sp i : Nat}

/-- The variables of the function that change: where the next string ends, and memory. -/
structure Cursor where
  cursor : Nat
  memory : Memory

variable {s' : Cursor}

def pushBytes (lowerBound : Nat) (source : List UInt8) (s : Cursor) : Option (Nat × Cursor) :=
  if s.cursor - lowerBound < source.length then none
  else
    let cursor := s.cursor - source.length
    some (cursor, ⟨cursor, s.memory.storeBytes cursor source⟩)

/-- Push each string with its NUL, and say where each one is. -/
def pushStrings (lowerBound : Nat) : List Text → Cursor → Option (List Nat × Cursor)
  | [], s => some ([], s)
  | x :: rest, s => do
    let (address, s) ← pushBytes lowerBound (x ++ [0]) s
    let (addresses, s) ← pushStrings lowerBound rest s
    return (address :: addresses, s)

def guestEnvironmentEntry (value : Text) : Bool :=
  value.take 9 != bytes "LINUXEMU_" && value.take 16 != bytes "LD_LIBRARY_PATH="

/-- The fields of `struct guest_image` that the auxiliary vector shows. -/
structure GuestImage where
  entry : UInt32
  interpreterBase : UInt32
  programHeaders : UInt32
  programHeaderSize : UInt32
  programHeaderCount : UInt32

/-- What the function asks the host for; `random` are the bytes of `/dev/urandom`. -/
structure StackHost where
  pageSize : UInt32
  uid : UInt32
  euid : UInt32
  gid : UInt32
  egid : UInt32
  random : Option (Vector UInt8 16)

def auxiliary (image : GuestImage) (host : StackHost) (randomAddress execfn : Nat) :
    List (UInt32 × UInt32) :=
  (if image.programHeaders ≠ 0 then [(3, image.programHeaders)] else []) ++
    [(4, image.programHeaderSize), (5, image.programHeaderCount), (6, host.pageSize),
      (7, image.interpreterBase), (9, image.entry), (11, host.uid), (12, host.euid),
      (13, host.gid), (14, host.egid), (23, 0), (25, .ofNat randomAddress), (31, .ofNat execfn)]

/-- The words from the stack pointer on. -/
def vectorWords (arguments environment : List Nat) (auxv : List (UInt32 × UInt32)) : List UInt32 :=
  .ofNat arguments.length :: arguments.map .ofNat ++ 0 :: environment.map .ofNat ++ 0 ::
    auxv.flatMap (fun x => [x.1, x.2]) ++ [0, 0]

/-- The string part of the stack. -/
structure Strings where
  arguments : List Nat
  environment : List Nat
  randomAddress : Nat
  rest : Cursor

def pushAll (lowerBound : Nat) (guestArgv environ : List Text) (host : StackHost) (s : Cursor) :
    Option Strings := do
  let (environment, s) ← pushStrings lowerBound (environ.filter guestEnvironmentEntry) s
  let (reversed, s) ← pushStrings lowerBound guestArgv.reverse s
  let random ← host.random
  let (randomAddress, s) ←
    pushBytes lowerBound random.toList { s with cursor := alignDown s.cursor 16 }
  return ⟨reversed.reverse, environment, randomAddress, s⟩

def writeVectors (lowerBound : Nat) (words : List UInt32) (s : Cursor) : Option (Nat × Memory) :=
  if (s.cursor - lowerBound) / 4 < words.length then none
  else
    let vectorStart := alignDown (s.cursor - words.length * 4) 16
    if vectorStart < lowerBound then none
    else some (vectorStart, s.memory.storeWords vectorStart words)

/-- The stack pointer and memory with the stack in it. `mapping` is the host's place for the
stack, `registered` the answer of `guest_memory_runtime_map`. -/
def createGuestStack (mapping : Option Nat) (registered : Bool) (guestArgv environ : List Text)
    (image : GuestImage) (host : StackHost) (memory : Memory) : Option (Nat × Memory) :=
  match mapping with
  | none => none
  | some lowerBound =>
    if guestArgv = [] then none
    else if lowerBound < guestMinAddress ∨ guestMaxAddress ≤ lowerBound ∨
        guestMaxAddress - lowerBound < guestStackSize ∨ ¬ registered then none
    else do
      let x ← pushAll lowerBound guestArgv environ host ⟨lowerBound + guestStackSize, memory⟩
      let auxv := auxiliary image host x.randomAddress (x.arguments.headD 0)
      writeVectors lowerBound (vectorWords x.arguments x.environment auxv) x.rest

/-! ## Strings -/

/-- A string with its NUL. -/
def StringAt (m : Memory) (a : Nat) (x : Text) : Prop :=
  (∀ i, i < x.length → m (a + i) = x.getD i 0) ∧ m (a + x.length) = 0

variable {lowerBound a lo hi : Nat} {s : Cursor} {guestArgv : List Text} {words : List UInt32}
  {m : Memory} {host : StackHost} {x : Text}

/-- The string lies between two addresses. -/
structure Lies (m : Memory) (lo hi a : Nat) (x : Text) : Prop where
  low : lo ≤ a
  high : a + x.length + 1 ≤ hi
  string : StringAt m a x

theorem Lies.mono {m' : Memory} {lo' hi' : Nat} (h : Lies m lo hi a x) (low : lo' ≤ lo)
    (high : hi ≤ hi') (same : ∀ q, lo ≤ q → q < hi → m' q = m q) :
    Lies m' lo' hi' a x := by
  obtain ⟨lo, hi, string, nul⟩ := h
  refine ⟨by omega, by omega, fun i small => ?_, ?_⟩
  · rw [same _ (by omega) (by omega)]
    exact string i small
  · rw [same _ (by omega) (by omega)]
    exact nul

theorem pushBytes_some {source : List UInt8} (low : lowerBound ≤ s.cursor)
    (pushed : pushBytes lowerBound source s = some (a, s')) :
    a = s'.cursor ∧ lowerBound ≤ s'.cursor ∧ s'.cursor + source.length = s.cursor ∧
      s'.memory = s.memory.storeBytes s'.cursor source := by
  unfold pushBytes at pushed
  split at pushed
  · cases pushed
  · cases pushed
    dsimp only
    exact ⟨rfl, by omega, by omega, rfl⟩

theorem pushBytes_isSome (source : List UInt8) (low : lowerBound ≤ s.cursor) :
    (pushBytes lowerBound source s).isSome ↔ lowerBound + source.length ≤ s.cursor := by
  unfold pushBytes
  split
  · simp
    omega
  · simp
    omega

/-- The bytes of these strings with their NULs. -/
def stringBytes (xs : List Text) : Nat := (xs.map fun x => x.length + 1).sum

/-- What pushing strings comes to. -/
structure Pushed (xs : List Text) (s : Cursor) (addresses : List Nat) (s' : Cursor) : Prop where
  cursor : s'.cursor + stringBytes xs = s.cursor
  strings : List.Forall₂ (Lies s'.memory s'.cursor s.cursor) addresses xs
  frame : ∀ q, q < s'.cursor ∨ s.cursor ≤ q → s'.memory q = s.memory q

theorem pushStrings_some {xs : List Text} {addresses : List Nat} (low : lowerBound ≤ s.cursor)
    (pushed : pushStrings lowerBound xs s = some (addresses, s')) :
    Pushed xs s addresses s' ∧ lowerBound ≤ s'.cursor := by
  induction xs generalizing s addresses with
  | nil =>
    cases pushed
    exact ⟨⟨rfl, .nil, fun q _ => rfl⟩, low⟩
  | cons x xs ih =>
    simp only [pushStrings, bind, Option.bind_eq_some_iff, pure, Option.some.injEq] at pushed
    obtain ⟨⟨a, middle⟩, first, ⟨rest, last⟩, others, same⟩ := pushed
    simp only [Prod.mk.injEq] at same
    obtain ⟨rfl, rfl⟩ := same
    obtain ⟨rfl, low, cursor, memory⟩ := pushBytes_some low first
    obtain ⟨⟨below, strings, frame⟩, low⟩ := ih low others
    have length : (x ++ [0]).length = x.length + 1 := by simp
    have stored (i : Nat) (small : i < x.length + 1) :
        last.memory (middle.cursor + i) = (x ++ [0]).getD i 0 := by
      rw [frame _ (.inr (by omega)), memory, Memory.storeBytes_byte _ _ _ (by omega)]
    refine ⟨⟨?_, .cons ⟨by omega, by omega, fun i small => ?_, ?_⟩ ?_, fun q outside => ?_⟩, low⟩
    · simp only [stringBytes, List.map_cons, List.sum_cons] at below ⊢
      omega
    · rw [stored i (by omega), List.getD_append _ _ _ _ small]
    · rw [stored x.length (by omega)]
      simp
    · exact strings.imp fun a x lies => lies.mono (Nat.le_refl _) (by omega) fun _ _ _ => rfl
    · rw [frame q (by omega), memory, Memory.storeBytes_outside _ (by omega)]

theorem pushStrings_isSome (xs : List Text) (low : lowerBound ≤ s.cursor) :
    (pushStrings lowerBound xs s).isSome ↔ lowerBound + stringBytes xs ≤ s.cursor := by
  induction xs generalizing s with
  | nil => simpa [pushStrings, stringBytes] using low
  | cons x xs ih =>
    have length : (x ++ [0]).length = x.length + 1 := by simp
    have total : stringBytes (x :: xs) = x.length + 1 + stringBytes xs := by simp [stringBytes]
    have fits := pushBytes_isSome (x ++ [0]) low
    unfold pushStrings
    cases first : pushBytes lowerBound (x ++ [0]) s with
    | none =>
      rw [first] at fits
      simp at fits
      simp
      omega
    | some pair =>
      obtain ⟨a, middle⟩ := pair
      obtain ⟨-, low, cursor, -⟩ := pushBytes_some low first
      have rest := ih low
      cases others : pushStrings lowerBound xs middle with
      | none =>
        rw [others] at rest
        simp at rest
        simp [others]
        omega
      | some pair =>
        rw [others] at rest
        simp at rest
        simp [others]
        omega

/-! ## Vectors -/

section
variable (arguments environment : List Nat) (auxv : List (UInt32 × UInt32))

theorem vectorWords_length : (vectorWords arguments environment auxv).length =
    arguments.length + environment.length + 2 * auxv.length + 5 := by
  have pairs : (auxv.flatMap fun x => [x.1, x.2]).length = 2 * auxv.length := by
    simp [List.length_flatMap]
    omega
  simp only [vectorWords, List.length_append, List.length_cons, List.length_map, pairs,
    List.length_nil]
  omega

theorem vectorWords_count :
    (vectorWords arguments environment auxv).getD 0 0 = .ofNat arguments.length := by
  simp [vectorWords]

theorem vectorWords_argument (inside : i < arguments.length) :
    (vectorWords arguments environment auxv).getD (1 + i) 0 = .ofNat arguments[i] := by
  rw [Nat.add_comm]
  simp [vectorWords, List.getElem?_append, inside]

theorem vectorWords_argumentsEnd :
    (vectorWords arguments environment auxv).getD (1 + arguments.length) 0 = 0 := by
  rw [Nat.add_comm]
  simp [vectorWords]

theorem vectorWords_entry (inside : i < environment.length) :
    (vectorWords arguments environment auxv).getD (arguments.length + 2 + i) 0 =
      .ofNat environment[i] := by
  have index : arguments.length + 2 + i = arguments.length + (i + 1) + 1 := by omega
  have past : ¬ arguments.length + (i + 1) < arguments.length := by omega
  rw [index]
  simp [vectorWords, List.getElem?_append, inside, past]

theorem vectorWords_environmentEnd :
    (vectorWords arguments environment auxv).getD (arguments.length + 2 + environment.length) 0 =
      0 := by
  have index : arguments.length + 2 + environment.length =
    arguments.length + (environment.length + 1) + 1 := by omega
  rw [index]
  simp [vectorWords]

end

/-- A pointer, not null, to this string. -/
def PointsTo (m : Memory) (a : Nat) (x : Text) : Prop :=
  m.word a ≠ 0 ∧ StringAt m (m.word a).toNat x

/-- What a program finds at its entry: the number of its arguments, then two vectors of
strings, each with a null pointer behind it. -/
structure Entry (m : Memory) (sp : Nat) (argv envp : List Text) : Prop where
  count : (m.word sp).toNat = argv.length
  arguments : ∀ i (inside : i < argv.length), PointsTo m (sp + 4 * (1 + i)) argv[i]
  argumentsEnd : m.word (sp + 4 * (1 + argv.length)) = 0
  environment : ∀ i (inside : i < envp.length),
    PointsTo m (sp + 4 * (argv.length + 2 + i)) envp[i]
  environmentEnd : m.word (sp + 4 * (argv.length + 2 + envp.length)) = 0

/-! ## The whole stack -/

theorem alignDown_sixteen {value : Nat} (fits : value < 2 ^ 32) :
    alignDown value 16 = value / 16 * 16 :=
  and_high_mask (k := 4) fits (by omega)

/-- Where the strings are when they all fit. -/
structure Placed (lowerBound top : Nat) (guestArgv environ : List Text) (x : Strings) : Prop where
  low : lowerBound ≤ x.rest.cursor
  cursor : x.rest.cursor + 16 =
    (top - stringBytes (environ.filter guestEnvironmentEntry) - stringBytes guestArgv) / 16 * 16
  arguments : List.Forall₂ (Lies x.rest.memory x.rest.cursor top) x.arguments guestArgv
  environment : List.Forall₂ (Lies x.rest.memory x.rest.cursor top) x.environment
    (environ.filter guestEnvironmentEntry)

theorem stringBytes_reverse (xs : List Text) : stringBytes xs.reverse = stringBytes xs := by
  simp [stringBytes]

/-- What is in memory then: the strings at the top, the random bytes below them, and
nothing else has changed. -/
structure Strung (lowerBound top : Nat) (guestArgv environ : List Text) (host : StackHost)
    (before : Memory) (x : Strings) : Prop where
  low : lowerBound ≤ x.rest.cursor
  cursor : x.rest.cursor + 16 =
    (top - stringBytes (environ.filter guestEnvironmentEntry) - stringBytes guestArgv) / 16 * 16
  address : x.randomAddress = x.rest.cursor
  random : ∃ drawn, host.random = some drawn ∧
    ∀ i (inside : i < 16), x.rest.memory (x.rest.cursor + i) = drawn[i]
  arguments : List.Forall₂ (Lies x.rest.memory (x.rest.cursor + 16) top) x.arguments guestArgv
  environment : List.Forall₂ (Lies x.rest.memory (x.rest.cursor + 16) top) x.environment
    (environ.filter guestEnvironmentEntry)
  frame : ∀ q, q < x.rest.cursor ∨ top ≤ q → x.rest.memory q = before q

theorem pushAll_strung {x : Strings} (low : lowerBound ≤ s.cursor) (aligned : 16 ∣ lowerBound)
    (fits : s.cursor < 2 ^ 32) (pushed : pushAll lowerBound guestArgv environ host s = some x) :
    Strung lowerBound s.cursor guestArgv environ host s.memory x := by
  simp only [pushAll, bind, Option.bind_eq_some_iff, pure, Option.some.injEq] at pushed
  obtain ⟨⟨environment, s₁⟩, env, ⟨reversed, s₂⟩, argv, drawn, random, ⟨a, s₃⟩, bytes, rfl⟩ :=
    pushed
  dsimp only at env argv bytes
  obtain ⟨⟨cursor₁, strings₁, frame₁⟩, low₁⟩ := pushStrings_some low env
  obtain ⟨⟨cursor₂, strings₂, frame₂⟩, low₂⟩ := pushStrings_some low₁ argv
  have down := alignDown_sixteen (show s₂.cursor < 2 ^ 32 by omega)
  have low₃ : lowerBound ≤ alignDown s₂.cursor 16 := by omega
  obtain ⟨rfl, low₄, cursor₃, memory⟩ :=
    pushBytes_some (s := ⟨alignDown s₂.cursor 16, s₂.memory⟩) low₃ bytes
  simp only [Vector.length_toList] at cursor₃ memory
  rw [stringBytes_reverse] at cursor₂
  have same (q : Nat) (outside : q < s₃.cursor ∨ s₂.cursor ≤ q) :
      s₃.memory q = s₂.memory q := by
    rw [memory]
    apply Memory.storeBytes_outside
    simp only [Vector.length_toList]
    omega
  constructor
  · exact low₄
  · dsimp only
    omega
  · rfl
  · refine ⟨drawn, random, fun i inside => ?_⟩
    have length : drawn.toList.length = 16 := Vector.length_toList
    dsimp only
    rw [memory, Memory.storeBytes_byte _ _ _ (by omega), List.getD_eq_getElem _ _ (by omega)]
    simp
  · have listed := List.rel_reverse strings₂
    rw [List.reverse_reverse] at listed
    exact listed.imp fun a x lies =>
      lies.mono (by dsimp only; omega) (by omega) fun q above _ => same q (.inr above)
  · exact strings₁.imp fun a x lies =>
      lies.mono (by dsimp only; omega) (by omega) fun q above _ => by
        rw [same q (.inr (by omega)), frame₂ q (.inr above)]
  · intro q outside
    dsimp only at outside ⊢
    rw [same q (by omega), frame₂ q (by omega), frame₁ q (by omega)]

theorem pushAll_some {x : Strings} (low : lowerBound ≤ s.cursor) (aligned : 16 ∣ lowerBound)
    (fits : s.cursor < 2 ^ 32) (pushed : pushAll lowerBound guestArgv environ host s = some x) :
    Placed lowerBound s.cursor guestArgv environ x := by
  have strung := pushAll_strung low aligned fits pushed
  have lower {a : Nat} {y : Text} (lies : Lies x.rest.memory (x.rest.cursor + 16) s.cursor a y) :
      Lies x.rest.memory x.rest.cursor s.cursor a y :=
    lies.mono (by omega) (Nat.le_refl _) fun _ _ _ => rfl
  exact ⟨strung.low, strung.cursor, strung.arguments.imp fun _ _ => lower,
    strung.environment.imp fun _ _ => lower⟩

theorem pushAll_isSome (guestArgv environ : List Text) (low : lowerBound ≤ s.cursor)
    (aligned : 16 ∣ lowerBound) (fits : s.cursor < 2 ^ 32) (random : host.random.isSome) :
    (pushAll lowerBound guestArgv environ host s).isSome ↔
      lowerBound + stringBytes (environ.filter guestEnvironmentEntry) + stringBytes guestArgv + 16 ≤
        s.cursor := by
  obtain ⟨drawn, random⟩ := Option.isSome_iff_exists.mp random
  have named := pushStrings_isSome (environ.filter guestEnvironmentEntry) low
  unfold pushAll
  cases env : pushStrings lowerBound (environ.filter guestEnvironmentEntry) s with
  | none =>
    rw [env] at named
    simp at named ⊢
    omega
  | some pair =>
    obtain ⟨environment, s₁⟩ := pair
    obtain ⟨⟨cursor₁, -, -⟩, low₁⟩ := pushStrings_some low env
    have given := pushStrings_isSome guestArgv.reverse low₁
    rw [stringBytes_reverse] at given
    cases argv : pushStrings lowerBound guestArgv.reverse s₁ with
    | none =>
      rw [argv] at given
      simp [argv] at given ⊢
      omega
    | some pair =>
      obtain ⟨reversed, s₂⟩ := pair
      obtain ⟨⟨cursor₂, -, -⟩, low₂⟩ := pushStrings_some low₁ argv
      rw [stringBytes_reverse] at cursor₂
      have down := alignDown_sixteen (show s₂.cursor < 2 ^ 32 by omega)
      have room := pushBytes_isSome drawn.toList
        (show lowerBound ≤ (Cursor.mk (alignDown s₂.cursor 16) s₂.memory).cursor by
          dsimp only; omega)
      simp only [Vector.length_toList] at room
      simp [argv, random, Option.isSome_bind, room]
      omega

theorem auxiliary_length (image : GuestImage) (host : StackHost) (randomAddress execfn : Nat) :
    (auxiliary image host randomAddress execfn).length =
      if image.programHeaders ≠ 0 then 13 else 12 := by
  unfold auxiliary
  split <;> rfl

theorem writeVectors_some (fits : s.cursor < 2 ^ 32)
    (result : writeVectors lowerBound words s = some (sp, written)) :
    lowerBound ≤ sp ∧ sp + 4 * words.length ≤ s.cursor ∧
      written = s.memory.storeWords sp words := by
  unfold writeVectors at result
  dsimp only at result
  split at result
  · cases result
  · split at result
    · cases result
    · rename_i room low
      have down := alignDown_sixteen (show s.cursor - words.length * 4 < 2 ^ 32 by omega)
      cases result
      exact ⟨by omega, by omega, rfl⟩

theorem writeVectors_isSome (low : lowerBound ≤ s.cursor) (aligned : 16 ∣ lowerBound)
    (fits : s.cursor < 2 ^ 32) :
    (writeVectors lowerBound words s).isSome ↔ lowerBound + 4 * words.length ≤ s.cursor := by
  unfold writeVectors
  have down := alignDown_sixteen (show s.cursor - words.length * 4 < 2 ^ 32 by omega)
  dsimp only
  split
  · simp
    omega
  · rw [if_neg (by omega)]
    simp
    omega

theorem writeVectors_aligned (fits : s.cursor < 2 ^ 32)
    (result : writeVectors lowerBound words s = some (sp, written)) : 16 ∣ sp := by
  unfold writeVectors at result
  dsimp only at result
  split at result
  · cases result
  · split at result
    · cases result
    · have down := alignDown_sixteen (show s.cursor - words.length * 4 < 2 ^ 32 by omega)
      cases result
      omega

/-- The address of a string fits into a word, and is not null. -/
theorem Lies.toNat (lies : Lies m lo hi a x) (fits : hi ≤ 2 ^ 32) : (UInt32.ofNat a).toNat = a := by
  have high := lies.high
  rw [UInt32.toNat_ofNat', Nat.mod_eq_of_lt (by omega)]

theorem Lies.ne_null (lies : Lies m lo hi a x) (positive : 0 < lo) (fits : hi ≤ 2 ^ 32) :
    UInt32.ofNat a ≠ 0 := by
  intro null
  have low := lies.low
  have zero := congrArg UInt32.toNat null
  rw [lies.toNat fits, UInt32.toNat_zero] at zero
  omega

theorem Lies.pointed {p : Nat} (lies : Lies m lo hi a x) (positive : 0 < lo) (fits : hi ≤ 2 ^ 32)
    (word : m.word p = .ofNat a) : PointsTo m p x := by
  unfold PointsTo
  rw [word, lies.toNat fits]
  exact ⟨lies.ne_null positive fits, lies.string⟩

/-- The words of the vectors. -/
def stackWords (image : GuestImage) (argv envp : List Text) : Nat :=
  argv.length + envp.length + if image.programHeaders ≠ 0 then 31 else 29

theorem vectorWords_stackWords (image : GuestImage) (host : StackHost) {x : Strings}
    {argv envp : List Text} (arguments : x.arguments.length = argv.length)
    (environment : x.environment.length = envp.length) :
    (vectorWords x.arguments x.environment
      (auxiliary image host x.randomAddress (x.arguments.headD 0))).length =
        stackWords image argv envp := by
  rw [vectorWords_length, auxiliary_length, stackWords, arguments, environment]
  split <;> omega

/-- The finished stack: the words of the vectors from the stack pointer up, above them the
random bytes, above these the strings; what lies outside is as it was. -/
structure Stacked (lower top sp : Nat) (argv envp : List Text) (image : GuestImage)
    (host : StackHost) (before after : Memory) (arguments environment : List Nat)
    (random : Nat) : Prop where
  aligned : 16 ∣ sp
  low : lower ≤ sp
  words : after.WordsAt sp (vectorWords arguments environment
    (auxiliary image host random (arguments.headD 0)))
  above : sp + 4 * stackWords image argv envp ≤ random
  below : random + 16 ≤ top
  drawn : ∃ bytes, host.random = some bytes ∧ ∀ i (inside : i < 16), after (random + i) = bytes[i]
  arguments : List.Forall₂ (Lies after (random + 16) top) arguments argv
  environment : List.Forall₂ (Lies after (random + 16) top) environment envp
  frame : ∀ q, q < lower ∨ top ≤ q → after q = before q

section
variable {lowerBound : Nat} {registered : Bool} {guestArgv environ : List Text}
  {image : GuestImage} {host : StackHost} {memory written : Memory} {sp : Nat}

/-- The checks that a finished stack has passed, and its two parts. -/
theorem createGuestStack_parts
    (built : createGuestStack (some lowerBound) registered guestArgv environ image host memory =
      some (sp, written)) :
    guestArgv ≠ [] ∧ guestMinAddress ≤ lowerBound ∧ lowerBound + guestStackSize ≤ guestMaxAddress ∧
      ∃ x, pushAll lowerBound guestArgv environ host ⟨lowerBound + guestStackSize, memory⟩ =
        some x ∧ writeVectors lowerBound (vectorWords x.arguments x.environment
          (auxiliary image host x.randomAddress (x.arguments.headD 0))) x.rest =
            some (sp, written) := by
  unfold createGuestStack at built
  dsimp only at built
  split at built
  · cases built
  split at built
  · cases built
  rename_i given checks
  simp only [not_or] at checks
  obtain ⟨above, -, below, -⟩ := checks
  refine ⟨given, Nat.le_of_not_lt above, ?_, Option.bind_eq_some_iff.mp built⟩
  simp only [guestMaxAddress, guestStackSize] at below ⊢
  omega

theorem createGuestStack_stacked (aligned : 16 ∣ lowerBound)
    (built : createGuestStack (some lowerBound) registered guestArgv environ image host memory =
      some (sp, written)) :
    ∃ arguments environment random, Stacked lowerBound (lowerBound + guestStackSize) sp guestArgv
      (environ.filter guestEnvironmentEntry) image host memory written arguments environment
      random := by
  obtain ⟨given, low, high, x, pushed, wrote⟩ := createGuestStack_parts built
  have top : lowerBound + guestStackSize < 2 ^ 32 := by
    simp only [guestMaxAddress] at high
    omega
  have strung := pushAll_strung (s := ⟨lowerBound + guestStackSize, memory⟩)
    (Nat.le_add_right _ _) aligned top pushed
  have cursor := strung.cursor
  have address := strung.address
  dsimp only at cursor
  have small : x.rest.cursor < 2 ^ 32 := by omega
  have even := writeVectors_aligned small wrote
  obtain ⟨lowest, fits, stored⟩ := writeVectors_some small wrote
  have size := vectorWords_stackWords image host strung.arguments.length_eq
    strung.environment.length_eq
  rw [size] at fits
  -- The words end below the random bytes.
  have kept (q : Nat) (outside : q < sp ∨ x.rest.cursor ≤ q) : written q = x.rest.memory q := by
    rw [stored]
    apply Memory.storeWords_outside
    rw [size]
    omega
  have lies {a : Nat} {y : Text}
      (there : Lies x.rest.memory (x.rest.cursor + 16) (lowerBound + guestStackSize) a y) :
      Lies written (x.randomAddress + 16) (lowerBound + guestStackSize) a y :=
    there.mono (by omega) (Nat.le_refl _) fun q above _ => kept q (by omega)
  refine ⟨x.arguments, x.environment, x.randomAddress, even, lowest, ?_, by omega, by omega, ?_,
    strung.arguments.imp fun _ _ => lies, strung.environment.imp fun _ _ => lies, ?_⟩
  · rw [stored]
    exact x.rest.memory.storeWords_wordsAt sp _
  · obtain ⟨bytes, random, same⟩ := strung.random
    refine ⟨bytes, random, fun i inside => ?_⟩
    rw [kept _ (by omega), address]
    exact same i inside
  · intro q outside
    rw [kept q (by omega)]
    exact strung.frame q (by dsimp only; omega)

/-- The program finds its arguments and the entries that are for a guest. -/
theorem createGuestStack_entry (aligned : 16 ∣ lowerBound)
    (built : createGuestStack (some lowerBound) registered guestArgv environ image host memory =
      some (sp, written)) :
    Entry written sp guestArgv (environ.filter guestEnvironmentEntry) := by
  obtain ⟨-, -, high, -⟩ := createGuestStack_parts built
  have top : lowerBound + guestStackSize ≤ 2 ^ 32 := by
    simp only [guestMaxAddress] at high
    omega
  obtain ⟨arguments, environment, random, stacked⟩ := createGuestStack_stacked aligned built
  have counted := stacked.arguments.length_eq
  have entries := stacked.environment.length_eq
  have above := stacked.above
  have size := vectorWords_length arguments environment
    (auxiliary image host random (arguments.headD 0))
  have word {i : Nat} := stacked.words.get (i := i)
  constructor
  · have first := word (i := 0) (by omega)
    rw [Nat.mul_zero, Nat.add_zero, vectorWords_count] at first
    have below := stacked.below
    have many : guestArgv.length ≤ stackWords image guestArgv
        (environ.filter guestEnvironmentEntry) := by
      unfold stackWords
      omega
    rw [first, UInt32.toNat_ofNat', counted, Nat.mod_eq_of_lt (by omega)]
  · intro i inside
    have string := (List.forall₂_iff_get.mp stacked.arguments).2 i (by omega) inside
    refine string.pointed (by omega) top ?_
    rw [word (by omega), vectorWords_argument _ _ _ (by omega)]
    rfl
  · rw [← counted, word (by omega), vectorWords_argumentsEnd]
  · intro i inside
    have string := (List.forall₂_iff_get.mp stacked.environment).2 i (by omega) inside
    refine string.pointed (by omega) top ?_
    rw [← counted, word (by omega), vectorWords_entry _ _ _ (by omega)]
    rfl
  · rw [← counted, ← entries, word (by omega), vectorWords_environmentEnd]

/-- The stack is there whenever everything fits into it. -/
theorem createGuestStack_isSome (aligned : 16 ∣ lowerBound) (low : guestMinAddress ≤ lowerBound)
    (high : lowerBound + guestStackSize ≤ guestMaxAddress) (given : guestArgv ≠ [])
    (random : host.random.isSome) :
    (createGuestStack (some lowerBound) true guestArgv environ image host memory).isSome ↔
      4 * stackWords image guestArgv (environ.filter guestEnvironmentEntry) + 16 ≤
        (guestStackSize - stringBytes (environ.filter guestEnvironmentEntry) -
          stringBytes guestArgv) / 16 * 16 := by
  have top : lowerBound + guestStackSize < 2 ^ 32 := by
    simp only [guestMaxAddress] at high
    omega
  have checks : ¬ (lowerBound < guestMinAddress ∨ guestMaxAddress ≤ lowerBound ∨
      guestMaxAddress - lowerBound < guestStackSize ∨ ¬ true = true) := by
    simp only [guestStackSize] at high ⊢
    simp only [not_true, or_false]
    omega
  have strings := pushAll_isSome guestArgv environ
    (s := ⟨lowerBound + guestStackSize, memory⟩) (Nat.le_add_right _ _) aligned top random
  unfold createGuestStack
  dsimp only at strings ⊢
  rw [if_neg given, if_neg checks]
  cases pushed : pushAll lowerBound guestArgv environ host ⟨lowerBound + guestStackSize, memory⟩ with
  | none =>
    rw [pushed] at strings
    simp at strings ⊢
    omega
  | some x =>
    obtain ⟨lowest, cursor, arguments, environment⟩ :=
      pushAll_some (Nat.le_add_right _ _) aligned top pushed
    have size := vectorWords_stackWords image host arguments.length_eq
      environment.length_eq
    dsimp only at cursor
    rw [pushed] at strings
    have fits := strings.mp rfl
    rw [Option.bind_eq_bind, Option.bind_some, writeVectors_isSome lowest aligned (by omega), size]
    simp only [guestStackSize] at cursor fits ⊢
    omega

end

/-- With these strings to start from, a program finds `argv` and `envp` at its entry, on every
stack that is made; one is made unless the host fails or they do not fit into it. -/
structure Gives (guestArgv environ argv envp : List Text) : Prop where
  entry {lowerBound : Nat} {registered : Bool} {image : GuestImage} {host : StackHost}
    {memory written : Memory} {sp : Nat} (aligned : 16 ∣ lowerBound)
    (built : createGuestStack (some lowerBound) registered guestArgv environ image host memory =
      some (sp, written)) : Entry written sp argv envp
  made {lowerBound : Nat} {image : GuestImage} {host : StackHost} {memory : Memory}
    (aligned : 16 ∣ lowerBound) (low : guestMinAddress ≤ lowerBound)
    (high : lowerBound + guestStackSize ≤ guestMaxAddress) (random : host.random.isSome) :
    (createGuestStack (some lowerBound) true guestArgv environ image host memory).isSome ↔
      4 * stackWords image argv envp + 16 ≤
        (guestStackSize - stringBytes envp - stringBytes argv) / 16 * 16

theorem createGuestStack_gives (given : guestArgv ≠ []) (environ : List Text) :
    Gives guestArgv environ guestArgv (environ.filter guestEnvironmentEntry) := by
  constructor
  · exact createGuestStack_entry
  · intro lowerBound image host memory aligned low high random
    exact createGuestStack_isSome aligned low high given random

end Linuxemu.Stack
