import Linuxemu.Load
import Linuxemu.MmapOutcome
import Linuxemu.OwnMemory
import Linuxemu.ProcessEntry

/-! `create_guest_stack` of `runtime.c` from its first check to its last: the stack is mapped
and registered, filled, and on a failure given back. `InitialStack` has what is put into it. -/
namespace Linuxemu.Guest
open Lib Registry Linuxemu.Path
variable {outcome : Except Errno Nat} {image : Stack.GuestImage} {guestArgv environ : List Text}
  {m mapped : Machine} {lower sp : Nat}

/-- What the function asks for: the mapping, the two `calloc` calls, and the values that go
into the auxiliary vector. -/
structure StackAnswers where
  mmap : Except Errno Nat
  allocated : Bool
  host : Stack.StackHost

def Machine.mapStack (m : Machine) (outcome : Except Errno Nat) : Except Errno Nat × Machine :=
  m.mmap 0 guestStackSize brkProtection brkFlags (-1) 0 outcome

/-- The process's own memory. -/
def Machine.memory (m : Machine) : Memory := fun a => m.image.host.bytes ⟨none, a⟩

def Machine.withMemory (m : Machine) (memory : Memory) : Machine :=
  { m with
    image := { m.image with
      host := { m.image.host with
        bytes := fun p => if p.region = none then memory p.index else m.image.host.bytes p } } }

/-- The label `fail`. What was written goes with the pages. -/
def Machine.dropStack (m : Machine) (lowerBound : Nat) : Machine :=
  let m := m.munmap lowerBound guestStackSize
  { m with registry := guestMemoryRuntimeUnmap m.registry lowerBound guestStackSize }

def Machine.createGuestStack (m : Machine) (e : StackAnswers) (guestArgv environ : List Text)
    (image : Stack.GuestImage) : Nat × Machine :=
  if guestArgv = [] then (0, m)
  else match m.mapStack e.mmap with
  | (.error _, m) => (0, m)
  | (.ok lowerBound, m) =>
    if lowerBound < guestMinAddress ∨ guestMaxAddress ≤ lowerBound ∨
        guestMaxAddress - lowerBound < guestStackSize then
      (0, m.munmap lowerBound guestStackSize)
    else
      let reply := guestMemoryRuntimeMap m.registry lowerBound guestStackSize 0
      let m := { m with registry := reply.table }
      if reply.code ≠ 0 then (0, m.munmap lowerBound guestStackSize)
      else if e.allocated then
        match Stack.createGuestStack (some lowerBound) true guestArgv environ image e.host
            m.memory with
        | none => (0, m.dropStack lowerBound)
        | some (vectorStart, memory) => (vectorStart, m.withMemory memory)
      else (0, m.dropStack lowerBound)

/-! ## The mapping -/

/-- The host has mapped the stack at `lower`, where nothing was. -/
structure StackMapped (m : Machine) (lower : Nat) (mapped : Machine) : Prop where
  aligned : 16 ∣ lower
  fresh : OnFree m.image.host lower guestStackSize mapped.image.host
  page : ∀ a, lower ≤ a → a < lower + guestStackSize →
    mapped.image.host.page a = some ⟨brkProtection, none, false⟩
  registry : mapped.registry = m.registry

theorem PageSize.sixteen_dvd (p : PageSize) : 16 ∣ p.bytes := by
  have := p.least
  exact Nat.pow_dvd_pow 2 (show 4 ≤ p.shift by omega)

theorem stack_inSpan (h : Host) {a : Nat} (aligned : lower % h.pageSize.bytes = 0) (low : lower ≤ a)
    (high : a < lower + guestStackSize) :
    h.inSpan lower guestStackSize (a / h.pageSize.bytes) = true := by
  have covers := le_pageCount_mul h guestStackSize
  exact (inSpan_iff h aligned guestStackSize a).mpr ⟨low, by omega⟩

theorem mapStack_error {errno : Errno} (asked : m.mapStack outcome = (.error errno, mapped)) :
    mapped = m := by
  obtain ⟨_, -, result⟩ | ⟨_, _, -, result⟩ := mmap_cases m 0 guestStackSize brkProtection
    brkFlags (-1) 0 outcome
  · rw [Machine.mapStack, result] at asked
    cases asked
    rfl
  · rw [Machine.mapStack, result] at asked
    cases asked

theorem mapStack_ok (asked : m.mapStack outcome = (.ok lower, mapped)) :
    StackMapped m lower mapped := by
  obtain ⟨_, -, result⟩ | ⟨place, host, granted, result⟩ := mmap_cases m 0 guestStackSize
    brkProtection brkFlags (-1) 0 outcome
  · rw [Machine.mapStack, result] at asked
    cases asked
  · rw [Machine.mapStack, result] at asked
    cases asked
    have granted := mmap_granted granted
    refine ⟨m.image.host.pageSize.sixteen_dvd.trans (Nat.dvd_of_mod_eq_zero granted.aligned),
      granted_onFree granted rfl, fun a low high => ?_, rfl⟩
    change host.page a = _
    rw [granted.after]
    change (if m.image.host.inSpan lower guestStackSize (a / m.image.host.pageSize.bytes) then _
      else _) = _
    rw [if_pos (stack_inSpan m.image.host granted.aligned low high)]
    rfl

/-! ## Ways to end -/

/-- The machine once the stack at `lower` is registered. -/
def Machine.registerStack (mapped : Machine) (lower : Nat) : Machine :=
  { mapped with registry := (guestMemoryRuntimeMap mapped.registry lower guestStackSize 0).table }

/-- How the function can end: before anything is mapped, with the mapping refused, with a
stack that could not be filled, or with a stack. -/
inductive StackOutcome (m : Machine) (e : StackAnswers) (guestArgv environ : List Text)
    (image : Stack.GuestImage) : Nat × Machine → Prop
  | unmapped : StackOutcome m e guestArgv environ image (0, m)
  | refused {lower : Nat} {mapped : Machine} {table : Table}
      (asked : m.mapStack e.mmap = (.ok lower, mapped))
      (same : table.runtimeMappings = mapped.registry.runtimeMappings) :
      StackOutcome m e guestArgv environ image
        (0, { mapped with registry := table }.munmap lower guestStackSize)
  | unfilled {lower : Nat} {mapped : Machine} (asked : m.mapStack e.mmap = (.ok lower, mapped))
      (done : (guestMemoryRuntimeMap mapped.registry lower guestStackSize 0).code = 0) :
      StackOutcome m e guestArgv environ image (0, (mapped.registerStack lower).dropStack lower)
  | made {lower sp : Nat} {mapped : Machine} {memory : Memory}
      (asked : m.mapStack e.mmap = (.ok lower, mapped))
      (done : (guestMemoryRuntimeMap mapped.registry lower guestStackSize 0).code = 0)
      (built : Stack.createGuestStack (some lower) true guestArgv environ image e.host
        mapped.memory = some (sp, memory)) :
      StackOutcome m e guestArgv environ image (sp, (mapped.registerStack lower).withMemory memory)

theorem createGuestStack_outcome (m : Machine) (e : StackAnswers) (guestArgv environ : List Text)
    (image : Stack.GuestImage) :
    StackOutcome m e guestArgv environ image (m.createGuestStack e guestArgv environ image) := by
  unfold Machine.createGuestStack
  split
  · exact .unmapped
  split
  · rename_i asked
    rw [mapStack_error asked]
    exact .unmapped
  rename_i lower mapped asked
  split
  · exact .refused asked rfl
  dsimp only
  split
  · rename_i failed
    exact .refused asked (map_failed failed)
  rename_i done
  have done := not_not.mp done
  split
  · split
    · exact .unfilled asked done
    · rename_i built
      exact .made asked done built
  · exact .unfilled asked done

/-- As far as memory goes, a stack that is made is the one of `createGuestStack` with these
bytes in it. -/
theorem createGuestStack_made {after : Machine} {e : StackAnswers}
    (call : m.createGuestStack e guestArgv environ image = (sp, after)) (more : sp ≠ 0) :
    ∃ content, createGuestStack e.mmap content m = some after := by
  have outcome := createGuestStack_outcome m e guestArgv environ image
  rw [call] at outcome
  cases outcome with
  | unmapped | refused | unfilled => exact absurd rfl more
  | @made lower _ mapped memory asked done built =>
    obtain ⟨-, low, high, -⟩ := Stack.createGuestStack_parts built
    obtain ⟨_, _, _, stacked⟩ := Stack.createGuestStack_stacked (mapStack_ok asked).aligned built
    have checks : ¬ (lower < guestMinAddress ∨ guestMaxAddress ≤ lower ∨
        guestMaxAddress - lower < guestStackSize ∨
        (guestMemoryRuntimeMap mapped.registry lower guestStackSize 0).code ≠ 0) := by
      simp only [guestMinAddress, guestMaxAddress, guestStackSize] at low high ⊢
      simp only [guestStackSize] at done
      omega
    have bytes : (fun p : Place (Option Nat) =>
          if p.region = none then memory p.index else mapped.image.host.bytes p) =
        (mapped.image.host.fill lower guestStackSize fun k => memory (lower + k)).bytes := by
      funext p
      simp only [Host.fill]
      by_cases own : p.region = none
      · by_cases inside : lower ≤ p.index ∧ p.index < lower + guestStackSize
        · rw [if_pos own, if_pos ⟨own, inside⟩, Nat.add_sub_cancel' inside.1]
        · rw [if_pos own, if_neg fun both => inside both.2, stacked.frame p.index (by omega)]
          change mapped.image.host.bytes ⟨none, p.index⟩ = _
          rw [← own]
      · rw [if_neg own, if_neg fun both => own both.1]
    refine ⟨fun k => memory (lower + k), ?_⟩
    unfold createGuestStack
    rw [← Machine.mapStack, asked]
    dsimp only
    rw [if_neg checks]
    simp only [Machine.withMemory, Machine.registerStack, bytes]
    rfl

/-! ## Success and failure -/

/-- The stack a guest starts on, at `lower`: its pages are the process's own and registered,
nothing outside it was written, and from `sp` on a guest reads what went in. `argv` and `envp`
are the strings, `random` is the address of the random bytes; of the pairs, that of type 31,
`AT_EXECFN`, has the first argument's pointer and that of type 25, `AT_RANDOM`, this address. -/
structure StackReady (m : Machine) (e : StackAnswers) (argv envp : List Text)
    (image : Stack.GuestImage) (sp : Nat) (after : Machine) (lower random : Nat)
    (auxv : List (UInt32 × UInt32)) : Prop where
  mapped : (m.mapStack e.mmap).1 = .ok lower
  pages : ∀ a, lower ≤ a → a < lower + guestStackSize →
    after.image.host.page a = some ⟨brkProtection, none, false⟩
  registered : ∀ a, lower ≤ a → a < lower + guestStackSize → after.registry.flagAt a = some 0
  written : ∀ p, after.image.host.bytes p ≠ (m.mapStack e.mmap).2.image.host.bytes p →
    p.region = none ∧ lower ≤ p.index ∧ p.index < lower + guestStackSize
  stacked : ∃ arguments environment, Stack.Stacked lower (lower + guestStackSize) sp argv envp
    image e.host (m.mapStack e.mmap).2.memory after.memory arguments environment random
  read : Stack.readEntry after.memory guestStackSize sp =
    some ⟨.ofNat argv.length, argv, envp, auxv⟩
  auxiliary : auxv = Stack.auxiliary image e.host random (after.memory.word (sp + 4)).toNat
  execfn : ∀ value, (31, value) ∈ auxv ↔ value = after.memory.word (sp + 4)
  atRandom : ∀ value, (25, value) ∈ auxv ↔ value.toNat = random

/-- No page and no entry of the registry is left of a stack that was not finished. -/
structure StackWithdrawn (m : Machine) (e : StackAnswers) (after : Machine) : Prop where
  pages : after.image.host.pages = m.image.host.pages
  registry : ∀ a, after.registry.flagAt a = m.registry.flagAt a
  gone : ∀ lower, (m.mapStack e.mmap).1 = .ok lower → ∀ a, lower ≤ a →
    a < lower + guestStackSize → after.image.host.page a = none ∧ after.registry.flagAt a = none

section
variable {m mapped after : Machine} {e : StackAnswers} {lower : Nat}

/-- Pages and entries as before are enough: the host gives free pages, and no entry of the
registry is for a free page. -/
theorem stackWithdrawn_of (backed : ∀ a, m.registry.flagAt a ≠ none →
      (m.image.host.page a).isSome = true)
    (pageSize : after.image.host.pageSize = m.image.host.pageSize)
    (pages : after.image.host.pages = m.image.host.pages)
    (registry : ∀ a, after.registry.flagAt a = m.registry.flagAt a) :
    StackWithdrawn m e after := by
  refine ⟨pages, registry, fun lower given a low high => ?_⟩
  have fresh := (mapStack_ok (Prod.ext given rfl)).fresh
  have free : m.image.host.page a = none :=
    fresh.free _ (stack_inSpan m.image.host fresh.aligned low high)
  refine ⟨?_, ?_⟩
  · rw [Host.page, pageSize, pages]
    exact free
  · rw [registry]
    by_contra entry
    have there := backed a entry
    rw [free] at there
    cases there

/-- A failure before the stack is registered leaves nothing. -/
theorem munmap_withdrawn (backed : ∀ a, m.registry.flagAt a ≠ none →
      (m.image.host.page a).isSome = true)
    (stack : StackMapped m lower mapped) {table : Table}
    (same : table.runtimeMappings = mapped.registry.runtimeMappings) :
    StackWithdrawn m e ({ mapped with registry := table }.munmap lower guestStackSize) := by
  rw [stack.registry] at same
  exact stackWithdrawn_of backed stack.fresh.pageSize stack.fresh.munmap_pages (flagAt_congr same)

/-- A failure after that undoes the registration as well. -/
theorem dropStack_withdrawn (valid : m.registry.Valid)
    (backed : ∀ a, m.registry.flagAt a ≠ none → (m.image.host.page a).isSome = true)
    (stack : StackMapped m lower mapped)
    (done : (guestMemoryRuntimeMap mapped.registry lower guestStackSize 0).code = 0) :
    StackWithdrawn m e ((mapped.registerStack lower).dropStack lower) := by
  have free (a : Nat) (low : lower ≤ a) (high : a < lower + guestStackSize) :
      mapped.registry.flagAt a = none := by
    rw [stack.registry]
    by_contra entry
    have there := backed a entry
    rw [Host.page, stack.fresh.free _ (stack_inSpan m.image.host stack.fresh.aligned low high)]
      at there
    cases there
  have back := (unmap_map (stack.registry ▸ valid) free done).trans
    (congrArg Table.runtimeMappings stack.registry)
  exact stackWithdrawn_of backed stack.fresh.pageSize stack.fresh.munmap_pages (flagAt_congr back)

/-- What is put on a mapped and registered stack can be read from it. -/
theorem withMemory_ready {memory : Memory} (valid : m.registry.Valid)
    (arguments : ∀ x ∈ guestArgv, 0 ∉ x) (entries : ∀ x ∈ environ, 0 ∉ x)
    (asked : m.mapStack e.mmap = (.ok lower, mapped))
    (done : (guestMemoryRuntimeMap mapped.registry lower guestStackSize 0).code = 0)
    (built : Stack.createGuestStack (some lower) true guestArgv environ image e.host
      mapped.memory = some (sp, memory)) :
    sp ≠ 0 ∧ ∃ random auxv, StackReady m e guestArgv
      (environ.filter Stack.guestEnvironmentEntry) image sp
      ((mapped.registerStack lower).withMemory memory) lower random auxv := by
  have stack := mapStack_ok asked
  obtain ⟨given, low, high, -⟩ := Stack.createGuestStack_parts built
  obtain ⟨addresses, named, random, stacked⟩ := Stack.createGuestStack_stacked stack.aligned built
  simp only [guestMinAddress, guestMaxAddress] at low high
  have lowest := stacked.low
  have below := stacked.below
  refine ⟨by omega, random, _, ⟨by rw [asked], stack.page, fun a above below => ?_,
    fun p changed => ?_, ⟨addresses, named, by rw [asked]; exact stacked⟩, ?_, rfl,
    fun value => ?_, fun value => ?_⟩⟩
  · exact (map_flagAt (stack.registry ▸ valid) done a).trans (if_pos ⟨above, below⟩)
  · rw [asked] at changed
    by_contra outside
    apply changed
    change (if p.region = none then memory p.index else mapped.image.host.bytes p) = _
    split
    · rename_i own
      have beyond : ¬ (lower ≤ p.index ∧ p.index < lower + guestStackSize) :=
        fun inside => outside ⟨own, inside⟩
      rw [stacked.frame p.index (by omega)]
      change mapped.image.host.bytes ⟨none, p.index⟩ = _
      rw [← own]
    · rfl
  · refine stacked.read (by omega) (Nat.le_refl _) given arguments fun x member => ?_
    exact entries x (List.mem_filter.mp member).1
  · rw [Stack.auxiliary_execfn, UInt32.ofNat_toNat]
  · rw [Stack.auxiliary_random, ← UInt32.toNat_inj, UInt32.toNat_ofNat',
      Nat.mod_eq_of_lt (by omega)]

end

/-- The first stack decodes to what it was made from, and a stack that could not be made is
gone again. -/
theorem initial_stack_decodes {m after : Machine} {e : StackAnswers}
    {guestArgv environ : List Text} {image : Stack.GuestImage} {sp : Nat}
    (valid : m.registry.Valid)
    (backed : ∀ a, m.registry.flagAt a ≠ none → (m.image.host.page a).isSome = true)
    (arguments : ∀ x ∈ guestArgv, 0 ∉ x) (entries : ∀ x ∈ environ, 0 ∉ x)
    (call : m.createGuestStack e guestArgv environ image = (sp, after)) :
    (sp ≠ 0 → ∃ lower random auxv, StackReady m e guestArgv
      (environ.filter Stack.guestEnvironmentEntry) image sp after lower random auxv) ∧
    (sp = 0 → StackWithdrawn m e after) := by
  have outcome := createGuestStack_outcome m e guestArgv environ image
  rw [call] at outcome
  cases outcome with
  | unmapped =>
    exact ⟨fun more => absurd rfl more, fun _ => stackWithdrawn_of backed rfl rfl fun _ => rfl⟩
  | refused asked same =>
    exact ⟨fun more => absurd rfl more, fun _ => munmap_withdrawn backed (mapStack_ok asked) same⟩
  | unfilled asked done =>
    exact ⟨fun more => absurd rfl more,
      fun _ => dropStack_withdrawn valid backed (mapStack_ok asked) done⟩
  | made asked done built =>
    obtain ⟨more, random, ready⟩ := withMemory_ready valid arguments entries asked done built
    exact ⟨fun _ => ⟨_, random, ready⟩, fun zero => absurd zero more⟩

def shellArguments : List Text := [bytes "/bin/sh", bytes "-l"]
def shellEnvironment : List Text := [bytes "HOME=/", bytes "LINUXEMU_ROOT=/r"]
def shellImage : Stack.GuestImage := ⟨0x10054, 0, 0x10034, 32, 2⟩

def shellAnswers (random : Option (Vector UInt8 16)) : StackAnswers :=
  ⟨.ok 0x40000000, true, ⟨4096, 0, 0, 0, 0, random⟩⟩

/-- A shell is started with one variable and one setting of the emulator. -/
def shellStack (random : Option (Vector UInt8 16)) : Nat × Machine :=
  bareMachine.createGuestStack (shellAnswers random) shellArguments shellEnvironment shellImage

theorem initial_stack_decodes_shell :
    ((shellStack (some (.replicate 16 7))).1 ≠ 0 ∧ ∃ lower random auxv, StackReady bareMachine
      (shellAnswers (some (.replicate 16 7))) shellArguments
      (shellEnvironment.filter Stack.guestEnvironmentEntry) shellImage
      (shellStack (some (.replicate 16 7))).1 (shellStack (some (.replicate 16 7))).2
      lower random auxv ∧ (31, 0x400fffee) ∈ auxv ∧ (25, 0x400fffd0) ∈ auxv) ∧
    (shellStack none).1 = 0 ∧
      StackWithdrawn bareMachine (shellAnswers none) (shellStack none).2 := by
  have valid : bareMachine.registry.Valid :=
    ⟨Piece.canonical_nil, by decide, by simp [bareMachine, empty]⟩
  have backed (a : Nat) (entry : bareMachine.registry.flagAt a ≠ none) :
      (bareMachine.image.host.page a).isSome = true := absurd rfl entry
  have arguments : ∀ x ∈ shellArguments, 0 ∉ x := by decide +kernel
  have entries : ∀ x ∈ shellEnvironment, 0 ∉ x := by decide +kernel
  have run (random : Option (Vector UInt8 16)) : bareMachine.createGuestStack
      (shellAnswers random) shellArguments shellEnvironment shellImage =
        ((shellStack random).1, (shellStack random).2) := (Prod.eta _).symm
  have made : (shellStack (some (.replicate 16 7))).1 ≠ 0 := by decide +kernel
  have failed : (shellStack none).1 = 0 := by decide +kernel
  obtain ⟨lower, random, auxv, ready⟩ :=
    (initial_stack_decodes valid backed arguments entries (run _)).1 made
  have named : (Stack.readEntry (shellStack (some (.replicate 16 7))).2.memory guestStackSize
      (shellStack (some (.replicate 16 7))).1).map (·.auxv.drop 11) =
        some [(25, 0x400fffd0), (31, 0x400fffee)] := by decide +kernel
  rw [ready.read, Option.map_some, Option.some_inj] at named
  have pairs (x : UInt32 × UInt32) (member : x ∈ [(25, 0x400fffd0), (31, 0x400fffee)]) : x ∈ auxv :=
    List.mem_of_mem_drop (named ▸ member)
  exact ⟨⟨made, lower, random, auxv, ready, pairs _ (by simp), pairs _ (by simp)⟩, failed,
    (initial_stack_decodes valid backed arguments entries (run _)).2 failed⟩

end Linuxemu.Guest
