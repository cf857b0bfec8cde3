import Linuxemu.PatchTable
import Linuxemu.SignalViews
import Linuxemu.Trap
import Mathlib.Data.List.Nodup

/-! Patched code against the program it was made from. The program runs with its own words in
memory, where the processor makes the system calls and reads the thread pointer itself; the
emulator runs with traps in their place and the trap handler. Taking the traps away turns every run
of the second into the run of the first. -/
namespace Linuxemu.Trap
open Lib Signal
open Guest (Machine armPatchOriginal armPatchOriginal_mem armLinuxSvc0 armTpidruroMask
  armTpidruroRead armUdfTrap patchable PatchRecord)
variable {p : Process} {r : PatchRecord} {q : Nat}

/-! ## Memory without the traps -/

def covers (q : Nat) (r : PatchRecord) : Bool := decide (r.address ≤ q ∧ q < r.address + 4)

/-- The bytes that a trap stands in. -/
def Hidden (patches : List PatchRecord) (q : Nat) : Prop := ∃ r ∈ patches, covers q r = true

/-- Memory with the recorded instructions back in their places. -/
def unpatched (patches : List PatchRecord) (m : Memory) : Memory := fun q =>
  match patches.find? (covers q) with
  | some r => byteOf r.original (q - r.address)
  | none => m q

theorem unpatched_masks (patches : List PatchRecord) :
    Masks (Hidden patches) (unpatched patches) where
  shown m q clear := by
    have nothing : patches.find? (covers q) = none :=
      List.find?_eq_none.mpr fun r member covered => clear ⟨r, member, covered⟩
    rw [unpatched, nothing]
  fixed m m' q dark := by
    obtain ⟨r, found⟩ := Option.isSome_iff_exists.mp (List.find?_isSome.mpr dark)
    rw [unpatched, unpatched, found]

/-- The table is in step with memory: each record stands for one trap that is there. -/
structure Placed (patches : List PatchRecord) (m : Memory) : Prop where
  nodup : (patches.map PatchRecord.address).Nodup
  aligned : ∀ r ∈ patches, r.address % 4 = 0
  code : ∀ r ∈ patches, patchable r.original = true
  trapped : ∀ r ∈ patches, m.word r.address = armUdfTrap

section
variable {patches : List PatchRecord} {m : Memory} {r : PatchRecord}

section
variable (placed : Placed patches m)
include placed

theorem Placed.find (member : r ∈ patches) (covered : covers q r = true) :
    patches.find? (covers q) = some r := by
  obtain ⟨r', found⟩ := Option.isSome_iff_exists.mp (List.find?_isSome.mpr ⟨r, member, covered⟩)
  have member' := List.mem_of_find?_eq_some found
  have covered' : covers q r' = true := List.find?_some found
  have there := of_decide_eq_true covered'
  have here := of_decide_eq_true covered
  have first := placed.aligned r member
  have second := placed.aligned r' member'
  have address : r'.address = r.address := by omega
  rw [found, List.inj_on_of_nodup_map placed.nodup member' member address]

/-- Under a trap there is the instruction it was put in for. -/
theorem Placed.word_recorded (member : r ∈ patches) :
    (unpatched patches m).word r.address = r.original := by
  have byte {k : Nat} (small : k < 4) :
      unpatched patches m (r.address + k) = byteOf r.original k := by
    have covered : covers (r.address + k) r = true := decide_eq_true (by omega)
    rw [unpatched, placed.find member covered]
    exact congrArg (byteOf r.original) (Nat.add_sub_cancel_left r.address k)
  have first : unpatched patches m r.address = byteOf r.original 0 := byte (k := 0) (by omega)
  rw [Memory.word, first, byte (by omega), byte (by omega), byte (by omega), wordOf_byteOf]

theorem Placed.word_other {a : Nat} (aligned : a % 4 = 0) (other : ∀ r ∈ patches, r.address ≠ a) :
    (unpatched patches m).word a = m.word a := by
  refine Memory.SameOn.word (fun q low high => ?_) (Nat.le_refl a) (Nat.le_refl (a + 4))
  refine (unpatched_masks patches).shown m q ?_
  rintro ⟨r, member, covered⟩
  have here := of_decide_eq_true covered
  have place := placed.aligned r member
  exact other r member (by omega)

/-- What leaves the bytes under the traps alone leaves the table in step. -/
theorem Placed.kept {m' : Memory} (same : ∀ q, Hidden patches q → m' q = m q) :
    Placed patches m' where
  __ := placed
  trapped r member := by
    rw [← placed.trapped r member]
    refine Memory.SameOn.word (fun q low high => ?_) (Nat.le_refl _) (Nat.le_refl _)
    exact same q ⟨r, member, decide_eq_true ⟨low, high⟩⟩

end

end

/-! ## The program on its own -/

def withoutPatches (machine : Machine) : Machine :=
  { machine with image := { machine.image with patches := [] } }

def Process.original (p : Process) : Process where
  state := p.state.under (unpatched p.patches)
  machine := withoutPatches p.machine
  guestTls := p.guestTls

theorem original_state (p : Process) : p.original.state = p.state.under (unpatched p.patches) := rfl

def CallAnswer.original (a : CallAnswer) : CallAnswer where
  answer := { a.answer with memory := unpatched a.machine.image.patches a.answer.memory }
  machine := withoutPatches a.machine
  taken := a.taken

def Handled.map (f : Process → Process) : Handled → Handled
  | .resumed p => .resumed (f p)
  | .fatal => .fatal
  | .ended => .ended

/-- The processor's own read of the thread pointer, which goes to the flags if it names `pc`. -/
def Process.moveTls (p : Process) (word : UInt32) : Process :=
  if Process.destination word = 15 then
    { p with state := { p.state with context := {
        p.state.context with
        gpr := Function.update p.gpr 15 (p.gpr 15 + 4)
        spsr := p.state.context.spsr &&& 0x0fffffff ||| p.guestTls &&& 0xf0000000 } } }
  else p.readTls word

/-- One instruction on a processor whose `svc` makes the call and whose thread pointer is the
guest's. -/
def Process.direct (p : Process) (isa : Isa) (code : Trampolines) (a : CallAnswer)
    (info : Siginfo) : Handled :=
  if p.fetchable then
    if p.word &&& armTpidruroMask = armTpidruroRead then .resumed (p.moveTls p.word)
    else if p.word = armLinuxSvc0 then p.systemCall code a
    else p.native isa code a info
  else trapHandler code a sigsegv { info with addr := p.gpr 15 } p

/-- What can happen to a guest thread: an instruction, a signal from the host, and what other
threads do to memory, to the dispositions and to the tables. -/
inductive Event where
  | instruction (a : CallAnswer) (info : Siginfo)
  | signal (size : Nat) (fields : Pending.Siginfo size → Siginfo) (queues : Pending.Thread size)
    (hostSignal : Nat) (information : Pending.Siginfo size)
  | elsewhere (memory : Memory) (actions : Nat → SigAction) (machine : Machine)

def Event.original : Event → Event
  | .instruction a info => .instruction a.original info
  | .elsewhere memory actions machine =>
    .elsewhere (unpatched machine.image.patches memory) actions (withoutPatches machine)
  | other => other

def Process.changed (p : Process) (memory : Memory) (actions : Nat → SigAction)
    (machine : Machine) : Process :=
  { p with state := { p.state with memory, actions }, machine }

/-- What an event comes to, where `step` does the instructions. -/
def happen (step : CallAnswer → Siginfo → Process → Handled) (code : Trampolines) :
    Event → Process → Handled
  | .instruction a info, p => step a info p
  | .signal _ fields queues hostSignal information, p =>
    .resumed (p.interrupted code fields queues hostSignal information)
  | .elsewhere memory actions machine, p => .resumed (p.changed memory actions machine)

def emulated (isa : Isa) (code : Trampolines) : Event → Process → Handled :=
  happen (fun a info p => p.step isa code a info) code

theorem emulated_instruction (isa : Isa) (code : Trampolines) (a : CallAnswer) (info : Siginfo) :
    emulated isa code (.instruction a info) p = p.step isa code a info := rfl

def directly (isa : Isa) (code : Trampolines) : Event → Process → Handled :=
  happen (fun a info p => p.direct isa code a info) code

def run (next : Event → Process → Handled) : List Event → Process → Handled
  | [], p => .resumed p
  | e :: rest, p =>
    match next e p with
    | .resumed q => run next rest q
    | other => other

/-! ## Where the program keeps out of the traps -/

/-- Neither a signal frame nor the word of a compare-and-exchange covers a trap, and no trap stands
at the emulator's own trampolines. -/
structure Clear (code : Trampolines) (p : Process) : Prop where
  aligned : p.pc % 4 = 0
  frames : FramesClear (Hidden p.patches) p.state
  returns : ReturnClear (Hidden p.patches) p.state
  exchange : p.gpr 15 = linuxKuserCmpxchg → ∀ q, (p.gpr 2).toNat ≤ q → q < (p.gpr 2).toNat + 4 →
    ¬Hidden p.patches q
  trampolines : ∀ r ∈ p.patches, r.address ≠ code.plain.toNat ∧ r.address ≠ code.realtime.toNat

/-- At an instruction besides: code to be patched is patched, no read of the thread pointer names
`pc`, the instruction does not get at the words under the traps, and a system call comes back with
tables in step and room for a frame. -/
structure Tame (isa : Isa) (code : Trampolines) (a : CallAnswer) (p : Process) : Prop
    extends Clear code p where
  found : p.fetchable = true → patchable p.original.word = true → ∃ r ∈ p.patches, r.address = p.pc
  register : ∀ r ∈ p.patches, r.original &&& armTpidruroMask = armTpidruroRead →
    Process.destination r.original ≠ 15
  avoids : p.fetchable = true → patchable p.original.word = false →
    (isa p.original.word p.registers).Avoids (Hidden p.patches) p.rights p.original.memory
  answered : Placed a.machine.image.patches a.answer.memory
  later : ∀ d, linuxSyscallDispatch p.state a.answer = some d →
    FramesClear (Hidden a.machine.image.patches) (d.setRegister 15 (p.gpr 15 + 4))

def TameEvent (isa : Isa) (code : Trampolines) : Event → Process → Prop
  | .instruction a _, p => Tame isa code a p
  | .signal .., p => FramesClear (Hidden p.patches) p.state
  | .elsewhere memory _ machine, _ => Placed machine.image.patches memory

def TameRun (isa : Isa) (code : Trampolines) : List Event → Process → Prop
  | [], _ => True
  | e :: rest, p => TameEvent isa code e p ∧
    ∀ q, emulated isa code e p = .resumed q → TameRun isa code rest q

/-! ## Both machines step alike -/

/-- The emulator's outcome, and the same one of the program on its own. -/
structure Agree (outcome direct : Handled) : Prop where
  same : direct = outcome.map Process.original
  placed : ∀ q, outcome = .resumed q → Placed q.patches q.memory

theorem agree_resumed {q : Process} (placed : Placed q.patches q.memory) :
    Agree (.resumed q) (.resumed q.original) :=
  ⟨rfl, fun q' same => by cases same; exact placed⟩

theorem agree_fatal : Agree .fatal .fatal := ⟨rfl, fun q same => by cases same⟩

theorem agree_ite {c : Prop} [Decidable c] {first first' second second' : Handled}
    (yes : c → Agree first first') (no : ¬c → Agree second second') :
    Agree (if c then first else second) (if c then first' else second') := by
  split
  · exact yes ‹c›
  · exact no ‹¬c›

theorem touches_exchanged (address : Nat) (oldValue newValue : UInt32) :
    Memory.Touches (Process.exchanged address oldValue newValue) address 4 where
  outside m q other := by
    unfold Process.exchanged
    split
    · exact m.storeWord_outside other
    · rfl
  inside m m' same := by
    have word : m'.word address = m.word address := same.word (Nat.le_refl _) (Nat.le_refl _)
    unfold Process.exchanged
    rw [word]
    split
    · exact (Memory.touches_storeWord (Nat.le_refl _) (Nat.le_refl _)).inside m m' same
    · exact same

theorem Clear.withMemory {code : Trampolines} (clear : Clear code p) (m : Memory) :
    Clear code (p.withMemory m) :=
  { clear with }

section
variable {isa : Isa} {code : Trampolines} {a : CallAnswer} {p : Process}
  (placed : Placed p.patches p.memory)
include placed

theorem deliver_agree (frames : FramesClear (Hidden p.patches) p.state) (n : Nat) (info : Siginfo) :
    Agree (p.deliver code n info) (p.original.deliver code n info) := by
  unfold Process.deliver
  refine agree_ite (fun _ => ?_) fun _ => agree_fatal
  rw [original_state, guestSignalDeliver_under (unpatched_masks p.patches) frames]
  cases pushed : guestSignalDeliver code p.state n (some info) with
  | refused | pending => exact agree_fatal
  | pushed after =>
    exact agree_resumed (q := { p with state := after })
      (placed.kept fun q dark => guestSignalDeliver_hidden frames pushed dark)

theorem signalReturn_agree (returns : ReturnClear (Hidden p.patches) p.state) (realtime : Bool) :
    Agree (p.signalReturn realtime) (p.original.signalReturn realtime) := by
  unfold Process.signalReturn
  rw [original_state, guestSignalReturn_under (unpatched_masks p.patches) returns]
  cases back : guestSignalReturn p.state realtime with
  | none => exact agree_fatal
  | some after =>
    refine agree_resumed (q := { p with state := after }) ?_
    have kept : after.memory = p.memory := (return_cases back).1
    exact placed.kept fun q _ => congrFun kept q

theorem compareExchange_agree
    (clear : ∀ q, (p.gpr 2).toNat ≤ q → q < (p.gpr 2).toNat + 4 → ¬Hidden p.patches q) :
    Agree (.resumed p.compareExchange) (.resumed p.original.compareExchange) := by
  have touches := touches_exchanged (p.gpr 2).toNat (p.gpr 0) (p.gpr 1)
  have word : p.original.memory.word (p.gpr 2).toNat = p.memory.word (p.gpr 2).toNat :=
    Memory.SameOn.word (fun q low high => (unpatched_masks p.patches).shown _ q (clear q low high))
      (Nat.le_refl _) (Nat.le_refl _)
  have memory := (unpatched_masks p.patches).commutes touches clear p.memory
  have original : p.original.compareExchange = p.compareExchange.original := by
    change ((p.original.withMemory (Process.exchanged (p.gpr 2).toNat (p.gpr 0) (p.gpr 1) _)).set 0
      (if p.original.memory.word (p.gpr 2).toNat = _ then _ else _)).set 15 _ = _
    rw [word, show p.original.memory = unpatched p.patches p.memory from rfl, ← memory]
    rfl
  rw [original]
  refine agree_resumed (placed.kept fun q dark => touches.outside p.memory q ?_)
  by_contra inside
  exact clear q (by omega) (by omega) dark

theorem systemCall_agree (tame : Tame isa code a p) :
    Agree (p.systemCall code a) (p.original.systemCall code a.original) := by
  unfold Process.systemCall
  refine agree_ite (fun _ => signalReturn_agree placed tame.returns false) fun plain => ?_
  refine agree_ite (fun _ => signalReturn_agree placed tame.returns true) fun realtime => ?_
  have under : trapSystemCall code p.original.state a.original.answer a.original.taken = _ :=
    trapSystemCall_under (unpatched_masks a.machine.image.patches) plain realtime a.answer a.taken
      tame.later (unpatched p.patches)
  rw [under]
  cases call : trapSystemCall code p.state a.answer a.taken with
  | none => exact ⟨rfl, fun q same => by cases same⟩
  | some after =>
    exact agree_resumed (q := ⟨after, a.machine, _⟩) (tame.answered.kept fun q dark =>
      trapSystemCall_hidden plain realtime tame.later call dark)

theorem unpatched_versionLoad (aligned : p.pc % 4 = 0) :
    p.original.memory.word p.pc = armKuserVersionLoad ↔
      p.memory.word p.pc = armKuserVersionLoad := by
  by_cases recorded : ∃ r ∈ p.patches, r.address = p.pc
  · obtain ⟨r, member, here⟩ := recorded
    have below : p.original.memory.word p.pc = r.original := here ▸ placed.word_recorded member
    have above : p.memory.word p.pc = armUdfTrap := here ▸ placed.trapped r member
    have code := placed.code r member
    rw [below, above]
    refine ⟨fun load => ?_, fun load => absurd load (by decide)⟩
    rw [load] at code
    exact absurd code (by decide)
  · rw [show p.original.memory.word p.pc = p.memory.word p.pc from
      placed.word_other aligned fun r member here => recorded ⟨r, member, here⟩]

/-- A fault, or an undefined instruction that is not a recorded trap. -/
theorem trapHandler_agree (clear : Clear code p) {sig : Nat}
    (unrecorded : sig = sigill → ∀ r ∈ p.patches, r.address ≠ p.pc) (a a' : CallAnswer)
    (info : Siginfo) :
    Agree (trapHandler code a sig info p) (trapHandler code a' sig info p.original) := by
  have version := unpatched_versionLoad placed clear.aligned
  have same : ∀ {q : Process}, q.patches = p.patches → q.memory = p.memory →
      Agree (.resumed q) (.resumed q.original) := fun patches memory =>
    agree_resumed (patches ▸ memory ▸ placed)
  unfold trapHandler
  simp only [show p.original.gpr = p.gpr from rfl, show p.original.pc = p.pc from rfl,
    show p.original.executable = p.executable from rfl, version,
    show armPatchOriginal p.original.patches p.pc = none from rfl]
  refine agree_ite (fun _ => signalReturn_agree placed clear.returns false) fun _ => ?_
  refine agree_ite (fun _ => signalReturn_agree placed clear.returns true) fun _ => ?_
  refine agree_ite (fun _ => ?_) fun _ => agree_ite (fun _ => agree_fatal) fun undefined => ?_
  · refine agree_ite (fun _ => same rfl rfl) fun _ => agree_ite (fun _ => same rfl rfl) fun _ => ?_
    refine agree_ite (fun here => compareExchange_agree placed (clear.exchange here)) fun _ => ?_
    exact agree_ite (fun _ => same rfl rfl) fun _ => deliver_agree placed clear.frames 11 info
  · have nothing : armPatchOriginal p.patches p.pc = none := by
      rw [armPatchOriginal, Option.map_eq_none_iff, List.find?_eq_none]
      intro r member here
      exact unrecorded (not_not.mp undefined) r member (of_decide_eq_true here)
    rw [nothing]
    exact deliver_agree placed clear.frames 4 info

/-- Words that are not patched run natively on both. -/
theorem native_agree (clear : Clear code p)
    (unrecorded : ∀ r ∈ p.patches, r.address ≠ p.pc)
    (avoids : (isa p.original.word p.registers).Avoids (Hidden p.patches) p.rights
      p.original.memory) (a a' : CallAnswer) (info : Siginfo) :
    Agree (p.native isa code a info) (p.original.native isa code a' info) := by
  have word : p.original.word = p.word := placed.word_other clear.aligned unrecorded
  rw [word] at avoids
  have masks := unpatched_masks p.patches
  obtain ⟨ran, hidden⟩ := masks.run p.rights (isa p.word p.registers) p.memory avoids
  have kept := placed.kept hidden
  unfold Process.native Process.execute
  rw [word,
    show (isa p.word p.original.registers).run p.original.rights p.original.memory = _ from ran]
  generalize (isa p.word p.registers).run p.rights p.memory = outcome at kept ⊢
  obtain ⟨ended, memory⟩ := outcome
  cases ended with
  | ok result =>
    cases result with
    | some registers =>
      exact agree_resumed (q := (p.withMemory memory).withRegisters registers) kept
    | none =>
      exact trapHandler_agree (p := p.withMemory memory) kept (clear.withMemory memory)
        (fun _ => unrecorded) a a' info
  | error address =>
    exact trapHandler_agree (p := p.withMemory memory) kept (clear.withMemory memory)
      (fun _ => unrecorded) a a' _

/-- What the handler does at a recorded trap. -/
theorem trapHandler_recorded (clear : Clear code p) (member : r ∈ p.patches)
    (here : r.address = p.pc) (info : Siginfo) :
    trapHandler code a sigill info p =
      if r.original &&& armTpidruroMask = armTpidruroRead then .resumed (p.readTls r.original)
      else p.systemCall code a := by
  have plain : ¬(sigill = sigill ∧ p.gpr 15 = code.plain) := fun at' =>
    (clear.trampolines r member).1 (here.trans (congrArg UInt32.toNat at'.2))
  have realtime : ¬(sigill = sigill ∧ p.gpr 15 = code.realtime) := fun at' =>
    (clear.trampolines r member).2 (here.trans (congrArg UInt32.toNat at'.2))
  have original : armPatchOriginal p.patches p.pc = some r.original :=
    here ▸ armPatchOriginal_mem placed.nodup member
  unfold trapHandler
  dsimp only
  rw [if_neg plain, if_neg realtime, if_neg (by decide), if_neg (not_not_intro rfl), original]
  dsimp only
  split
  · rfl
  · rename_i other
    have code := placed.code r member
    rw [patchable, decide_eq_false other, Bool.or_false, decide_eq_true_iff] at code
    rw [if_pos code]

theorem step_recorded (undefined : ∀ r, isa armUdfTrap r = .done none) (clear : Clear code p)
    (fetchable : p.fetchable = true) (member : r ∈ p.patches) (here : r.address = p.pc)
    (info : Siginfo) :
    p.step isa code a info =
      if r.original &&& armTpidruroMask = armTpidruroRead then .resumed (p.readTls r.original)
      else p.systemCall code a := by
  have above : p.word = armUdfTrap :=
    (congrArg p.memory.word here.symm).trans (placed.trapped r member)
  have native : p.native isa code a info = trapHandler code a sigill info p := by
    unfold Process.native Process.execute
    rw [above, undefined]
    rfl
  rw [Process.step, if_pos fetchable, native, trapHandler_recorded placed clear member here]

theorem step_agree (undefined : ∀ r, isa armUdfTrap r = .done none)
    (tame : Tame isa code a p) (info : Siginfo) :
    Agree (p.step isa code a info) (p.original.direct isa code a.original info) := by
  by_cases fetchable : p.fetchable = true
  case neg =>
    rw [Process.step, if_neg fetchable]
    exact (congrArg (Agree _) (if_neg fetchable)).mpr (trapHandler_agree placed tame.toClear
      (fun other => absurd other (by decide)) a a.original _)
  unfold Process.direct
  rw [if_pos (show p.original.fetchable = true from fetchable)]
  by_cases recorded : ∃ r ∈ p.patches, r.address = p.pc
  · obtain ⟨r, member, here⟩ := recorded
    have below : p.original.word = r.original :=
      (congrArg p.original.memory.word here.symm).trans (placed.word_recorded member)
    rw [step_recorded placed undefined tame.toClear fetchable member here, below]
    refine agree_ite (fun read => ?_) fun read => ?_
    · rw [Process.moveTls, if_neg (tame.register r member read)]
      exact agree_resumed (q := p.readTls r.original) placed
    · have code := placed.code r member
      rw [patchable, decide_eq_false read, Bool.or_false, decide_eq_true_iff] at code
      rw [if_pos code]
      exact systemCall_agree placed tame
  · have plain : patchable p.original.word = false := by
      by_contra code
      exact recorded (tame.found fetchable (Bool.not_eq_false _ ▸ code))
    have words := plain
    rw [patchable, Bool.or_eq_false_iff, decide_eq_false_iff_not, decide_eq_false_iff_not] at words
    rw [Process.step, if_pos fetchable, if_neg words.2, if_neg words.1]
    exact native_agree placed tame.toClear (fun r member here => recorded ⟨r, member, here⟩)
      (tame.avoids fetchable plain) a a.original info

theorem interrupted_agree (frames : FramesClear (Hidden p.patches) p.state) {size : Nat}
    (fields : Pending.Siginfo size → Siginfo) (queues : Pending.Thread size) (hostSignal : Nat)
    (information : Pending.Siginfo size) :
    Agree (.resumed (p.interrupted code fields queues hostSignal information))
      (.resumed (p.original.interrupted code fields queues hostSignal information)) := by
  have stays : Agree (.resumed p) (.resumed p.original) := agree_resumed placed
  unfold Process.interrupted hostSignalHandler
  simp only [original_state, guestSignalDeliver_under (unpatched_masks p.patches) frames,
    show p.original.machine.guestMemoryIsExecutable = p.machine.guestMemoryIsExecutable from rfl,
    show (p.state.under (unpatched p.patches)).context = p.state.context from rfl, true_and]
  split
  · exact stays
  split
  · cases delivered : guestSignalDeliver code p.state (guestSignalFromHost hostSignal)
      (some (fields information)) with
    | pushed after =>
      exact agree_resumed (q := { p with state := after })
        (placed.kept fun q dark => guestSignalDeliver_hidden frames delivered dark)
    | pending | refused => exact stays
  · exact stays

theorem event_agree (undefined : ∀ r, isa armUdfTrap r = .done none)
    (e : Event) (tame : TameEvent isa code e p) :
    Agree (emulated isa code e p) (directly isa code e.original p.original) := by
  cases e with
  | instruction a info => exact step_agree placed undefined tame info
  | signal size fields queues hostSignal information =>
    exact interrupted_agree placed tame fields queues hostSignal information
  | elsewhere memory actions machine =>
    exact agree_resumed (q := p.changed memory actions machine) tame

end

/-- Over every run in which the program keeps out of the traps, the emulator does what the program
does on its own, with the traps in place throughout. -/
theorem patched_run_agrees {isa : Isa} (undefined : ∀ r, isa armUdfTrap r = .done none)
    (code : Trampolines) (events : List Event) (p : Process) (placed : Placed p.patches p.memory)
    (tame : TameRun isa code events p) :
    Agree (run (emulated isa code) events p)
      (run (directly isa code) (events.map Event.original) p.original) := by
  induction events generalizing p with
  | nil => exact agree_resumed placed
  | cons e rest ih =>
    have one := event_agree placed undefined e tame.1
    rw [run, List.map_cons, run, one.same]
    cases outcome : emulated isa code e p with
    | resumed q => exact ih q (one.placed q outcome) (tame.2 q outcome)
    | fatal => exact agree_fatal
    | ended => exact ⟨rfl, fun q same => by cases same⟩

/-! ## A run of a loaded program -/

/-- `mrc p15, 0, r3, c13, c0, 3` reads the thread pointer. -/
def readsTls : UInt32 := 0xee1d3f70

/-- `strb r3, [r4]`, and no other instruction. -/
def storingIsa : Isa := fun word r =>
  if word = 0xe5c43000 then .store (r.gpr 4).toNat (r.gpr 3).toUInt8
    (.done (some { r with gpr := Function.update r.gpr 15 (r.gpr 15 + 4) }))
  else .done none

/-- Before a patched read of the thread pointer and a store to the stack. -/
def readingProcess : Process where
  state :=
    { readingState with
      context := { readContext with
        gpr i := if i = 4 then 0x40000100 else if i = 15 then 0x10048 else 0x20000 }
      memory := Memory.storeWords (fun _ => 0) 0x10048 [armUdfTrap, 0xe5c43000] }
  machine :=
    { Guest.smallProgram with
      image := { Guest.smallProgram.image with patches := [⟨0x10048, readsTls⟩] } }
  guestTls := 0x5001

def readProcess : Process := readingProcess.readTls readsTls

/-- After the store. -/
def Process.stored (p : Process) : Process :=
  (p.withMemory (Function.update p.memory (p.gpr 4).toNat (p.gpr 3).toUInt8)).withRegisters
    { p.registers with gpr := Function.update p.gpr 15 (p.gpr 15 + 4) }

def unusedAnswer : CallAnswer :=
  ⟨interruptedAnswer readingProcess.state, readingProcess.machine, none⟩

theorem readingProcess_placed : Placed readingProcess.patches readingProcess.memory := by
  refine ⟨by decide, by decide, by decide, fun r member => ?_⟩
  obtain rfl := List.mem_singleton.mp member
  decide +kernel

theorem readingProcess_shown (away : 0x1004c ≤ q) : ¬Hidden readingProcess.patches q := by
  rintro ⟨r, member, covered⟩
  obtain rfl := List.mem_singleton.mp member
  exact absurd (of_decide_eq_true covered).2 (Nat.not_lt.mpr away)

/-- Its frames are pushed well above the code. -/
theorem readingProcess_frames {s : State} (stack : s.context.gpr 13 = 0x20000)
    (actions : s.actions = fun _ => restartingAction) :
    FramesClear (Hidden readingProcess.patches) s := by
  have same : switchesStack s restartingAction = false := by
    rw [switchesStack, show restartingAction.has saOnstack = false from by decide]
    rfl
  have place : 0x1004c ≤ (framePointer s restartingAction).toNat := by
    rw [framePointer, same, stack, if_neg (by decide)]
    decide
  intro n q low high
  simp only [actions] at low
  exact readingProcess_shown (Nat.le_trans place low)

/-- Wherever it is, as long as its stack pointer and its handlers are as they were. -/
theorem readingProcess_clear (patches : p.patches = readingProcess.patches) (aligned : p.pc % 4 = 0)
    (stack : p.gpr 13 = 0x20000) (actions : p.state.actions = fun _ => restartingAction)
    (helper : p.gpr 15 ≠ linuxKuserCmpxchg) : Clear handlersCode p := by
  refine ⟨aligned, ?_, fun realtime q low high => ?_, fun same => absurd same helper, ?_⟩
  · rw [patches]
    exact readingProcess_frames stack actions
  · rw [show p.state.context.gpr 13 = 0x20000 from stack] at low
    rw [patches]
    exact readingProcess_shown (Nat.le_trans (by decide) low)
  · intro r member
    rw [patches] at member
    obtain rfl := List.mem_singleton.mp member
    decide

theorem readingProcess_tame : Tame storingIsa handlersCode unusedAnswer readingProcess where
  toClear := readingProcess_clear rfl (by decide) rfl rfl (by decide)
  found _ _ := ⟨⟨0x10048, readsTls⟩, List.mem_singleton_self _, by decide⟩
  register r member _ := by
    obtain rfl := List.mem_singleton.mp member
    decide
  avoids _ plain := by
    have word : readingProcess.original.word = readsTls :=
      readingProcess_placed.word_recorded (List.mem_singleton_self _)
    rw [word] at plain
    exact absurd plain (by decide)
  answered := readingProcess_placed
  later d call := by
    cases call
    exact readingProcess_frames rfl rfl

theorem readProcess_tame : Tame storingIsa handlersCode unusedAnswer readProcess where
  toClear := readingProcess_clear rfl (by decide) rfl rfl (by decide)
  found _ code := absurd code (by decide +kernel)
  register := readingProcess_tame.register
  avoids _ _ := by
    have word : readProcess.original.word = 0xe5c43000 := by decide +kernel
    rw [word]
    exact fun _ => ⟨readingProcess_shown (by decide), trivial⟩
  answered := readingProcess_placed
  later d call := by
    cases call
    exact readingProcess_frames rfl rfl

/-- An instruction that makes no call. -/
def quietInstruction : Event := .instruction unusedAnswer ⟨none, 0, 0, 0, 0⟩

/-- The thread pointer is read and stored, and signal 15 arrives. -/
def readingEvents : List Event :=
  [quietInstruction, quietInstruction,
    .signal 3 senderOnly (Pending.fresh fun _ => 0) 15 (fun _ => 7)]

theorem storingIsa_undefined (r : Registers) : storingIsa armUdfTrap r = .done none :=
  if_neg (by decide)

theorem readingProcess_step :
    emulated storingIsa handlersCode quietInstruction readingProcess = .resumed readProcess := by
  rw [quietInstruction, emulated_instruction, step_recorded readingProcess_placed
    storingIsa_undefined readingProcess_tame.toClear (by decide +kernel)
    (List.mem_singleton_self (⟨0x10048, readsTls⟩ : PatchRecord)) (by decide), if_pos (by decide),
    readProcess]

theorem stored_step (word : p.word = 0xe5c43000) (fetchable : p.fetchable = true)
    (writable : p.rights.writable (p.registers.gpr 4).toNat = true) (a : CallAnswer)
    (info : Siginfo) :
    p.step storingIsa handlersCode a info = .resumed p.stored := by
  have store : storingIsa p.word p.registers = _ := if_pos word
  rw [Process.step, if_pos fetchable, Process.native, Process.execute, store, Action.run,
    if_pos writable]
  rfl

theorem readProcess_step : emulated storingIsa handlersCode quietInstruction readProcess =
    .resumed readProcess.stored := by
  rw [quietInstruction, emulated_instruction]
  apply stored_step
  all_goals decide +kernel

theorem patched_read_agrees :
    ∃ q, run (emulated storingIsa handlersCode) readingEvents readingProcess = .resumed q ∧
      q.gpr 3 = 0x5001 ∧ q.memory 0x40000100 = 1 ∧ q.gpr 15 = 0x8000 ∧
      run (directly storingIsa handlersCode) (readingEvents.map Event.original)
        readingProcess.original = .resumed q.original := by
  have tame : TameRun storingIsa handlersCode readingEvents readingProcess := by
    refine ⟨readingProcess_tame, fun q same => ?_⟩
    cases readingProcess_step.symm.trans same
    refine ⟨readProcess_tame, fun q same => ?_⟩
    cases readProcess_step.symm.trans same
    exact ⟨readingProcess_frames rfl rfl, fun _ _ => trivial⟩
  have reached : run (emulated storingIsa handlersCode) readingEvents readingProcess =
      .resumed (readProcess.stored.interrupted handlersCode senderOnly
        (Pending.fresh fun _ => 0) 15 fun _ => 7) := by
    simp only [readingEvents, run, readingProcess_step, readProcess_step]
    rfl
  have agrees := patched_run_agrees (fun _ => rfl) handlersCode readingEvents readingProcess
    readingProcess_placed tame
  rw [reached] at agrees
  exact ⟨_, reached, by decide +kernel, by decide +kernel, by decide +kernel, agrees.same⟩

end Linuxemu.Trap
