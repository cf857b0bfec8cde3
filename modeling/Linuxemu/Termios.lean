import Mathlib.Data.List.FinRange
import Mathlib.Data.List.Induction
import Mathlib.Logic.Function.Basic
import Linuxemu.Errno

/-! Terminal settings (`linux_termios.c`): the guest's `struct termios` becomes the host's and is
read back from it. The numbers of the host's header and its calls on speeds are parameters. -/
namespace Linuxemu.Termios
variable {speed : UInt32}

/-! ## The translation -/

structure LinuxTermios where
  input : UInt32
  output : UInt32
  control : UInt32
  localFlags : UInt32
  line : UInt8
  characters : Fin 19 → UInt8

/-- `struct termios` of the host; the speeds are where its calls keep them. -/
structure HostTermios (nccs : Nat) where
  cIflag : UInt32
  cOflag : UInt32
  cCflag : UInt32
  cLflag : UInt32
  cCc : Fin nccs → UInt8
  cIspeed : UInt32
  cOspeed : UInt32

/-- What `<termios.h>` of the host defines. -/
structure Terminal where
  nccs : Nat
  /-- `linux_cc`: where the host keeps the control character that the guest numbers so. -/
  linuxCc : Fin 17 → Fin nccs
  /-- `rates`: `B0`, `B50` and so on up to `B38400`. -/
  rates : Fin 16 → UInt32
  b57600 : UInt32
  b115200 : UInt32
  cfgetospeed : HostTermios nccs → UInt32
  cfsetispeed : HostTermios nccs → UInt32 → Except Errno (HostTermios nccs)
  cfsetospeed : HostTermios nccs → UInt32 → Except Errno (HostTermios nccs)

variable {t : Terminal}

def qnxDisabledCharacter : UInt8 := 0xff

/-- `VTIME` and `VMIN` are numbers, not characters. -/
def counts (i : Fin 17) : Bool := decide (i = 5) || decide (i = 6)

def speedToLinux (t : Terminal) (speed : UInt32) : UInt32 :=
  match (List.finRange 16).find? fun i => speed == t.rates i with
  | some i => i.val.toUInt32
  | none =>
    if speed = t.b57600 then 0x1001
    else if speed = t.b115200 then 0x1002
    else 15

def linuxToSpeed (t : Terminal) (control : UInt32) : Option UInt32 :=
  let encoded := control &&& 0x100f
  if small : encoded.toNat < 16 then some (t.rates ⟨encoded.toNat, small⟩)
  else if encoded = 0x1001 then some t.b57600
  else if encoded = 0x1002 then some t.b115200
  else none

def characterToLinux (i : Fin 17) (c : UInt8) : UInt8 :=
  if !counts i && c == qnxDisabledCharacter then 0 else c

def characterFromLinux (i : Fin 17) (c : UInt8) : UInt8 :=
  if !counts i && c == 0 then qnxDisabledCharacter else c

def termiosToLinux (t : Terminal) (host : HostTermios t.nccs) : LinuxTermios where
  input := host.cIflag &&& 0x3fff
  output := host.cOflag &&& 0xffff
  control := (host.cCflag &&& 0xff0) ||| speedToLinux t (t.cfgetospeed host)
  localFlags := host.cLflag &&& 0x8fff
  line := 0
  characters i :=
    if mapped : i.val < 17 then characterToLinux ⟨i, mapped⟩ (host.cCc (t.linuxCc ⟨i, mapped⟩))
    else 0

/-- The loop over `linux_cc`. -/
def storeCharacters (t : Terminal) (characters : Fin 19 → UInt8) (cCc : Fin t.nccs → UInt8) :
    Fin t.nccs → UInt8 :=
  (List.finRange 17).foldl (fun cc i => Function.update cc (t.linuxCc i)
    (characterFromLinux i (characters (i.castLE (by decide))))) cCc

def termiosFromLinux (t : Terminal) (guest : LinuxTermios) (host : HostTermios t.nccs) :
    Except Errno (HostTermios t.nccs) :=
  match linuxToSpeed t guest.control with
  | none => .error .einval
  | some speed => do
    let host := { host with
      cIflag := guest.input &&& 0x3fff
      cOflag := guest.output &&& 0xffff
      cCflag := guest.control &&& 0xff0
      cLflag := guest.localFlags &&& 0x8fff
      cCc := storeCharacters t guest.characters host.cCc }
    let host ← t.cfsetispeed host speed
    t.cfsetospeed host speed

/-! ## Reading back -/

/-- The speeds have different names for different numbers. -/
structure Terminal.DistinctSpeeds (t : Terminal) : Prop where
  rates : Function.Injective t.rates
  fast : ∀ i, t.rates i ≠ t.b57600
  fastest : ∀ i, t.rates i ≠ t.b115200
  apart : t.b57600 ≠ t.b115200

/-- The flags and characters that are translated. -/
def HostTermios.SameSettings {nccs : Nat} (x y : HostTermios nccs) : Prop :=
  y.cIflag &&& 0x3fff = x.cIflag &&& 0x3fff ∧ y.cOflag &&& 0xffff = x.cOflag &&& 0xffff ∧
    y.cCflag &&& 0xff0 = x.cCflag &&& 0xff0 ∧ y.cLflag &&& 0x8fff = x.cLflag &&& 0x8fff ∧
    y.cCc = x.cCc

/-- A speed that is set is the one read, and setting it touches no other setting. -/
structure Terminal.KeepsSpeeds (t : Terminal) : Prop where
  input : ∀ host speed, ∃ host', t.cfsetispeed host speed = .ok host' ∧ host.SameSettings host'
  output : ∀ host speed, ∃ host', t.cfsetospeed host speed = .ok host' ∧
    host.SameSettings host' ∧ t.cfgetospeed host' = speed

theorem foldl_update_get {ι κ β : Type} [DecidableEq κ] {index : ι → κ}
    (distinct : Function.Injective index) (value : ι → β) {i : ι} {l : List ι} (member : i ∈ l)
    (f : κ → β) :
    l.foldl (fun f i => Function.update f (index i) (value i)) f (index i) = value i := by
  -- a later entry for another index leaves this one, a later entry for it writes it again
  induction l using List.reverseRecOn with
  | nil => cases member
  | append_singleton l j ih =>
    rw [List.foldl_append, List.foldl_cons, List.foldl_nil]
    by_cases same : i = j
    · subst same
      rw [Function.update_self]
    · rw [Function.update_of_ne (fun equal => same (distinct equal))]
      exact ih ((List.mem_append.mp member).resolve_right (by simpa using same))

theorem storeCharacters_get (distinct : Function.Injective t.linuxCc) (characters : Fin 19 → UInt8)
    (cCc : Fin t.nccs → UInt8) (i : Fin 17) :
    storeCharacters t characters cCc (t.linuxCc i) =
      characterFromLinux i (characters (i.castLE (by decide))) :=
  foldl_update_get distinct (fun i => characterFromLinux i (characters (i.castLE (by decide))))
    (List.mem_finRange i) cCc

theorem character_reads_back (i : Fin 17) (c : UInt8) :
    characterToLinux i (characterFromLinux i c) =
      if !counts i && c == qnxDisabledCharacter then 0 else c := by
  unfold characterToLinux characterFromLinux
  cases counts i with
  | true => rfl
  | false =>
    by_cases zero : c = 0
    · subst zero
      rfl
    · simp [zero]

theorem speedToLinux_rate (speeds : t.DistinctSpeeds) (i : Fin 16) :
    speedToLinux t (t.rates i) = i.val.toUInt32 := by
  have found : (List.finRange 16).find? (fun j => t.rates i == t.rates j) = some i := by
    rw [show (fun j => t.rates i == t.rates j) = (fun j => i == j) from
      funext fun j => by simp [beq_eq_decide, speeds.rates.eq_iff]]
    revert i
    decide
  rw [speedToLinux, found]

theorem speedToLinux_fast (other : ∀ i, t.rates i ≠ speed) :
    speedToLinux t speed =
      if speed = t.b57600 then 0x1001 else if speed = t.b115200 then 0x1002 else 15 := by
  have missing : (List.finRange 16).find? (fun i => speed == t.rates i) = none := by
    rw [List.find?_eq_none]
    intro i _ same
    exact other i (beq_iff_eq.mp same).symm
  rw [speedToLinux, missing]

theorem speed_reads_back (speeds : t.DistinctSpeeds) {control : UInt32}
    (accepted : linuxToSpeed t control = some speed) :
    speedToLinux t speed = control &&& 0x100f := by
  unfold linuxToSpeed at accepted
  dsimp only at accepted
  split at accepted
  · cases accepted
    rw [speedToLinux_rate speeds]
    exact UInt32.ofNat_toNat
  · split at accepted
    · rename_i code
      cases accepted
      rw [speedToLinux_fast speeds.fast, if_pos rfl, code]
    · split at accepted
      · rename_i code
        cases accepted
        rw [speedToLinux_fast speeds.fastest, if_neg speeds.apart.symm, if_pos rfl, code]
      · cases accepted

theorem and_mask_twice (x mask : UInt32) : x &&& mask &&& mask = x &&& mask := by
  rw [UInt32.and_assoc, UInt32.and_self]

/-- The flags and the speed are parts of one word. -/
theorem control_parts (control : UInt32) :
    control &&& 0xff0 ||| control &&& 0x100f = control &&& 0x1fff := by
  apply UInt32.eq_of_toBitVec_eq
  rw [UInt32.toBitVec_or, UInt32.toBitVec_and, UInt32.toBitVec_and, UInt32.toBitVec_and,
    ← BitVec.and_or_distrib_left]
  rfl

/-- The flags read back as they were written, in the bits that are translated, and the speed and
the control characters with them. A character that is the host's mark of a disabled one reads
back as disabled. -/
theorem termios_reads_back {t : Terminal} (indices : Function.Injective t.linuxCc)
    (speeds : t.DistinctSpeeds) (calls : t.KeepsSpeeds) {guest : LinuxTermios}
    (accepted : (linuxToSpeed t guest.control).isSome = true) (prior : HostTermios t.nccs) :
    ∃ host, termiosFromLinux t guest prior = .ok host ∧
      (termiosToLinux t host).input = guest.input &&& 0x3fff ∧
      (termiosToLinux t host).output = guest.output &&& 0xffff ∧
      (termiosToLinux t host).control = guest.control &&& 0x1fff ∧
      (termiosToLinux t host).localFlags = guest.localFlags &&& 0x8fff ∧
      ∀ i : Fin 17, (termiosToLinux t host).characters (i.castLE (by decide)) =
        if i ≠ 5 ∧ i ≠ 6 ∧ guest.characters (i.castLE (by decide)) = 0xff then 0
        else guest.characters (i.castLE (by decide)) := by
  obtain ⟨speed, found⟩ := Option.isSome_iff_exists.mp accepted
  let written : HostTermios t.nccs := { prior with
    cIflag := guest.input &&& 0x3fff
    cOflag := guest.output &&& 0xffff
    cCflag := guest.control &&& 0xff0
    cLflag := guest.localFlags &&& 0x8fff
    cCc := storeCharacters t guest.characters prior.cCc }
  obtain ⟨middle, set, iflag, oflag, cflag, lflag, cc⟩ := calls.input written speed
  obtain ⟨host, set', ⟨iflag', oflag', cflag', lflag', cc'⟩, got⟩ := calls.output middle speed
  refine ⟨host, ?_, ?_, ?_, ?_, ?_, ?_⟩
  · rw [termiosFromLinux, found]
    show (t.cfsetispeed written speed).bind (t.cfsetospeed · speed) = _
    rw [set]
    exact set'
  · rw [termiosToLinux, iflag', iflag]
    exact and_mask_twice ..
  · rw [termiosToLinux, oflag', oflag]
    exact and_mask_twice ..
  · rw [termiosToLinux, cflag', cflag, got, speed_reads_back speeds found]
    show guest.control &&& 0xff0 &&& 0xff0 ||| guest.control &&& 0x100f = _
    rw [and_mask_twice, control_parts]
  · rw [termiosToLinux, lflag', lflag]
    exact and_mask_twice ..
  · intro i
    have back := character_reads_back i (guest.characters (i.castLE (by decide)))
    rw [← storeCharacters_get indices guest.characters prior.cCc i] at back
    have here : host.cCc = storeCharacters t guest.characters prior.cCc := cc'.trans cc
    rw [termiosToLinux, here]
    simpa [counts, qnxDisabledCharacter, and_assoc] using back

/-- A host whose numbers are the guest's. -/
def plainTerminal : Terminal where
  nccs := 17
  linuxCc := id
  rates i := i.val.toUInt32
  b57600 := 57600
  b115200 := 115200
  cfgetospeed host := host.cOspeed
  cfsetispeed host speed := .ok { host with cIspeed := speed }
  cfsetospeed host speed := .ok { host with cOspeed := speed }

theorem plainTerminal_speeds : plainTerminal.DistinctSpeeds where
  rates := by
    show ∀ i j : Fin 16, i.val.toUInt32 = j.val.toUInt32 → i = j
    decide
  fast := by
    show ∀ i : Fin 16, i.val.toUInt32 ≠ 57600
    decide
  fastest := by
    show ∀ i : Fin 16, i.val.toUInt32 ≠ 115200
    decide
  apart := by
    show (57600 : UInt32) ≠ 115200
    decide

theorem plainTerminal_keeps : plainTerminal.KeepsSpeeds where
  input _ _ := ⟨_, rfl, rfl, rfl, rfl, rfl, rfl⟩
  output _ _ := ⟨_, rfl, ⟨rfl, rfl, rfl, rfl, rfl⟩, rfl⟩

/-- Raw input at 115200 baud: the quit character is 0xff and the one for suspending is off. -/
def serialLine : LinuxTermios where
  input := 0x500
  output := 0x5
  control := 0x1cb2
  localFlags := 0x8a3b
  line := 0
  characters i := if i = 1 then 0xff else if i = 10 then 0 else i.val.toUInt8 + 1

def noSettings : HostTermios 17 := ⟨0, 0, 0, 0, fun _ => 0, 0, 0⟩

theorem termios_reads_back_serial :
    ∃ host, termiosFromLinux plainTerminal serialLine noSettings = .ok host ∧
      (termiosToLinux plainTerminal host).control = 0x1cb2 ∧
      (termiosToLinux plainTerminal host).characters 10 = 0 := by
  obtain ⟨host, written, -, -, control, -, characters⟩ :=
    termios_reads_back (t := plainTerminal) Function.injective_id plainTerminal_speeds
      plainTerminal_keeps (show (linuxToSpeed plainTerminal serialLine.control).isSome = true by
        decide +kernel) noSettings
  exact ⟨host, written, control, characters 10⟩

/-- The quit character does not read back: the host takes it for a disabled one. -/
theorem disabled_mark_reads_zero :
    Function.Injective plainTerminal.linuxCc ∧ plainTerminal.DistinctSpeeds ∧
    plainTerminal.KeepsSpeeds ∧
    (linuxToSpeed plainTerminal serialLine.control).isSome = true ∧
    ∃ host, termiosFromLinux plainTerminal serialLine noSettings = .ok host ∧
      serialLine.characters 1 = 0xff ∧ (termiosToLinux plainTerminal host).characters 1 = 0 :=
  ⟨Function.injective_id, plainTerminal_speeds, plainTerminal_keeps, by decide +kernel, _, rfl,
    by decide +kernel, by decide +kernel⟩

end Linuxemu.Termios
