import Linuxemu.PathContainment
import Linuxemu.Sockets

/-! Addresses that the guest hands over. A converted address is read back as it was written, and
the name of a UNIX socket reaches the host as the guest spelt it, without the resolution that
every other path goes through. -/
namespace Linuxemu.Socket
open Lib
open Linuxemu.Path (Paths Text slash bytes)
variable {made : HostAddress → SocketCall} {place : Text → Text} {e : Env} {h : Platform}
  {p : Paths}

/-! ## Memory -/

namespace Memory
variable (m : Memory)

@[simp] theorem read_length (address length : Nat) : (m.read address length).length = length := by
  rw [read, List.length_map, List.length_range]

theorem read_add (address first second : Nat) :
    m.read address (first + second) = m.read address first ++ m.read (address + first) second := by
  rw [read, List.range_add, List.map_append, List.map_map, read, read]
  congr 2
  funext k
  exact congrArg m (Nat.add_assoc address first k).symm

theorem read_take {address length count : Nat} (within : count ≤ length) :
    (m.read address length).take count = m.read address count := by
  obtain ⟨rest, rfl⟩ := Nat.exists_eq_add_of_le within
  rw [read_add, List.take_left' (m.read_length address count)]

theorem read_write (address : Nat) (data : List UInt8) :
    (m.write address data).read address data.length = data := by
  apply List.ext_getElem (read_length _ _ _)
  intro k _ bound
  simp [read, write, bound]

theorem toBytes_half (address : Nat) : toBytes 2 (m.half address) = m.read address 2 := by
  have whole := toBytes_ofBytes (m.read address 2)
  rwa [read_length] at whole

end Memory

@[simp] theorem storage_family (length : Nat) (family : UInt8) (data : List UInt8) :
    storage length family data 1 = family := by
  simp [storage, Memory.write]

theorem storage_data (m : Memory) (length : Nat) (family : UInt8) (address count : Nat) :
    (storage length family (m.read address count)).read 2 count = m.read address count := by
  have data := Memory.read_write (Memory.write (fun _ => 0) 0 [UInt8.ofNat length, family]) 2
    (m.read address count)
  rwa [Memory.read_length] at data

/-! ## The conversion -/

/-- How much of a guest address counts. -/
def addressLength (family : Nat) (guestLength : UInt32) : Nat :=
  if family = linuxAfInet then 16 else if family = linuxAfInet6 then 28 else guestLength.toNat

/-- The addresses of the three families that are long enough, and not too long. -/
def WellFormed (h : Platform) (m : Memory) (guest guestLength : UInt32) : Prop :=
  guest ≠ 0 ∧
    (m.half guest.toNat = linuxAfInet ∧ 16 ≤ guestLength.toNat ∨
      m.half guest.toNat = linuxAfInet6 ∧ 28 ≤ guestLength.toNat ∨
      m.half guest.toNat = linuxAfUnix ∧ 2 ≤ guestLength.toNat ∧
        guestLength.toNat ≤ 2 + h.sunPath)

section
variable {h : Platform} {m : Memory} {guest guestLength : UInt32}

theorem Platform.linuxDomain_hostDomain {family : Nat} {mapped : UInt8}
    (known : h.hostDomain family = some mapped) : h.linuxDomain mapped = some family := by
  have := h.unixInet
  have := h.unixInet6
  have := h.inetInet6
  unfold hostDomain at known
  unfold linuxDomain
  grind

/-- What an accepted address is turned into. -/
theorem guestAddress_wellFormed (formed : WellFormed h m guest guestLength) :
    ∃ mapped, h.hostDomain (m.half guest.toNat) = some mapped ∧
      guestAddress h m guest guestLength =
        let length := addressLength (m.half guest.toNat) guestLength
        .ok ⟨storage length mapped (m.read (guest.toNat + 2) (length - 2)), length⟩ := by
  obtain ⟨there, ⟨family, long⟩ | ⟨family, long⟩ | ⟨family, long, short⟩⟩ := formed
  · refine ⟨h.afInet, by rw [family]; rfl, ?_⟩
    rw [guestAddress, if_neg (by simp only [there, false_or]; omega), family]
    simp [Platform.hostDomain, linuxAfUnix, linuxAfInet, addressLength,
      Nat.not_lt.mpr long]
  · refine ⟨h.afInet6, by rw [family]; rfl, ?_⟩
    rw [guestAddress, if_neg (by simp only [there, false_or]; omega), family]
    simp [Platform.hostDomain, linuxAfUnix, linuxAfInet, linuxAfInet6, addressLength,
      Nat.not_lt.mpr long]
  · refine ⟨h.afUnix, by rw [family]; rfl, ?_⟩
    have fits := h.fits
    -- The length byte holds the whole length, as the struct is shorter than 256 bytes.
    have byte : (2 + (guestLength.toNat - 2)) % 256 = guestLength.toNat := by
      unfold storageSize at fits
      omega
    have room : ¬h.sunPath < guestLength.toNat - 2 := by omega
    rw [guestAddress, if_neg (by simp only [there, false_or]; omega), family]
    simp [Platform.hostDomain, linuxAfUnix, linuxAfInet, linuxAfInet6, addressLength, byte, room]

theorem guestAddress_ok_iff :
    (∃ host, guestAddress h m guest guestLength = .ok host) ↔ WellFormed h m guest guestLength := by
  constructor
  · rintro ⟨host, accepted⟩
    unfold guestAddress Platform.hostDomain at accepted
    unfold WellFormed
    grind [linuxAfUnix, linuxAfInet, linuxAfInet6]
  · intro formed
    obtain ⟨mapped, -, accepted⟩ := guestAddress_wellFormed formed
    exact ⟨_, accepted⟩

theorem WellFormed.length (formed : WellFormed h m guest guestLength) :
    2 ≤ addressLength (m.half guest.toNat) guestLength ∧
      addressLength (m.half guest.toNat) guestLength ≤ storageSize := by
  have fits := h.fits
  obtain ⟨-, ⟨family, long⟩ | ⟨family, long⟩ | ⟨family, long, short⟩⟩ := formed
  · rw [family, show addressLength linuxAfInet guestLength = 16 from rfl]
    decide
  · rw [family, show addressLength linuxAfInet6 guestLength = 28 from rfl]
    decide
  · rw [family, show addressLength linuxAfUnix guestLength = guestLength.toNat from rfl]
    omega

/-- What is stored of a converted address. -/
theorem storeAddress_converted {host : HostAddress}
    (accepted : guestAddress h m guest guestLength = .ok host) {output : UInt32}
    (there : output ≠ 0) (capacity : Nat) :
    storeAddress h output (some capacity) host =
      let length := addressLength (m.half guest.toNat) guestLength
      .ok (some ⟨m.read guest.toNat (min capacity length), length⟩) := by
  have formed := guestAddress_ok_iff.mp ⟨host, accepted⟩
  obtain ⟨mapped, known, converted⟩ := guestAddress_wellFormed formed
  obtain ⟨long, short⟩ := formed.length
  obtain rfl := Except.ok.inj (accepted.symm.trans converted)
  have required : (if m.half guest.toNat = linuxAfInet then 16
      else if m.half guest.toNat = linuxAfInet6 then 28
      else addressLength (m.half guest.toNat) guestLength) =
      addressLength (m.half guest.toNat) guestLength := by
    unfold addressLength
    split
    · rfl
    · split <;> rfl
  generalize addressLength (m.half guest.toNat) guestLength = length at *
  obtain ⟨rest, rfl⟩ := Nat.exists_eq_add_of_le long
  simp only [storeAddress, storage_family, Platform.linuxDomain_hostDomain known, required,
    if_neg (Nat.not_lt.mpr short), Nat.add_sub_cancel_left, storage_data, Memory.toBytes_half,
    ← Memory.read_add, Memory.read_take m (Nat.min_le_right capacity (2 + rest))]
  by_cases empty : capacity = 0
  · simp [empty, Memory.read]
  · rw [if_pos ⟨there, empty⟩]

end

/-- An address that the guest hands over comes back as it was, as far as there is room for it,
and nothing else is written but its length. -/
theorem address_round_trip (h : Platform) (m : Memory) (guest guestLength : UInt32) :
    ((∃ host, guestAddress h m guest guestLength = .ok host) ↔
      WellFormed h m guest guestLength) ∧
    ∀ host, guestAddress h m guest guestLength = .ok host →
      ∀ (output outputLength : UInt32) (m' : Memory), output ≠ 0 → outputLength ≠ 0 →
        let length := addressLength (m.half guest.toNat) guestLength
        storeGuestAddress h m' output outputLength host =
          .ok ((m'.write output.toNat
            (m.read guest.toNat (min (m'.word outputLength.toNat) length))).write
              outputLength.toNat (toBytes 4 length)) := by
  refine ⟨guestAddress_ok_iff, ?_⟩
  intro host accepted output outputLength m' there word
  simp only [storeGuestAddress, if_neg word, storeAddress_converted accepted there]

def samplePlatform : Platform where
  afUnix := 1
  afInet := 2
  afInet6 := 24
  sunPath := 104
  waitForOne := false
  enosys := 89
  unixInet := by decide
  unixInet6 := by decide
  inetInet6 := by decide
  fits := by decide

/-- A UNIX address at 16. -/
def sampleMemory : Memory := Memory.write (fun _ => 0) 16 ([1, 0] ++ bytes "/tmp/s")

/-- There is room for four bytes of eight. -/
theorem address_round_trip_short :
    ∃ host, guestAddress samplePlatform sampleMemory 16 8 = .ok host ∧
      let room := Memory.write (fun _ => 0) 32 [4]
      storeGuestAddress samplePlatform room 64 32 host =
        .ok ((room.write 64 [1, 0, 47, 116]).write 32 [8, 0, 0, 0]) := by
  have trip := address_round_trip samplePlatform sampleMemory 16 8
  have contents : sampleMemory.half (16 : UInt32).toNat = 1 ∧
      sampleMemory.read (16 : UInt32).toNat 4 = [1, 0, 47, 116] := by
    decide +kernel
  obtain ⟨host, accepted⟩ :=
    trip.1.mpr ⟨by decide, .inr (.inr ⟨contents.1, by decide, by decide⟩)⟩
  have back := trip.2 host accepted 64 32 (Memory.write (fun _ => 0) 32 [4]) (by decide) (by decide)
  rw [contents.1] at back
  refine ⟨host, accepted, back.trans ?_⟩
  exact congrArg (fun written => Except.ok (Memory.write (Memory.write _ 64 written) 32 [8, 0, 0, 0]))
    contents.2

/-! ## Calls that name a socket -/

/-- The address that a call hands to the host. -/
def SocketCall.name : SocketCall → Option HostAddress
  | .bind _ address | .connect _ address | .sendto _ _ _ _ address => some address
  | .sendmsg _ _ _ _ name => name
  | _ => none

/-- Where a call has the address of a socket, and its length. -/
def addressArgument (m : Memory) (call : Syscall) (arguments : Arguments) :
    Option (UInt32 × UInt32) :=
  match call with
  | .bind | .connect => some (arguments 1, arguments 2)
  | .sendto => some (arguments 4, arguments 5)
  | .sendmsg =>
    if arguments 1 = 0 then none else some (header m arguments 0, header m arguments 1)
  | _ => none

/-- The call is refused for something else than its address. -/
def Barred (h : Platform) (m : Memory) (call : Syscall) (arguments : Arguments) : Prop :=
  match call with
  | .sendto => h.unknownFlags (arguments 3) = true
  | .sendmsg => header m arguments 4 ≠ 0 ∨ header m arguments 5 ≠ 0 ∨
      h.unknownFlags (arguments 2) = true
  | _ => False

section
variable {h : Platform} {m : Memory} {guest guestLength : UInt32} {call : Syscall}
  {arguments : Arguments}

theorem guestAddress_error {code : Int} (refused : guestAddress h m guest guestLength = .error code) :
    code < 0 := by
  unfold guestAddress at refused
  grind [efault, eafnosupport, Fd.einval]

theorem linuxSocketSyscall_requested {number : UInt32} {given : Arguments}
    (asked : requested e.platform m number given = .ok (call, arguments)) :
    e.linuxSocketSyscall m number given = e.dispatch m call arguments := by
  simp only [Env.linuxSocketSyscall, asked]

/-- A call with an address is refused for something else, or hands the address over. -/
theorem dispatch_named (e : Env) (passed : addressArgument m call arguments = some (guest, guestLength))
    (there : guest ≠ 0) :
    (Barred e.platform m call arguments ∧ (e.dispatch m call arguments).result < 0) ∨
    (¬Barred e.platform m call arguments ∧ ∃ made : HostAddress → SocketCall,
      (∀ address, (made address).name = some address) ∧
        e.dispatch m call arguments = e.handOver m guest guestLength made) := by
  cases call with
  | bind | connect =>
    obtain ⟨rfl, rfl⟩ := Prod.mk.inj (Option.some.inj passed)
    exact .inr ⟨id, _, fun _ => rfl, rfl⟩
  | sendto =>
    obtain ⟨rfl, rfl⟩ := Prod.mk.inj (Option.some.inj passed)
    by_cases unknown : e.platform.unknownFlags (arguments 3) = true
    · refine .inl ⟨unknown, ?_⟩
      simp only [Env.dispatch, Env.transfer, messageFlags, if_pos unknown]
      decide
    · refine .inr ⟨unknown, .sendto (arguments 0) (arguments 1) (arguments 2) (arguments 3),
        fun _ => rfl, ?_⟩
      simp only [Env.dispatch, Env.transfer, messageFlags, if_neg unknown, there, false_and,
        if_false]
  | sendmsg =>
    simp only [addressArgument, Option.ite_none_left_eq_some, Option.some.injEq,
      Prod.mk.injEq] at passed
    obtain ⟨given, rfl, rfl⟩ := passed
    by_cases control : header m arguments 4 ≠ 0 ∨ header m arguments 5 ≠ 0
    · refine .inl ⟨by rw [Barred, ← or_assoc]; exact .inl control, ?_⟩
      simp only [Env.dispatch, Env.messageCall, if_neg given, if_pos control]
      decide
    · by_cases unknown : e.platform.unknownFlags (arguments 2) = true
      · refine .inl ⟨.inr (.inr unknown), ?_⟩
        simp only [Env.dispatch, Env.messageCall, if_neg given, if_neg control, messageFlags,
          if_pos unknown]
        decide
      · refine .inr ⟨by rw [Barred, ← or_assoc]; exact not_or.mpr ⟨control, unknown⟩,
          fun address => .sendmsg (arguments 0) (header m arguments 2) (header m arguments 3)
            (arguments 2) (some address), fun _ => rfl, ?_⟩
        simp only [Env.dispatch, Env.messageCall, if_neg given, if_neg control, messageFlags,
          if_neg unknown, if_neg there, if_true]
  | _ => cases passed

end

/-! ## Names of UNIX sockets -/

/-- The path of a UNIX address, as the host reads it. -/
def HostAddress.path (address : HostAddress) : Text :=
  (address.bytes.read 2 (address.length - 2)).takeWhile (· != 0)

/-- The guest address is that of a UNIX socket with a name in the file system. -/
structure Named (m : Memory) (guest guestLength : UInt32) (path : Text) : Prop where
  there : guest ≠ 0
  family : m.half guest.toNat = linuxAfUnix
  spelt : (m.read (guest.toNat + 2) (guestLength.toNat - 2)).takeWhile (· != 0) = path
  nonempty : path ≠ []

/-- The resolution of a guest path, in any of the ways there are. -/
def Resolution (p : Paths) (path resolved : Text) : Prop :=
  ∃ size, (∃ allow, Path.guestPathResolve p (some path) allow size = .ok resolved) ∨
    Path.guestPathResolveNofollow p (some path) size = .ok resolved

/-- A host path is at the place that the guest's path is resolved to, below the root. `place` is
where a host path leads, for the host's links and working directory. -/
def Inside (p : Paths) (place : Text → Text) (path hostPath : Text) : Prop :=
  ∃ resolved, Resolution p path resolved ∧ (∃ rest, resolved = p.rootPath ++ slash :: rest) ∧
    place hostPath = place resolved

/-- The call fails, or every address that the host is given is inside the root. -/
def Confined (p : Paths) (place : Text → Text) (path : Text) (outcome : Outcome) : Prop :=
  outcome.result < 0 ∨
    ∀ call ∈ outcome.calls, ∀ address, call.name = some address → Inside p place path address.path

section
variable {m : Memory} {guest guestLength : UInt32} {path : Text}

/-- The host gets the name as the guest spelt it. -/
theorem guestAddress_path {address : HostAddress} (named : Named m guest guestLength path)
    (accepted : guestAddress h m guest guestLength = .ok address) : address.path = path := by
  have formed := guestAddress_ok_iff.mp ⟨address, accepted⟩
  obtain ⟨mapped, -, converted⟩ := guestAddress_wellFormed formed
  obtain rfl := Except.ok.inj (accepted.symm.trans converted)
  have length : addressLength (m.half guest.toNat) guestLength = guestLength.toNat := by
    rw [named.family]
    rfl
  rw [HostAddress.path, length, storage_data, named.spelt]

theorem Named.wellFormed_iff (named : Named m guest guestLength path) :
    WellFormed h m guest guestLength ↔ guestLength.toNat ≤ 2 + h.sunPath := by
  have long : 2 ≤ guestLength.toNat := by
    by_contra short
    apply named.nonempty
    rw [← named.spelt, show guestLength.toNat - 2 = 0 by omega]
    rfl
  have notInet : ¬linuxAfUnix = linuxAfInet := by decide
  have notInet6 : ¬linuxAfUnix = linuxAfInet6 := by decide
  rw [WellFormed, named.family]
  simp only [named.there, notInet, notInet6, long, ne_eq, not_false_eq_true, true_and, false_and,
    false_or]

theorem handOver_confined (carries : ∀ address, (made address).name = some address)
    (named : Named m guest guestLength path)
    (safe : e.platform.sunPath + 2 < guestLength.toNat ∨ Inside p place path path) :
    Confined p place path (e.handOver m guest guestLength made) := by
  unfold Env.handOver
  cases converted : guestAddress e.platform m guest guestLength with
  | error code => exact .inl (guestAddress_error converted)
  | ok address =>
    have fits := named.wellFormed_iff.mp (guestAddress_ok_iff.mp ⟨address, converted⟩)
    refine .inr ?_
    intro call member host name
    obtain rfl := List.mem_singleton.mp member
    obtain rfl := Option.some.inj ((carries address).symm.trans name)
    rw [guestAddress_path named converted]
    obtain long | inside := safe
    · omega
    · exact inside

/-- A host that does all it is asked to. -/
def Env.willing (e : Env) : Env :=
  { e with reply := fun _ => ⟨.ok 0, ⟨fun _ => 0, 0⟩, 0, id⟩ }

theorem handOver_willing (carries : ∀ address, (made address).name = some address)
    (named : Named m guest guestLength path)
    (confined : Confined p place path (e.willing.handOver m guest guestLength made)) :
    e.platform.sunPath + 2 < guestLength.toNat ∨ Inside p place path path := by
  by_cases long : e.platform.sunPath + 2 < guestLength.toNat
  · exact .inl long
  · obtain ⟨address, converted⟩ :=
      guestAddress_ok_iff.mpr (named.wellFormed_iff (h := e.willing.platform).mpr
        (show _ ≤ 2 + e.platform.sunPath by omega))
    have handed : e.willing.handOver m guest guestLength made =
        ⟨0, m, [made address]⟩ := by
      simp only [Env.handOver, converted]
      rfl
    rw [handed] at confined
    obtain failed | inside := confined
    · exact absurd failed (Int.lt_irrefl 0)
    · have := inside _ List.mem_cons_self address (carries address)
      rw [guestAddress_path named converted] at this
      exact .inr this

end

/-- The name of a UNIX socket stays inside the root, whatever the host makes of the calls, just
where the call is refused or the host finds under the guest's own spelling what the guest
means. -/
theorem unix_name_confined_iff (e : Env) (p : Paths) (place : Text → Text) {m : Memory}
    {number : UInt32} {given arguments : Arguments} {call : Syscall} {guest guestLength : UInt32}
    {path : Text} (asked : requested e.platform m number given = .ok (call, arguments))
    (passed : addressArgument m call arguments = some (guest, guestLength))
    (named : Named m guest guestLength path) :
    (∀ reply, Confined p place path ({ e with reply := reply }.linuxSocketSyscall m number given)) ↔
      Barred e.platform m call arguments ∨ e.platform.sunPath + 2 < guestLength.toNat ∨
        Inside p place path path := by
  have dispatched (reply : SocketCall → Reply) :=
    linuxSocketSyscall_requested (e := { e with reply := reply }) asked
  constructor
  · intro confined
    obtain ⟨barred, -⟩ | ⟨-, made, carries, handed⟩ := dispatch_named e.willing passed named.there
    · exact .inl barred
    · have := confined e.willing.reply
      rw [dispatched] at this
      exact .inr (handOver_willing carries named (handed ▸ this))
  · intro safe reply
    rw [dispatched]
    obtain ⟨-, failed⟩ | ⟨allowed, made, carries, handed⟩ :=
      dispatch_named { e with reply := reply } passed named.there
    · exact .inl failed
    · rw [handed]
      exact handOver_confined carries named (safe.resolve_left allowed)

def sampleEnv : Env :=
  Env.willing ⟨samplePlatform, fun _ => ⟨.ok 0, ⟨fun _ => 0, 0⟩, 0, id⟩, fun _ _ m => ⟨0, m, []⟩⟩

/-- A `bind` with the address in `sampleMemory`. -/
def sampleArguments : Arguments := [3, 16, 8, 0, 0, 0].get

/-- Directories everywhere, and no links. -/
def samplePaths (rootPath : Text) : Paths where
  pathMax := 1024
  rootPath := rootPath
  guestCwd := [slash]
  host := { lstat := fun _ => .ok .directory, readlink := fun _ => .error .einval }

/-- Where an absolute path leads without links: slashes at its start count once. -/
def samplePlace (path : Text) : Text := slash :: path.dropWhile (· == slash)

theorem sampleMemory_named : Named sampleMemory 16 8 (bytes "/tmp/s") := by
  have contents : sampleMemory.half (16 : UInt32).toNat = linuxAfUnix ∧
      (sampleMemory.read ((16 : UInt32).toNat + 2) ((8 : UInt32).toNat - 2)).takeWhile (· != 0) =
        bytes "/tmp/s" ∧ bytes "/tmp/s" ≠ [] := by
    decide +kernel
  exact ⟨by decide, contents.1, contents.2.1, contents.2.2⟩

/-- With the host's own root for the guest's. -/
theorem unix_name_confined_host_root :
    Confined (samplePaths [slash]) samplePlace (bytes "/tmp/s")
      (sampleEnv.linuxSocketSyscall sampleMemory 282 sampleArguments) := by
  have resolved : Path.guestPathResolve (samplePaths [slash]) (some (bytes "/tmp/s")) true 64 =
      .ok ([slash] ++ slash :: bytes "tmp/s") ∧
      samplePlace (bytes "/tmp/s") = samplePlace ([slash] ++ slash :: bytes "tmp/s") := by
    decide +kernel
  refine (unix_name_confined_iff sampleEnv _ _ rfl rfl sampleMemory_named).mpr ?_ sampleEnv.reply
  exact .inr (.inr ⟨_, ⟨64, .inl ⟨true, resolved.1⟩⟩, ⟨_, rfl⟩, resolved.2⟩)

/-- The guest's `/tmp/s` is `/alpine/tmp/s`, and the host binds its own `/tmp/s`. -/
theorem unix_name_escapes :
    Named sampleMemory 16 8 (bytes "/tmp/s") ∧
    Path.guestPathResolve (samplePaths (bytes "/alpine")) (some (bytes "/tmp/s")) true 64 =
      .ok (bytes "/alpine/tmp/s") ∧
    (let outcome := sampleEnv.linuxSocketSyscall sampleMemory 282 sampleArguments
    outcome.result = 0 ∧
      outcome.calls.map (·.name.map HostAddress.path) = [some (bytes "/tmp/s")] ∧
      ¬Confined (samplePaths (bytes "/alpine")) samplePlace (bytes "/tmp/s") outcome) := by
  have computed :
      Path.guestPathResolve (samplePaths (bytes "/alpine")) (some (bytes "/tmp/s")) true 64 =
        .ok (bytes "/alpine/tmp/s") ∧
      (sampleEnv.linuxSocketSyscall sampleMemory 282 sampleArguments).result = 0 ∧
      (sampleEnv.linuxSocketSyscall sampleMemory 282 sampleArguments).calls.map
        (·.name.map HostAddress.path) = [some (bytes "/tmp/s")] ∧
      (samplePlace (bytes "/tmp/s")).take 2 = [47, 116] ∧ bytes "/alpine" = 47 :: 97 :: bytes "lpine" := by
    decide +kernel
  obtain ⟨resolved, result, calls, place, root⟩ := computed
  refine ⟨sampleMemory_named, resolved, result, calls, ?_⟩
  rintro (failed | inside)
  · rw [result] at failed
    exact absurd failed (Int.lt_irrefl 0)
  · obtain ⟨made, member, name⟩ := List.mem_map.mp (calls ▸ List.mem_cons_self)
    obtain ⟨address, carried, path⟩ := Option.map_eq_some_iff.mp name
    obtain ⟨resolved, -, ⟨rest, rfl⟩, same⟩ := inside made member address carried
    rw [path] at same
    -- The two differ in the second byte.
    rw [same, show (samplePaths (bytes "/alpine")).rootPath = bytes "/alpine" from rfl, root] at place
    exact absurd place (by simp [samplePlace, slash])

end Linuxemu.Socket
