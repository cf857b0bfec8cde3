import Linuxemu.SocketAddresses

/-! What the host has received for the guest. The address of the sender is converted after the
data is taken, and where that fails the call fails, with the data gone or the accepted
descriptor closed. -/
namespace Linuxemu.Socket
open Fd
open Lib
variable {guest guestLength : UInt32} {result : Int} {n : Nat}

/-! ## Addresses from the host -/

/-- The address is of a family that is known, and not too long. -/
structure Storable (h : Platform) (host : HostAddress) : Prop where
  known : h.linuxDomain (host.bytes 1) ≠ none
  short : host.bytes 1 = h.afUnix → host.length ≤ storageSize

/-- The check of `store_address` on the length is one on UNIX addresses only. -/
theorem storable_iff {h : Platform} {host : HostAddress} {family : Nat}
    (mapped : h.linuxDomain (host.bytes 1) = some family) :
    Storable h host ↔ ¬storageSize < if family = linuxAfInet then 16
      else if family = linuxAfInet6 then 28 else host.length := by
  unfold Platform.linuxDomain at mapped
  constructor
  · rintro ⟨-, short⟩
    grind [storageSize, linuxAfUnix, linuxAfInet, linuxAfInet6]
  · intro fits
    refine ⟨by grind [Platform.linuxDomain], ?_⟩
    intro unix
    rw [if_pos unix] at mapped
    obtain rfl := Option.some.inj mapped
    exact Nat.not_lt.mp fits

theorem storeAddress_some (h : Platform) (guest : UInt32) (capacity : Nat) (host : HostAddress) :
    (Storable h host ∧ ∃ stored, storeAddress h guest (some capacity) host = .ok (some stored)) ∨
    (¬Storable h host ∧ ∃ code < 0, storeAddress h guest (some capacity) host = .error code) := by
  cases mapped : h.linuxDomain (host.bytes 1) with
  | none =>
    refine .inr ⟨fun storable => storable.known mapped, eafnosupport, by decide, ?_⟩
    simp only [storeAddress, mapped]
  | some family =>
    by_cases storable : Storable h host
    · refine .inl ⟨storable, ?_⟩
      simp only [storeAddress, mapped, if_neg ((storable_iff mapped).mp storable)]
      exact ⟨_, rfl⟩
    · have long := not_not.mp (mt (storable_iff mapped).mpr storable)
      refine .inr ⟨storable, einval, by decide, ?_⟩
      simp only [storeAddress, mapped, if_pos long]

theorem storeGuestAddress_there (h : Platform) (m : Memory) (guestLength : UInt32)
    (host : HostAddress) (there : guest ≠ 0) :
    ((guestLength ≠ 0 ∧ Storable h host) ∧
      ∃ m', storeGuestAddress h m guest guestLength host = .ok m') ∨
    (¬(guestLength ≠ 0 ∧ Storable h host) ∧
      ∃ code < 0, storeGuestAddress h m guest guestLength host = .error code) := by
  by_cases null : guestLength = 0
  · refine .inr ⟨fun both => both.1 null, efault, by decide, ?_⟩
    simp only [storeGuestAddress, if_pos null, storeAddress, if_neg there]
  · obtain ⟨storable, stored, ok⟩ | ⟨lacking, code, negative, failed⟩ :=
      storeAddress_some h guest (m.word guestLength.toNat) host
    · refine .inl ⟨⟨null, storable⟩, ?_⟩
      simp only [storeGuestAddress, if_neg null, ok]
      exact ⟨_, rfl⟩
    · refine .inr ⟨fun both => lacking both.2, code, negative, ?_⟩
      simp only [storeGuestAddress, if_neg null, failed]

/-! ## Calls that receive -/

def SocketCall.receives : SocketCall → Bool
  | .recvfrom .. | .recvmsg .. | .accept .. => true
  | _ => false

def Syscall.receives : Syscall → Bool
  | .recvfrom | .recvmsg | .accept | .accept4 => true
  | _ => false

/-- Whether the guest wants the address of the other side, and if so whether it gives a length
word. -/
def addressWanted (m : Memory) (call : Syscall) (arguments : Arguments) : Option Bool :=
  match call with
  | .recvfrom => if arguments 4 = 0 then none else some (arguments 5 != 0)
  | .recvmsg => if header m arguments 0 = 0 then none else some true
  | .accept | .accept4 => if arguments 1 = 0 then none else some (arguments 2 != 0)
  | _ => none

/-- The guest wants no address, or one that it can be given. -/
def Answerable (h : Platform) (m : Memory) (call : Syscall) (arguments : Arguments)
    (host : HostAddress) : Prop :=
  ∀ word, addressWanted m call arguments = some word → word = true ∧ Storable h host

/-- The host sets the flags that `accept4` asks for. -/
def Configures (e : Env) (call : Syscall) (arguments : Arguments) (fd : Nat) : Prop :=
  let nonblock := arguments 3 &&& linuxONonblock != 0
  let cloexec := arguments 3 &&& linuxOCloexec != 0
  call = .accept4 → (nonblock || cloexec) = true →
    ∃ n, (e.reply (.configure fd nonblock cloexec)).result = .ok n

/-- Under the condition the guest gets what the host returned, and otherwise an error. -/
def Settles (result : Int) (n : Nat) (condition : Prop) : Prop :=
  condition ∧ result = n ∨ ¬condition ∧ result < 0

theorem Settles.congr {condition other : Prop} (settled : Settles result n condition)
    (same : condition ↔ other) :
    Settles result n other := by
  rwa [Settles, ← same]

section
variable {e : Env} {m : Memory} {arguments : Arguments} {made : SocketCall} {n : Nat}

theorem socketResult_ok {result : Except Errno Nat} (answered : result = .ok n) :
    socketResult result = n := by
  rw [answered]
  rfl

/-- A call that stores the address last delivers just where it can be stored. -/
theorem storeReply_settles (there : guest ≠ 0) :
    Settles (e.storeReply m made guest guestLength n).result n
      (guestLength ≠ 0 ∧ Storable e.platform (e.reply made).address) := by
  unfold Env.storeReply
  obtain ⟨storable, m', ok⟩ | ⟨lacking, code, negative, failed⟩ :=
    storeGuestAddress_there e.platform ((e.reply made).writes m) guestLength
      (e.reply made).address there
  · simp only [ok]
    exact .inl ⟨storable, rfl⟩
  · simp only [failed]
    exact .inr ⟨lacking, negative⟩

theorem storeReply_calls :
    (e.storeReply m made guest guestLength result).calls = [made] := by
  simp only [Env.storeReply]
  split <;> rfl

theorem recvfrom_settles (member : made ∈ (e.dispatch m .recvfrom arguments).calls)
    (answered : (e.reply made).result = .ok n) :
    Settles (e.dispatch m .recvfrom arguments).result n
      (Answerable e.platform m .recvfrom arguments (e.reply made).address) := by
  simp only [Env.dispatch, Env.transfer, Answerable, addressWanted] at *
  cases flags : messageFlags e.platform (arguments 3) with
  | none =>
    rw [flags] at member
    cases member
  | some known =>
    simp only [flags] at member ⊢
    generalize SocketCall.recvfrom _ _ _ _ _ = call at *
    cases reply : (e.reply call).result with
    | error errno =>
      rw [reply] at member
      obtain rfl := List.mem_singleton.mp member
      cases answered.symm.trans reply
    | ok k =>
      simp only [reply] at member ⊢
      by_cases absent : arguments 4 = 0
      · rw [if_pos absent] at member ⊢
        obtain rfl := List.mem_singleton.mp member
        refine .inl ⟨?_, socketResult_ok answered⟩
        simp only [if_pos absent, reduceCtorEq, false_implies, implies_true]
      · rw [if_neg absent] at member ⊢
        rw [storeReply_calls] at member
        obtain rfl := List.mem_singleton.mp member
        obtain rfl := Except.ok.inj (answered.symm.trans reply)
        refine (storeReply_settles absent).congr ?_
        simp only [if_neg absent, Option.some.injEq, forall_eq', bne_iff_ne]

theorem recvmsg_settles (member : made ∈ (e.dispatch m .recvmsg arguments).calls)
    (answered : (e.reply made).result = .ok n) :
    Settles (e.dispatch m .recvmsg arguments).result n
      (Answerable e.platform m .recvmsg arguments (e.reply made).address) := by
  simp only [Env.dispatch, Env.messageCall, Answerable, addressWanted] at *
  by_cases null : arguments 1 = 0
  · rw [if_pos null] at member
    cases member
  rw [if_neg null] at member ⊢
  by_cases control : header m arguments 4 ≠ 0 ∨ header m arguments 5 ≠ 0
  · rw [if_pos control] at member
    cases member
  rw [if_neg control] at member ⊢
  cases flags : messageFlags e.platform (arguments 2) with
  | none =>
    rw [flags] at member
    cases member
  | some known =>
    simp only [flags, Bool.false_eq_true, if_false] at member ⊢
    generalize SocketCall.recvmsg _ _ _ _ _ = call at *
    cases reply : (e.reply call).result with
    | error errno =>
      rw [reply] at member
      obtain rfl := List.mem_singleton.mp member
      cases answered.symm.trans reply
    | ok k =>
      simp only [reply] at member ⊢
      by_cases absent : header m arguments 0 = 0
      · rw [if_pos absent] at member ⊢
        obtain rfl := List.mem_singleton.mp member
        obtain rfl := Except.ok.inj (answered.symm.trans reply)
        refine .inl ⟨?_, rfl⟩
        simp only [if_pos absent, reduceCtorEq, false_implies, implies_true]
      · rw [if_neg absent] at member ⊢
        obtain ⟨storable, stored, ok⟩ | ⟨lacking, code, negative, failed⟩ :=
          storeAddress_some e.platform (header m arguments 0) (header m arguments 1).toNat
            (e.reply call).address
        · simp only [ok] at member ⊢
          obtain rfl := List.mem_singleton.mp member
          obtain rfl := Except.ok.inj (answered.symm.trans reply)
          refine .inl ⟨?_, rfl⟩
          simp only [if_neg absent, Option.some.injEq, forall_eq', storable, and_self]
        · simp only [failed] at member ⊢
          obtain rfl := List.mem_singleton.mp member
          refine .inr ⟨?_, negative⟩
          simp only [if_neg absent, Option.some.injEq, forall_eq', lacking, and_false,
            not_false_eq_true]

theorem configureSocket_receives (e : Env) (fd : Nat) (nonblock cloexec : Bool) :
    ∀ call ∈ (e.configureSocket fd nonblock cloexec).2, call.receives = false := by
  intro call member
  unfold Env.configureSocket at member
  split at member
  · dsimp only at member
    split at member <;>
    · obtain rfl := List.mem_singleton.mp member
      rfl
  · cases member

theorem configureSocket_none_iff {fd : Nat} {nonblock cloexec : Bool} :
    (e.configureSocket fd nonblock cloexec).1 = none ↔ ((nonblock || cloexec) = true →
      ∃ n, (e.reply (.configure fd nonblock cloexec)).result = .ok n) := by
  unfold Env.configureSocket
  by_cases flagged : (nonblock || cloexec) = true
  · rw [if_pos flagged]
    cases reply : (e.reply (.configure fd nonblock cloexec)).result with
    | error errno => simp [flagged, reply]
    | ok k => simp [reply]
  · rw [if_neg flagged]
    simp [flagged]

theorem receives_first {call : SocketCall} {configured : List SocketCall} (fd : Nat)
    (quiet : ∀ c ∈ configured, c.receives = false) (receives : made.receives = true)
    (member : made ∈ call :: configured ++ [.close fd]) : made = call := by
  obtain (rfl | among) | closed :=
    (List.mem_append.mp member).imp List.mem_cons.mp List.mem_singleton.mp
  · rfl
  · rw [quiet made among] at receives
    cases receives
  · rw [closed] at receives
    cases receives

/-- `accept` and `accept4`. The first call is the host's `accept`, and no other one receives. -/
theorem acceptSocket_settles {withFlags : Bool}
    (member : made ∈ (e.acceptSocket m arguments withFlags).calls) (receives : made.receives = true)
    (answered : (e.reply made).result = .ok n) :
    Settles (e.acceptSocket m arguments withFlags).result n
      ((arguments 1 ≠ 0 → arguments 2 ≠ 0 ∧ Storable e.platform (e.reply made).address) ∧
      (e.configureSocket n (withFlags && arguments 3 &&& linuxONonblock != 0)
        (withFlags && arguments 3 &&& linuxOCloexec != 0)).1 = none) := by
  unfold Env.acceptSocket at member ⊢
  by_cases typed : withFlags ∧ socketType (1 ||| arguments 3) = none
  · rw [if_pos typed] at member
    cases member
  rw [if_neg typed] at member ⊢
  simp only at member ⊢
  generalize SocketCall.accept _ _ = call at *
  cases reply : (e.reply call).result with
  | error errno =>
    rw [reply] at member
    obtain rfl := List.mem_singleton.mp member
    cases answered.symm.trans reply
  | ok fd =>
    simp only [reply] at member ⊢
    generalize (withFlags && arguments 3 &&& linuxONonblock != 0) = nonblock at *
    generalize (withFlags && arguments 3 &&& linuxOCloexec != 0) = cloexec at *
    have quiet := configureSocket_receives e fd nonblock cloexec
    rcases configured : e.configureSocket fd nonblock cloexec with ⟨_ | errno, calls⟩
    · simp only [configured] at member quiet ⊢
      by_cases absent : arguments 1 = 0
      · rw [if_pos absent] at member ⊢
        obtain rfl := receives_first fd quiet receives (List.mem_append_left _ member)
        obtain rfl := Except.ok.inj (answered.symm.trans reply)
        exact .inl ⟨⟨fun there => absurd absent there, congrArg Prod.fst configured⟩, rfl⟩
      · rw [if_neg absent] at member ⊢
        obtain ⟨storable, m', ok⟩ | ⟨lacking, code, negative, failed⟩ :=
          storeGuestAddress_there e.platform ((e.reply call).writes m) (arguments 2)
            (e.reply call).address absent
        · simp only [ok] at member ⊢
          obtain rfl := receives_first fd quiet receives (List.mem_append_left _ member)
          obtain rfl := Except.ok.inj (answered.symm.trans reply)
          exact .inl ⟨⟨fun _ => storable, congrArg Prod.fst configured⟩, rfl⟩
        · simp only [failed] at member ⊢
          obtain rfl := receives_first fd quiet receives member
          exact .inr ⟨fun both => lacking (both.1 absent), negative⟩
    · simp only [configured] at member quiet ⊢
      obtain rfl := receives_first fd quiet receives member
      obtain rfl := Except.ok.inj (answered.symm.trans reply)
      refine .inr ⟨?_, linuxError_neg errno⟩
      simp only [configured, reduceCtorEq, and_false, not_false_eq_true]

end

/-! ## Delivery -/

/-- What the host has received reaches the guest just where the guest wants no address, or gives
a length word and the emulator's struct then has an address of a known family and size; for
`accept4`, the host also has to set the flags. -/
theorem received_settles {e : Env} {m : Memory} {number : UInt32} {given arguments : Arguments}
    {call : Syscall} {made : SocketCall}
    (asked : requested e.platform m number given = .ok (call, arguments))
    (receiving : call.receives = true) (member : made ∈ (e.linuxSocketSyscall m number given).calls)
    (receives : made.receives = true) (answered : (e.reply made).result = .ok n) :
    Settles (e.linuxSocketSyscall m number given).result n
      (Answerable e.platform m call arguments (e.reply made).address ∧
        Configures e call arguments n) := by
  rw [linuxSocketSyscall_requested asked] at member ⊢
  have unflagged (other : call ≠ .accept4) : Configures e call arguments n :=
    fun same => absurd same other
  have wanted (address : HostAddress) :
      (arguments 1 ≠ 0 → arguments 2 ≠ 0 ∧ Storable e.platform address) ↔
        ∀ word, (if arguments 1 = 0 then none else some (arguments 2 != 0)) = some word →
          word = true ∧ Storable e.platform address := by
    by_cases absent : arguments 1 = 0
    · simp [absent]
    · simp [absent]
  cases call with
  | recvfrom =>
    rw [and_iff_left (unflagged (by decide))]
    exact recvfrom_settles member answered
  | recvmsg =>
    rw [and_iff_left (unflagged (by decide))]
    exact recvmsg_settles member answered
  | accept =>
    rw [and_iff_left (unflagged (by decide))]
    refine (acceptSocket_settles member receives answered).congr ?_
    rw [wanted]
    exact and_iff_left rfl
  | accept4 =>
    refine (acceptSocket_settles member receives answered).congr ?_
    rw [wanted, configureSocket_none_iff]
    simp only [Answerable, addressWanted, Configures, true_implies, Bool.true_and]
  | _ => cases receiving

/-- Five bytes arrive, and the struct for the address holds this afterwards. -/
def arrival (address : HostAddress) : Env :=
  ⟨samplePlatform, fun _ => ⟨.ok 5, address, 0, id⟩, fun _ _ m => ⟨0, m, []⟩⟩

/-- A `recvfrom` that wants the address at 64, with the length word there. -/
def receiveArguments (word : UInt32) : Arguments := [3, 16, 8, 0, 64, word].get

/-- On a connected stream the host may leave the struct alone. The data is taken, and the guest
is told that the family is not supported. -/
example : ((arrival ⟨fun _ => 0, 0⟩).linuxSocketSyscall (fun _ => 0) 292
    (receiveArguments 32)).result = -97 := rfl

/-- What the host has received reaches a guest that wants no address, or one that it can be
given. The call fails where the guest wants an address and gives no length word, and where the
flags of `accept4` cannot be set. -/
theorem received_delivered {e : Env} {m : Memory} {number : UInt32}
    {given arguments : Arguments} {call : Syscall} {made : SocketCall} {n : Nat}
    (asked : requested e.platform m number given = .ok (call, arguments))
    (receiving : call.receives = true)
    (member : made ∈ (e.linuxSocketSyscall m number given).calls)
    (receives : made.receives = true) (answered : (e.reply made).result = .ok n) :
    (Answerable e.platform m call arguments (e.reply made).address →
      Configures e call arguments n → (e.linuxSocketSyscall m number given).result = n) ∧
    (addressWanted m call arguments = some false ∨ ¬Configures e call arguments n →
      (e.linuxSocketSyscall m number given).result < 0) := by
  obtain ⟨both, delivered⟩ | ⟨lacking, failed⟩ :=
    received_settles asked receiving member receives answered
  · refine ⟨fun _ _ => delivered, ?_⟩
    rintro (wordless | unset)
    · cases (both.1 false wordless).1
    · exact absurd both.2 unset
  · exact ⟨fun answerable sets => absurd ⟨answerable, sets⟩ lacking, fun _ => failed⟩

theorem received_delivered_datagram :
    ((arrival ⟨storage 16 2 [], 16⟩).linuxSocketSyscall (fun _ => 0) 292
      (receiveArguments 32)).result = (5 : Nat) := by
  have member : SocketCall.recvfrom 3 16 8 0 true ∈
      ((arrival ⟨storage 16 2 [], 16⟩).linuxSocketSyscall (fun _ => 0) 292
        (receiveArguments 32)).calls := List.mem_cons_self
  refine (received_delivered rfl rfl member rfl rfl).1 ?_ (fun refused => by cases refused)
  intro word wanted
  obtain rfl := Option.some.inj wanted
  have unlike : (storage 16 2 []) 1 ≠ samplePlatform.afUnix := by decide
  exact ⟨by decide, by decide, fun unix => absurd unix unlike⟩

/-- The same datagram, without a length word. -/
theorem wordless_receive_refused :
    let e := arrival ⟨storage 16 2 [], 16⟩
    let outcome := e.linuxSocketSyscall (fun _ => 0) 292 (receiveArguments 0)
    SocketCall.recvfrom 3 16 8 0 true ∈ outcome.calls ∧
      (e.reply (.recvfrom 3 16 8 0 true)).result = .ok 5 ∧ outcome.result = -14 :=
  ⟨List.mem_cons_self, rfl, rfl⟩

end Linuxemu.Socket
