import Linuxemu.Lib.Loop
import Linuxemu.PathContainment

/-! `resolve_guest_symlinks` of `guest_path.c` round by round, over a host whose files may change
between any two calls: every call has an answer of its own. On a host that does not change, it
is the walk of `resolveGuestSymlinks`. -/
namespace Linuxemu.Path
open Lib Loop
variable {size : Nat} {out : Text}

/-! ## The loop -/

/-- What the host answers, by the number of the call. -/
structure Answers where
  lstat : Nat → Text → Except Errno FileKind
  readlink : Nat → Text → Except Errno Text

variable {h : Answers}

/-- The variables of the function at the head of its loop. `calls` and `met` are history: the calls
the host has answered, and the answers of `lstat` that were links. -/
structure Pass where
  current : Text
  parent : Text
  cursor : Text
  linkCount : Nat
  calls : Nat
  met : Nat

variable {t : Pass}

/-- How the function returns, with the last value of `link_count`, the links met and the calls
answered. -/
structure Resolved where
  result : Result
  linkCount : Nat
  met : Nat
  calls : Nat
  deriving DecidableEq

variable {r : Resolved}

def Pass.returns (s : Pass) (result : Result) : Next Pass Resolved :=
  .stop ⟨result, s.linkCount, s.met, s.calls⟩

/-- After the loop. -/
def Pass.finish (s : Pass) (resolvedSize : Nat) : Next Pass Resolved :=
  s.returns (if resolvedSize < s.current.length + 1 then .error (some .enametoolong)
    else .ok s.current)

/-- A link whose target has been read: on with the path that takes its place. -/
def Pass.follow (p : Paths) (s : Pass) (target remaining : Text) : Next Pass Resolved :=
  let s := { s with linkCount := s.linkCount + 1 }
  if 40 < s.linkCount then s.returns (.error (some .eloop))
  else
    let combined :=
      if target.head? = some slash then target ++ remaining
      else (if s.parent = [] then [slash] else s.parent) ++ slash :: target ++ remaining
    if 2 * p.pathMax ≤ combined.length then s.returns (.error none)
    else match normalizeGuestPath p (some combined) p.pathMax with
      | .error e => s.returns (.error (some e))
      | .ok current => .go { s with current, parent := [], cursor := current.drop 1 }

/-- One round of the loop. -/
def resolveStep (p : Paths) (h : Answers) (allowMissingLeaf : Bool) (resolvedSize : Nat)
    (s : Pass) : Next Pass Resolved :=
  if s.cursor = [] then s.finish resolvedSize
  else
    let component := s.cursor.takeWhile (· != slash)
    let tail := s.cursor.dropWhile (· != slash)
    let last := tail.isEmpty
    let hostCandidate := p.rootPath ++ s.parent ++ slash :: component
    if p.pathMax < component.length + 1 then s.returns (.error (some .enametoolong))
    else if p.pathMax ≤ hostCandidate.length then s.returns (.error (some .enametoolong))
    else match h.lstat s.calls hostCandidate with
      | .error e =>
        if allowMissingLeaf && last && e == .enoent then s.finish resolvedSize
        else s.returns (.error (some e))
      | .ok .symlink =>
        let found := { s with calls := s.calls + 2, met := s.met + 1 }
        match h.readlink (s.calls + 1) hostCandidate with
        | .error e => found.returns (.error (some e))
        | .ok full =>
          found.follow p (full.take (p.pathMax - 1)) (if last then [] else slash :: tail.drop 1)
      | .ok _ =>
        if p.pathMax - s.parent.length ≤ component.length + 1 then
          s.returns (.error (some .enametoolong))
        else if last then s.finish resolvedSize
        else .go { s with
          parent := s.parent ++ slash :: component
          cursor := tail.drop 1
          calls := s.calls + 1 }

def firstPass (normalized : Text) : Pass := ⟨normalized, [], normalized.drop 1, 0, 0, 0⟩

/-- The function, for at most so many rounds. -/
def resolveRounds (p : Paths) (h : Answers) (normalized : Text) (allowMissingLeaf : Bool)
    (resolvedSize rounds : Nat) : Option Resolved :=
  if p.pathMax < normalized.length + 1 then some ⟨.error (some .enametoolong), 0, 0, 0⟩
  else run (resolveStep p h allowMissingLeaf resolvedSize) rounds (firstPass normalized)

/-! ## What a round can do -/

variable {allowMissingLeaf : Bool} {s : Pass} {p : Paths} {resolvedSize : Nat}

theorem outputLoop_length {output : Text} {components : List Text} (room : output.length < size)
    (h : outputLoop size output components = .ok out) :
    out.length < size := by
  induction components generalizing output with
  | nil =>
    cases h
    exact room
  | cons component rest ih =>
    rw [outputLoop] at h
    by_cases full : size ≤ output.length + component.length + (if rest = [] then 0 else 1)
    · rw [if_pos full] at h
      cases h
    · rw [if_neg full] at h
      apply ih _ h
      cases rest with
      | nil =>
        simp at full ⊢
        omega
      | cons second rest =>
        simp at full ⊢
        omega

theorem normalizeGuestPath_length {path : Option Text}
    (h : normalizeGuestPath p path size = .ok out) : out.length < size := by
  unfold normalizeGuestPath at h
  split at h
  · cases h
  · cases h
  · rename_i path _
    dsimp only at h
    generalize (if path.head? = some slash then path else p.guestCwd ++ slash :: path) =
      combined at h
    split at h
    · cases h
    · split at h
      · cases h
      · exact outputLoop_length (by rw [List.length_singleton]; omega) h

/-- The ways a round goes on: with the next component, or from the start of another path. -/
inductive Goes (p : Paths) (s : Pass) : Pass → Prop
  | component (parent cursor : Text) : cursor.length < s.cursor.length →
      Goes p s { s with parent, cursor, calls := s.calls + 1 }
  | link (current : Text) : s.linkCount < 40 → current.length < p.pathMax →
      Goes p s ⟨current, [], current.drop 1, s.linkCount + 1, s.calls + 2, s.met + 1⟩

/-- The ways it ends: without a link, at a link that cannot be read, or at one that is read. -/
inductive Stops (h : Answers) (s : Pass) : Resolved → Prop
  | plain (result : Result) : Stops h s ⟨result, s.linkCount, s.met, s.calls⟩
  | unread (path : Text) (e : Errno) : h.lstat s.calls path = .ok .symlink →
      h.readlink (s.calls + 1) path = .error e →
      Stops h s ⟨.error (some e), s.linkCount, s.met + 1, s.calls + 2⟩
  | loop : 40 ≤ s.linkCount →
      Stops h s ⟨.error (some .eloop), s.linkCount + 1, s.met + 1, s.calls + 2⟩
  | read (result : Result) : s.linkCount < 40 →
      Stops h s ⟨result, s.linkCount + 1, s.met + 1, s.calls + 2⟩

/-- All that a round can come to. -/
def Comes (p : Paths) (h : Answers) (s : Pass) : Next Pass Resolved → Prop
  | .go t => Goes p s t
  | .stop r => Stops h s r

theorem comes_finish (p : Paths) (h : Answers) (s : Pass) (resolvedSize : Nat) :
    Comes p h s (s.finish resolvedSize) :=
  .plain _

theorem comes_follow (target remaining : Text) :
    Comes p h s
      (Pass.follow p { s with calls := s.calls + 2, met := s.met + 1 } target remaining) := by
  unfold Pass.follow
  dsimp only
  generalize (if target.head? = some slash then target ++ remaining else _) = combined
  split
  · exact .loop (by omega)
  · split
    · exact .read _ (by omega)
    · split
      · exact .read _ (by omega)
      · rename_i current normal
        exact .link current (by omega) (normalizeGuestPath_length normal)

theorem resolveStep_comes (p : Paths) (h : Answers) (allowMissingLeaf : Bool) (resolvedSize : Nat)
    (s : Pass) : Comes p h s (resolveStep p h allowMissingLeaf resolvedSize s) := by
  unfold resolveStep
  split
  · exact comes_finish p h s resolvedSize
  · rename_i more
    have longer := List.length_pos_iff.mpr more
    have shorter := (List.dropWhile_sublist (· != slash) (l := s.cursor)).length_le
    dsimp only
    split
    · exact .plain _
    split
    · exact .plain _
    split
    · split
      · exact comes_finish p h s resolvedSize
      · exact .plain _
    · split
      · rename_i found _ _ failed
        exact .unread _ _ found failed
      · exact comes_follow ..
    · split
      · exact .plain _
      split
      · exact comes_finish p h s resolvedSize
      · apply Goes.component
        rw [List.length_drop]
        omega

/-! ## Every run ends -/

/-- Before the loop's limit, and no link met that was not read. -/
def Pass.Within (s : Pass) : Prop := s.linkCount ≤ 40 ∧ s.met = s.linkCount

/-- The links left come first, then what is left of the path. -/
def Pass.left (p : Paths) (s : Pass) : Nat := (40 - s.linkCount) * p.pathMax + s.cursor.length

theorem Goes.smaller (goes : Goes p s t) (within : s.Within) :
    t.Within ∧ t.left p < s.left p := by
  obtain ⟨few, same⟩ := within
  cases goes with
  | component parent cursor shorter => exact ⟨⟨few, same⟩, Nat.add_lt_add_left shorter _⟩
  | link current more short =>
    refine ⟨⟨more, congrArg (· + 1) same⟩, ?_⟩
    have one : 40 - s.linkCount = 40 - (s.linkCount + 1) + 1 := by omega
    have rest : (current.drop 1).length ≤ current.length := by
      rw [List.length_drop]
      omega
    rw [Pass.left, Pass.left, one, Nat.add_mul, Nat.one_mul]
    dsimp only
    omega

/-- What is known when the function returns. A link that could not be read was the last thing the
host was asked about. -/
def Resolved.Limited (h : Answers) (r : Resolved) : Prop :=
  r.linkCount ≤ 41 ∧ r.met ≤ 41 ∧ (r.linkCount = 41 → r.result = .error (some .eloop)) ∧
    (r.met = 41 → r.linkCount = 41 ∨
      ∃ call path e, r.calls = call + 2 ∧ h.lstat call path = .ok .symlink ∧
        h.readlink (call + 1) path = .error e ∧ r.result = .error (some e))

theorem Stops.limited (stops : Stops h s r) (within : s.Within) :
    r.Limited h := by
  obtain ⟨few, same⟩ := within
  cases stops with
  | plain result =>
    simp only [Resolved.Limited]
    exact ⟨by omega, by omega, fun limit => by omega, fun limit => by omega⟩
  | unread path e link failed =>
    simp only [Resolved.Limited]
    exact ⟨by omega, by omega, fun limit => by omega,
      fun _ => .inr ⟨s.calls, path, e, rfl, link, failed, rfl⟩⟩
  | loop most =>
    simp only [Resolved.Limited]
    exact ⟨by omega, by omega, fun _ => trivial, fun _ => .inl (by omega)⟩
  | read result more =>
    simp only [Resolved.Limited]
    exact ⟨by omega, by omega, fun limit => by omega, fun limit => by omega⟩

/-- Whatever the host answers, the function returns, within `41 * PATH_MAX` rounds. It meets at most
41 links; at the 41st it fails, with `ELOOP` once the target is read and with the error of the
`readlink` of that link, its last call, if it cannot be. -/
theorem symlinks_end (p : Paths) (h : Answers) (normalized : Text) (allowMissingLeaf : Bool)
    (resolvedSize : Nat) :
    ∃ r, resolveRounds p h normalized allowMissingLeaf resolvedSize (41 * p.pathMax) = some r ∧
      r.linkCount ≤ 41 ∧ r.met ≤ 41 ∧ (r.linkCount = 41 → r.result = .error (some .eloop)) ∧
      (r.met = 41 → r.linkCount = 41 ∨
        ∃ call path e, r.calls = call + 2 ∧ h.lstat call path = .ok .symlink ∧
          h.readlink (call + 1) path = .error e ∧ r.result = .error (some e)) := by
  unfold resolveRounds
  split
  · exact ⟨_, rfl, by decide, by decide, nofun, nofun⟩
  · rename_i short
    have start : (firstPass normalized).Within := ⟨Nat.zero_le _, rfl⟩
    have rounds : (firstPass normalized).left p < 41 * p.pathMax := by
      have : (normalized.drop 1).length ≤ normalized.length := by
        rw [List.length_drop]
        omega
      show 40 * p.pathMax + (normalized.drop 1).length < 41 * p.pathMax
      omega
    have goes (s t : Pass) (next : resolveStep p h allowMissingLeaf resolvedSize s = .go t) :
        Goes p s t := by
      have comes := resolveStep_comes p h allowMissingLeaf resolvedSize s
      rwa [next] at comes
    have stops (s : Pass) (r : Resolved)
        (next : resolveStep p h allowMissingLeaf resolvedSize s = .stop r) : Stops h s r := by
      have comes := resolveStep_comes p h allowMissingLeaf resolvedSize s
      rwa [next] at comes
    obtain ⟨r, ended⟩ := run_ends (fun s t within next => (goes s t next).smaller within) start rounds
    have limited : r.Limited h := run_post
      (fun s t within next => ((goes s t next).smaller within).1)
      (fun s r within next => (stops s r next).limited within) start ended
    exact ⟨r, ended, limited⟩

/-- The 41st link is met, but when it is to be read the host has an error of its own. -/
theorem unread_link_no_loop :
    let p : Paths := ⟨64, bytes "/r", bytes "/", ⟨fun _ => .ok .symlink, fun _ => .ok (bytes "/a")⟩⟩
    let h : Answers := ⟨fun _ _ => .ok .symlink,
      fun call _ => if call = 81 then .error .eio else .ok (bytes "/a")⟩
    resolveRounds p h (bytes "/a") false 64 (41 * 64) = some ⟨.error (some .eio), 40, 41, 82⟩ := by
  decide +kernel

/-! ## A host that does not change -/

def Answers.unchanging (host : HostTree) : Answers := ⟨fun _ => host.lstat, fun _ => host.readlink⟩

/-- The check after the loop. -/
def sized (resolvedSize : Nat) : Result → Result
  | .error e => .error e
  | .ok current =>
    if resolvedSize < current.length + 1 then .error (some .enametoolong) else .ok current

/-- What comes of a pass that ends so, with so many links still allowed. -/
def afterWalk (p : Paths) (allowMissingLeaf : Bool) (current : Text) (links : Nat) : Walk → Result
  | .done => .ok current
  | .fail e => .error (some e)
  | .link combined =>
    match links with
    | 0 => .error (some .eloop)
    | links + 1 =>
      if 2 * p.pathMax ≤ combined.length then .error none
      else match normalizeGuestPath p (some combined) p.pathMax with
        | .error e => .error (some e)
        | .ok current => restartLoop p allowMissingLeaf links current

theorem restartLoop_afterWalk (p : Paths) (allowMissingLeaf : Bool) (links : Nat) (current : Text) :
    restartLoop p allowMissingLeaf links current =
      afterWalk p allowMissingLeaf current links (walk p allowMissingLeaf [] (current.drop 1)) := by
  rw [restartLoop]
  cases walk p allowMissingLeaf [] (current.drop 1) with
  | done => rfl
  | fail e => rfl
  | link combined => cases links <;> rfl

/-- What the walk makes of the rest of a pass. -/
def Pass.walked (p : Paths) (allowMissingLeaf : Bool) (s : Pass) : Result :=
  afterWalk p allowMissingLeaf s.current (40 - s.linkCount)
    (walk p allowMissingLeaf s.parent s.cursor)

/-- A round takes its part of the walk. -/
def Agrees (p : Paths) (allowMissingLeaf : Bool) (resolvedSize : Nat) (s : Pass) :
    Next Pass Resolved → Prop
  | .go t => t.linkCount ≤ 40 ∧ t.walked p allowMissingLeaf = s.walked p allowMissingLeaf
  | .stop r => r.result = sized resolvedSize (s.walked p allowMissingLeaf)

theorem returns_agrees {e : Option Errno} (walked : s.walked p allowMissingLeaf = .error e)
    (t : Pass) :
    Agrees p allowMissingLeaf resolvedSize s (t.returns (.error e)) := by
  show _ = sized resolvedSize (s.walked p allowMissingLeaf)
  rw [walked]
  rfl

theorem finish_agrees (done : walk p allowMissingLeaf s.parent s.cursor = .done) :
    Agrees p allowMissingLeaf resolvedSize s (s.finish resolvedSize) := by
  show _ = sized resolvedSize (s.walked p allowMissingLeaf)
  rw [Pass.walked, done]
  rfl

theorem fail_agrees {e : Errno} (failed : walk p allowMissingLeaf s.parent s.cursor = .fail e)
    (t : Pass) :
    Agrees p allowMissingLeaf resolvedSize s (t.returns (.error (some e))) :=
  returns_agrees (by rw [Pass.walked, failed]; rfl) t

theorem follow_agrees {target remaining : Text} (few : s.linkCount ≤ 40)
    (same : t.linkCount = s.linkCount) (parent : t.parent = s.parent)
    (link : walk p allowMissingLeaf s.parent s.cursor =
      .link (if target.head? = some slash then target ++ remaining
        else (if s.parent = [] then [slash] else s.parent) ++ slash :: target ++ remaining)) :
    Agrees p allowMissingLeaf resolvedSize s (t.follow p target remaining) := by
  unfold Pass.follow
  dsimp only
  rw [parent, same]
  have walked : s.walked p allowMissingLeaf = afterWalk p allowMissingLeaf s.current
      (40 - s.linkCount) (.link _) := congrArg _ link
  generalize (if target.head? = some slash then target ++ remaining else _) = combined at *
  split
  · have none : 40 - s.linkCount = 0 := by omega
    rw [none] at walked
    exact returns_agrees walked _
  · obtain ⟨links, more⟩ : ∃ links, 40 - s.linkCount = links + 1 :=
      ⟨40 - (s.linkCount + 1), by omega⟩
    rw [more] at walked
    simp only [afterWalk] at walked
    split
    · rename_i long
      rw [if_pos long] at walked
      exact returns_agrees walked _
    · rename_i short
      rw [if_neg short] at walked
      split
      · rename_i e failed
        rw [failed] at walked
        exact returns_agrees walked _
      · rename_i current normal
        rw [normal] at walked
        have left : 40 - (s.linkCount + 1) = links := by omega
        refine ⟨by dsimp only; omega, ?_⟩
        rw [walked]
        dsimp only
        rw [restartLoop_afterWalk, ← left]
        rfl

theorem resolveStep_agrees (p : Paths) (allowMissingLeaf : Bool) (resolvedSize : Nat)
    (few : s.linkCount ≤ 40) :
    Agrees p allowMissingLeaf resolvedSize s
      (resolveStep p (.unchanging p.host) allowMissingLeaf resolvedSize s) := by
  have walked := walk.eq_1 p allowMissingLeaf s.parent s.cursor
  unfold resolveStep
  by_cases ended : s.cursor = []
  · rw [if_pos ended] at walked ⊢
    exact finish_agrees walked
  rw [if_neg ended] at walked ⊢
  dsimp only [Answers.unchanging] at walked ⊢
  split
  · rename_i long
    rw [if_pos long] at walked
    exact fail_agrees walked _
  rename_i short
  rw [if_neg short] at walked
  split
  · rename_i long
    rw [if_pos long] at walked
    exact fail_agrees walked _
  rename_i fits
  rw [if_neg fits] at walked
  split
  · rename_i e missing
    rw [missing] at walked
    dsimp only at walked
    split
    · rename_i leaf
      rw [if_pos leaf] at walked
      exact finish_agrees walked
    · rename_i leaf
      rw [if_neg leaf] at walked
      exact fail_agrees walked _
  · rename_i link
    rw [link] at walked
    dsimp only at walked
    split
    · rename_i e failed
      rw [failed] at walked
      exact fail_agrees walked _
    · rename_i full read
      rw [read] at walked
      dsimp only at walked
      refine follow_agrees few ?_ ?_ ?_
      · rfl
      · rfl
      · rw [walked]
        split <;> rfl
  · rename_i kind other found
    have onward : walk p allowMissingLeaf s.parent s.cursor =
        if p.pathMax - s.parent.length ≤ (s.cursor.takeWhile (· != slash)).length + 1 then
          .fail .enametoolong
        else if (s.cursor.dropWhile (· != slash)).isEmpty then .done
        else walk p allowMissingLeaf (s.parent ++ slash :: s.cursor.takeWhile (· != slash))
          ((s.cursor.dropWhile (· != slash)).drop 1) := by
      rw [walked, found]
      cases kind with
      | symlink => exact absurd rfl other
      | regular => rfl
      | directory => rfl
      | special => rfl
    split
    · rename_i long
      rw [if_pos long] at onward
      exact fail_agrees onward _
    rename_i room
    rw [if_neg room] at onward
    split
    · rename_i last
      rw [if_pos last] at onward
      exact finish_agrees onward
    · rename_i more
      rw [if_neg more] at onward
      refine ⟨few, ?_⟩
      rw [Pass.walked, Pass.walked, onward]

/-- On a host that does not change, the rounds come to what the walk says. -/
theorem resolveRounds_unchanging (p : Paths) (normalized : Text) (allowMissingLeaf : Bool)
    (resolvedSize : Nat) {rounds : Nat}
    (ended : resolveRounds p (.unchanging p.host) normalized allowMissingLeaf resolvedSize rounds =
      some r) :
    r.result = resolveGuestSymlinks p normalized allowMissingLeaf resolvedSize := by
  unfold resolveRounds at ended
  unfold resolveGuestSymlinks
  split at ended
  · rename_i long
    cases ended
    rw [if_pos long]
  · rename_i short
    rw [if_neg short, restartLoop_afterWalk]
    let whole := (firstPass normalized).walked p allowMissingLeaf
    -- every round keeps what the walk says of the whole
    have keeps : ∀ s t : Pass, s.linkCount ≤ 40 ∧ s.walked p allowMissingLeaf = whole →
        resolveStep p (.unchanging p.host) allowMissingLeaf resolvedSize s = .go t →
        t.linkCount ≤ 40 ∧ t.walked p allowMissingLeaf = whole := by
      intro s t ⟨few, same⟩ next
      have agrees := resolveStep_agrees p allowMissingLeaf resolvedSize few
      rw [next] at agrees
      exact ⟨agrees.1, agrees.2.trans same⟩
    have stops : ∀ (s : Pass) r, s.linkCount ≤ 40 ∧ s.walked p allowMissingLeaf = whole →
        resolveStep p (.unchanging p.host) allowMissingLeaf resolvedSize s = .stop r →
        r.result = sized resolvedSize whole := by
      intro s r ⟨few, same⟩ next
      have agrees := resolveStep_agrees p allowMissingLeaf resolvedSize few
      rw [next] at agrees
      exact same ▸ agrees
    exact run_post keeps stops ⟨Nat.zero_le _, rfl⟩ ended

end Linuxemu.Path
