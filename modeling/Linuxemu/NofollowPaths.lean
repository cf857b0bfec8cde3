import Linuxemu.PathWalk

/-! Resolution that leaves the last component alone. A pass over a path is a pass over its parent
and then one more component, and a link in the parent is replaced by its target in both, so the
two resolutions part only at a last component that is a link. -/
namespace Linuxemu.Path
open Lib

variable {p : Paths}
variable {cs : List Text} {allow : Bool} {c text : Text}

/-! ## The last component -/

theorem leafOf_concat (plain : Plain c) (cs : List Text) :
    leafOf (absolute (cs ++ [c])) = c := by
  have whole : slash ∉ c.reverse := fun member => plain.2.1 (List.mem_reverse.mp member)
  rw [leafOf, absolute_concat, List.reverse_append, List.reverse_cons, List.append_assoc,
    List.singleton_append, takeWhile_slash whole, List.reverse_reverse]

theorem parentOf_concat (plain : Plain c) (cs : List Text) :
    parentOf (absolute (cs ++ [c])) = absolute cs := by
  have before : (absolute (cs ++ [c])).take ((absolute (cs ++ [c])).length - c.length - 1) =
      rendered cs := by
    rw [absolute_concat]
    apply List.take_left'
    simp only [List.length_append, List.length_cons]
    omega
  unfold parentOf
  rw [leafOf_concat plain, before]
  exact parent_absolute cs

/-- The path that `guest_path_resolve_nofollow` writes. -/
theorem below_parent (plain : ∀ c ∈ cs, Plain c) (c : Text) :
    absolute cs ++ (if absolute cs = [slash] then [] else [slash]) ++ c = absolute (cs ++ [c]) := by
  rw [absolute_concat]
  cases cs with
  | nil => rfl
  | cons d cs =>
    have below : absolute (d :: cs) ≠ [slash] := fun root =>
      List.cons_ne_nil d cs (absolute_injective plain (List.forall_mem_nil _) root)
    rw [if_neg below, rendered_cons]
    simp [absolute]

/-! ## A pass and its last component -/

theorem walk_concat (plain : ∀ c ∈ cs, Plain c) (c : Text) (parent : Text) :
    walk p allow parent (joined (cs ++ [c])) =
      match walk p false parent (joined cs) with
      | .done => walk p allow (parent ++ rendered cs) c
      | .link text => .link (text ++ slash :: c)
      | .fail e => .fail e := by
  induction cs generalizing parent with
  | nil =>
    rw [joined, walk_nil]
    simp [rendered, joined]
  | cons d cs ih =>
    have first := plain d List.mem_cons_self
    have rest (x : Text) (member : x ∈ cs) := plain x (List.mem_cons_of_mem d member)
    have more : (cs ++ [c]).isEmpty = false := by simp
    have longer : rendered (cs ++ [c]) = rendered cs ++ slash :: c := rendered_concat cs c
    rw [List.cons_append, walk_cons first, walk_cons first]
    split
    · rfl
    split
    · rfl
    cases p.host.lstat (p.rootPath ++ parent ++ slash :: d) with
    | error e => simp [more]
    | ok kind =>
      -- The rest of the pass, for an entry that is no link.
      have onward : walk p allow (parent ++ slash :: d) (joined (cs ++ [c])) =
          match walk p false (parent ++ slash :: d) (joined cs) with
          | .done => walk p allow (parent ++ rendered (d :: cs)) c
          | .link text => .link (text ++ slash :: c)
          | .fail e => .fail e := by
        have assoc : parent ++ rendered (d :: cs) = parent ++ slash :: d ++ rendered cs := by
          simp [rendered]
        rw [ih rest, assoc]
      cases kind with
      | symlink =>
        dsimp only
        cases p.host.readlink (p.rootPath ++ parent ++ slash :: d) with
        | error e => rfl
        | ok full =>
          dsimp only
          split
          · simp [longer]
          · simp [longer]
      | regular =>
        dsimp only
        split
        · rfl
        · exact onward
      | directory =>
        dsimp only
        split
        · rfl
        · exact onward
      | special =>
        dsimp only
        split
        · rfl
        · exact onward

/-- What a pass leaves at a link starts at the root. -/
theorem walk_link_slashed (plain : ∀ c ∈ cs, Plain c) (path : List Text)
    (h : walk p allow (rendered path) (joined cs) = .link text) :
    text.head? = some slash := by
  induction cs generalizing path with
  | nil =>
    rw [joined, walk_nil] at h
    cases h
  | cons c cs ih =>
    have rest (x : Text) (member : x ∈ cs) := plain x (List.mem_cons_of_mem c member)
    have onward (h : walk p allow (rendered path ++ slash :: c) (joined cs) = .link text) :
        text.head? = some slash := by
      rw [← rendered_concat] at h
      exact ih rest _ h
    rw [walk_cons (plain c List.mem_cons_self), parent_absolute] at h
    split at h
    · cases h
    split at h
    · cases h
    split at h
    · split at h <;> cases h
    · split at h
      · cases h
      · split at h
        · rename_i slashed
          cases h
          rw [List.head?_append, slashed]
          rfl
        · cases h
          rfl
    · split at h
      · cases h
      · exact onward h

/-- Only a last component that is a link makes a pass stop at it. -/
theorem walk_last_link {parent : Text} (plain : Plain c) (h : walk p allow parent c = .link text) :
    p.host.lstat (p.rootPath ++ parent ++ slash :: c) = .ok .symlink := by
  have one : walk p allow parent (joined [c]) = .link text := h
  rw [walk_cons plain] at one
  split at one
  · cases one
  split at one
  · cases one
  split at one
  · split at one <;> cases one
  · rename_i found
    exact found
  · split at one
    · cases one
    · rw [joined, walk_nil] at one
      cases one

/-! ## Whole resolutions -/

/-- What the code scans after a link in the parent ends with the same component. -/
theorem normalize_concat {current next : Text} {size : Nat} (plain : Plain c)
    (slashed : text.head? = some slash)
    (parent : normalizeGuestPath p (some text) size = .ok current)
    (whole : normalizeGuestPath p (some (text ++ slash :: c)) size = .ok next) :
    ∃ cs, (∀ c ∈ cs, Plain c) ∧ current = absolute cs ∧ next = absolute (cs ++ [c]) := by
  have scanned : combined p text = text := if_pos slashed
  have scannedWhole : combined p (text ++ slash :: c) = text ++ slash :: c := by
    apply if_pos
    rw [List.head?_append, slashed]
    rfl
  have last : componentLoop (text ++ slash :: c) [] = componentLoop text [] ++ [c] := by
    rw [componentLoop_normal, componentLoop_normal, normal_steps_append, steps_last plain.2.1,
      stepOf_plain plain]
    rfl
  refine ⟨componentLoop text [], componentLoop_plain text [] nofun, ?_, ?_⟩
  · rw [normalizeGuestPath_scanned parent, scanned]
  · rw [normalizeGuestPath_scanned whole, scannedWhole, last]

/-- Where both loops end they have replaced the same links, up to the last component. -/
theorem restartLoop_concat {links : Nat} {out parent : Text} (plain : ∀ c ∈ cs, Plain c)
    (last : Plain c) (whole : restartLoop p allow links (absolute (cs ++ [c])) = .ok out)
    (before : restartLoop p false links (absolute cs) = .ok parent) :
    ∃ ds, (∀ c ∈ ds, Plain c) ∧ parent = absolute ds ∧
      (p.host.lstat (p.rootPath ++ absolute (ds ++ [c])) ≠ .ok .symlink →
        out = absolute (ds ++ [c])) := by
  induction links using Nat.strong_induction_on generalizing cs with
  | _ links ih =>
    rw [restartLoop] at whole before
    have cursor (ds : List Text) : (absolute ds).drop 1 = joined ds := rfl
    rw [cursor, walk_concat plain] at whole
    rw [cursor] at before
    cases pass : walk p false [] (joined cs) with
    | fail e =>
      rw [pass] at before
      cases before
    | done =>
      rw [pass] at whole before
      refine ⟨cs, plain, (Except.ok.inj before).symm, ?_⟩
      intro noLink
      dsimp only at whole
      split at whole
      · exact (Except.ok.inj whole).symm
      · cases whole
      · rename_i link
        have found := walk_last_link last link
        rw [List.nil_append, List.append_assoc, ← absolute_concat] at found
        exact absurd found noLink
    | link text =>
      rw [pass] at whole before
      dsimp only at whole before
      cases links with
      | zero => cases before
      | succ links =>
        dsimp only at whole before
        split at whole
        · cases whole
        split at before
        · cases before
        split at whole
        · cases whole
        rename_i next normalWhole
        split at before
        · cases before
        rename_i current normal
        have slashed := walk_link_slashed plain [] pass
        obtain ⟨ds, plainNext, rfl, rfl⟩ := normalize_concat last slashed normal normalWhole
        exact ih links (Nat.lt_succ_self links) plainNext whole before

/-- The null device, the root, or the last component below what the parent's links lead to. -/
theorem guestPathResolveNofollow_cases {path : Option Text} {size : Nat} {hostPath : Text}
    (h : guestPathResolveNofollow p path size = .ok hostPath) :
    p.rootPath ≠ [] ∧ ∃ cs, (∀ c ∈ cs, Plain c) ∧
      normalizeGuestPath p path p.pathMax = .ok (absolute cs) ∧
      ((absolute cs = bytes "/dev/null" ∧ hostPath = bytes "/dev/null") ∨
        (absolute cs ≠ bytes "/dev/null" ∧
          ((cs = [] ∧ hostPath = p.rootPath) ∨
            ∃ ds c es, cs = ds ++ [c] ∧ (∀ c ∈ es, Plain c) ∧
              restartLoop p false 40 (absolute ds) = .ok (absolute es) ∧
              hostPath = p.rootPath ++ absolute (es ++ [c])))) := by
  unfold guestPathResolveNofollow at h
  split at h
  · cases h
  rename_i rooted
  split at h
  · cases h
  rename_i guestPath normal
  obtain ⟨cs, plain, rfl⟩ := normalizeGuestPath_ok normal
  refine ⟨rooted, cs, plain, normal, ?_⟩
  split at h
  · rename_i result device
    obtain ⟨null, named⟩ := resolveGuestDevice_some device
    exact .inl ⟨null, named hostPath h⟩
  rename_i other
  refine .inr ⟨resolveGuestDevice_none_iff.mp other, ?_⟩
  split at h
  · rename_i root
    split at h
    · cases h
    · exact .inl ⟨absolute_injective plain (List.forall_mem_nil _) root, (Except.ok.inj h).symm⟩
  · rename_i below
    obtain rfl | ⟨ds, c, rfl⟩ := List.eq_nil_or_concat' cs
    · exact absurd rfl below
    have last := plain c (by simp)
    have before (d : Text) (member : d ∈ ds) := plain d (List.mem_append_left _ member)
    rw [parentOf_concat last, leafOf_concat last] at h
    split at h
    · cases h
    · rename_i parent ok
      have loop := resolveGuestSymlinks_ok ok
      obtain ⟨es, plainEs, rfl, -⟩ := restartLoop_ok ⟨ds, before, rfl⟩ loop
      have written : p.rootPath ++ absolute es ++ (if absolute es = [slash] then [] else [slash]) ++
          c = p.rootPath ++ absolute (es ++ [c]) := by
        rw [← below_parent plainEs]
        simp only [List.append_assoc]
      dsimp only at h
      rw [written] at h
      split at h
      · cases h
      · exact .inr ⟨ds, c, es, rfl, plainEs, loop, (Except.ok.inj h).symm⟩

/-- Two resolutions of one path name one host path where the last component is no link. -/
theorem nofollow_agrees {path : Option Text} {allowMissingLeaf : Bool} {size nofollowSize : Nat}
    {hostPath nofollowPath : Text}
    (notRoot : normalizeGuestPath p path p.pathMax ≠ .ok [slash])
    (follow : guestPathResolve p path allowMissingLeaf size = .ok hostPath)
    (nofollow : guestPathResolveNofollow p path nofollowSize = .ok nofollowPath)
    (noLink : p.host.lstat nofollowPath ≠ .ok .symlink) : hostPath = nofollowPath := by
  obtain ⟨-, guestPath, normal, followed⟩ := guestPathResolve_cases follow
  obtain ⟨-, cs, plain, same, unfollowed⟩ := guestPathResolveNofollow_cases nofollow
  obtain rfl := Except.ok.inj (normal.symm.trans same)
  obtain ⟨null, rfl⟩ | ⟨other, out, whole, rfl⟩ := followed
  · obtain ⟨-, rfl⟩ | ⟨other, -⟩ := unfollowed
    · rfl
    · exact absurd null other
  · obtain ⟨null, -⟩ | ⟨-, ⟨rfl, -⟩ | ⟨ds, c, es, rfl, plainEs, before, rfl⟩⟩ := unfollowed
    · exact absurd null other
    · exact absurd normal notRoot
    · have parents (d : Text) (member : d ∈ ds) := plain d (List.mem_append_left _ member)
      obtain ⟨fs, plainFs, parent, named⟩ :=
        restartLoop_concat parents (plain c (by simp)) whole before
      obtain rfl := absolute_injective plainEs plainFs parent
      rw [named noLink]

/-- A new file behind a link. -/
theorem nofollow_agrees_linked :
    let p : Paths := ⟨1024, bytes "/root", bytes "/x", linkedTree⟩
    let path := some (bytes "../a/new")
    ∃ hostPath nofollowPath, guestPathResolve p path true 1024 = .ok hostPath ∧
      guestPathResolveNofollow p path 1024 = .ok nofollowPath ∧ hostPath = nofollowPath := by
  intro p path
  have facts : normalizeGuestPath p path p.pathMax ≠ .ok [slash] ∧
      guestPathResolve p path true 1024 = .ok (bytes "/root/x/y/new") ∧
      guestPathResolveNofollow p path 1024 = .ok (bytes "/root/x/y/new") ∧
      p.host.lstat (bytes "/root/x/y/new") ≠ .ok .symlink := by decide +kernel
  obtain ⟨notRoot, follow, nofollow, noLink⟩ := facts
  exact ⟨_, _, follow, nofollow, nofollow_agrees notRoot follow nofollow noLink⟩

end Linuxemu.Path
