import Mathlib.Data.List.TakeWhile
import Linuxemu.Path

/-! What a resolved path names. A path that `normalize_guest_path` accepts is the
text of a list of plain components; a pass that reaches the end has looked at
every prefix of it, so no link is left on the way. -/
namespace Linuxemu.Path
variable {size : Nat} {allow : Bool} {p : Paths} {c out : Text}
variable {path : Option Text} {guestPath parent rest : Text}

/-- A component that names an entry of its directory. -/
def Plain (c : Text) : Prop :=
  c ≠ [] ∧ slash ∉ c ∧ c ≠ bytes "." ∧ c ≠ bytes ".."

instance : DecidablePred Plain := fun c =>
  inferInstanceAs (Decidable (c ≠ [] ∧ slash ∉ c ∧ c ≠ bytes "." ∧ c ≠ bytes ".."))

/-- Components with a slash between them. -/
def joined : List Text → Text
  | [] => []
  | [c] => c
  | c :: d :: cs => c ++ slash :: joined (d :: cs)

/-- The absolute path of a component list; the empty list is the root. -/
def absolute (cs : List Text) : Text := slash :: joined cs

theorem takeWhile_slash (h : slash ∉ c) :
    (c ++ slash :: rest).takeWhile (· != slash) = c := by
  rw [List.takeWhile_append_of_pos]
  · simp
  · intro b hb
    simpa using fun e : b = slash => h (e ▸ hb)

theorem dropWhile_slash (h : slash ∉ c) :
    (c ++ slash :: rest).dropWhile (· != slash) = slash :: rest := by
  rw [List.dropWhile_append_of_pos]
  · simp
  · intro b hb
    simpa using fun e : b = slash => h (e ▸ hb)

theorem takeWhile_no_slash (h : slash ∉ c) : c.takeWhile (· != slash) = c := by
  rw [List.takeWhile_eq_self_iff]
  intro b hb
  simpa using fun e : b = slash => h (e ▸ hb)

theorem dropWhile_no_slash (h : slash ∉ c) : c.dropWhile (· != slash) = [] := by
  rw [List.dropWhile_eq_nil_iff]
  intro b hb
  simpa using fun e : b = slash => h (e ▸ hb)

/-! ## Normal paths -/

/-- The first byte after the slashes is none, so the component has it. -/
theorem component_nonempty {cursor : Text} (h : cursor.dropWhile (· == slash) ≠ []) :
    (cursor.dropWhile (· == slash)).takeWhile (· != slash) ≠ [] := by
  induction cursor with
  | nil => exact absurd rfl h
  | cons b bs ih =>
    by_cases e : b = slash
    · simp only [e, beq_self_eq_true, List.dropWhile_cons_of_pos] at h ⊢
      exact ih h
    · simp [e]

theorem componentLoop_plain (cursor : Text) (components : List Text)
    (h : ∀ c ∈ components, Plain c) : ∀ c ∈ componentLoop cursor components, Plain c := by
  fun_induction componentLoop cursor components with
  | case1 => exact h
  | case2 _ _ _ _ _ _ _ ih => exact ih h
  | case3 _ _ _ _ _ _ _ _ ih => exact ih fun c hc => h c ((List.dropLast_sublist _).mem hc)
  | case4 cursor components start nonempty component rest notDot notDots ih =>
    apply ih
    intro c hc
    rcases List.mem_append.mp hc with hc | hc
    · exact h c hc
    · obtain rfl := List.mem_singleton.mp hc
      refine ⟨?_, ?_, notDot, notDots⟩
      · exact component_nonempty nonempty
      · intro member
        have := List.mem_takeWhile_imp member
        simp at this

theorem outputLoop_ok {output : Text} {components : List Text}
    (h : outputLoop size output components = .ok out) : out = output ++ joined components := by
  induction components generalizing output with
  | nil =>
    simp only [outputLoop, Except.ok.injEq] at h
    simp [joined, h]
  | cons c rest ih =>
    rw [outputLoop] at h
    by_cases long : size ≤ output.length + c.length + (if rest = [] then 0 else 1)
    · rw [if_pos long] at h
      cases h
    · rw [if_neg long] at h
      have := ih h
      cases rest with
      | nil => simpa [joined] using this
      | cons d cs => simpa [joined] using this

theorem normalizeGuestPath_ok (h : normalizeGuestPath p path size = .ok out) :
    ∃ cs, (∀ c ∈ cs, Plain c) ∧ out = absolute cs := by
  unfold normalizeGuestPath at h
  split at h
  · cases h
  · cases h
  · rename_i path _
    generalize (if path.head? = some slash then path else p.guestCwd ++ slash :: path) =
      combined at h
    by_cases long : 2 * p.pathMax ≤ combined.length
    · simp [long] at h
    · by_cases small : size < 2
      · simp [long, small] at h
      · simp only [long, small, if_false] at h
        exact ⟨_, componentLoop_plain combined [] (by simp), outputLoop_ok h⟩

/-! ## One pass -/

/-- What the pass found at the host path of a prefix: something that is no link,
or nothing at the last one of a path whose leaf may be missing. -/
def Seen (p : Paths) (allowMissingLeaf last : Bool) (hostPath : Text) : Prop :=
  (∃ kind, p.host.lstat hostPath = .ok kind ∧ kind ≠ .symlink) ∨
  (allowMissingLeaf = true ∧ last = true ∧ p.host.lstat hostPath = .error .enoent)

/-- One component of a pass that reaches the end. -/
theorem walk_step {tail : Text} (plain : slash ∉ c) (nonempty : c ≠ [])
    (shape : tail = [] ∨ ∃ after, tail = slash :: after)
    (h : walk p allow parent (c ++ tail) = .done) :
    Seen p allow tail.isEmpty (p.rootPath ++ parent ++ slash :: c) ∧
    (∀ after, tail = slash :: after → walk p allow (parent ++ slash :: c) after = .done) := by
  have take : (c ++ tail).takeWhile (· != slash) = c := by
    rcases shape with rfl | ⟨after, rfl⟩
    · rw [List.append_nil, takeWhile_no_slash plain]
    · exact takeWhile_slash plain
  have drop : (c ++ tail).dropWhile (· != slash) = tail := by
    rcases shape with rfl | ⟨after, rfl⟩
    · rw [List.append_nil, dropWhile_no_slash plain]
    · exact dropWhile_slash plain
  rw [walk] at h
  simp only [take, drop, List.append_eq_nil_iff, nonempty, false_and, if_false] at h
  split at h
  · cases h
  split at h
  · cases h
  split at h
  · rename_i e missing
    split at h
    · rename_i leaf
      simp only [Bool.and_eq_true, beq_iff_eq] at leaf
      obtain ⟨⟨allowed, last⟩, rfl⟩ := leaf
      refine ⟨Or.inr ⟨allowed, last, missing⟩, ?_⟩
      rintro after rfl
      cases last
    · cases h
  · -- a link never ends the pass
    split at h
    · cases h
    · split at h <;> cases h
  · rename_i kind noLink found
    split at h
    · cases h
    · refine ⟨Or.inl ⟨kind, found, noLink⟩, ?_⟩
      rintro after rfl
      simpa using h

/-- A pass over plain components that reaches the end has seen every prefix. -/
theorem walk_done {cs : List Text} (plain : ∀ c ∈ cs, Plain c)
    (h : walk p allow parent (joined cs) = .done) :
    ∀ k, 0 < k → k ≤ cs.length →
      Seen p allow (decide (k = cs.length)) (p.rootPath ++ parent ++ absolute (cs.take k)) := by
  induction cs generalizing parent with
  | nil => intro k pos le; simp at le; omega
  | cons c cs ih =>
    have hc := plain c List.mem_cons_self
    intro k pos le
    cases cs with
    | nil =>
      obtain rfl : k = 1 := by simp at le; omega
      have last : walk p allow parent (c ++ []) = .done := by simpa [joined] using h
      have seen := (walk_step hc.2.1 hc.1 (Or.inl rfl) last).1
      simpa [absolute, joined] using seen
    | cons d ds =>
      obtain ⟨seen, next⟩ := walk_step hc.2.1 hc.1 (Or.inr ⟨_, rfl⟩) (by simpa [joined] using h)
      by_cases one : k = 1
      · subst one
        simpa [absolute, joined] using seen
      · obtain ⟨j, rfl⟩ : ∃ j, k = j + 2 := ⟨k - 2, by omega⟩
        have deeper := ih (fun x hx => plain x (List.mem_cons_of_mem c hx)) (next _ rfl) (j + 1)
          (by omega) (by simp only [List.length_cons] at le ⊢; omega)
        simpa [absolute, joined] using deeper

/-! ## Whole resolutions -/

theorem restartLoop_ok {links : Nat} {current : Text}
    (normal : ∃ cs, (∀ c ∈ cs, Plain c) ∧ current = absolute cs)
    (h : restartLoop p allow links current = .ok out) :
    ∃ cs, (∀ c ∈ cs, Plain c) ∧ out = absolute cs ∧
      ∀ k, 0 < k → k ≤ cs.length →
        Seen p allow (decide (k = cs.length)) (p.rootPath ++ absolute (cs.take k)) := by
  obtain ⟨cs, plain, rfl⟩ := normal
  have finished (done : walk p allow [] (joined cs) = .done) : ∀ k, 0 < k → k ≤ cs.length →
      Seen p allow (decide (k = cs.length)) (p.rootPath ++ absolute (cs.take k)) := by
    simpa using walk_done plain done
  induction links generalizing cs with
  | zero =>
    rw [restartLoop] at h
    simp only [absolute, List.drop_succ_cons, List.drop_zero] at h
    split at h
    · rename_i done
      exact ⟨cs, plain, by simpa [absolute] using h.symm, finished done⟩
    · cases h
    · cases h
  | succ links ih =>
    rw [restartLoop] at h
    simp only [absolute, List.drop_succ_cons, List.drop_zero] at h
    split at h
    · rename_i done
      exact ⟨cs, plain, by simpa [absolute] using h.symm, finished done⟩
    · cases h
    · rename_i combined _
      by_cases long : 2 * p.pathMax ≤ combined.length
      · simp [long] at h
      · simp only [long, if_false] at h
        split at h
        · cases h
        · -- the restart begins with a normal path again
          rename_i next ok
          obtain ⟨ds, plainNext, rfl⟩ := normalizeGuestPath_ok ok
          exact ih ds plainNext h fun done => by simpa using walk_done plainNext done

theorem resolveGuestSymlinks_ok {normalized : Text}
    (h : resolveGuestSymlinks p normalized allow size = .ok out) :
    restartLoop p allow 40 normalized = .ok out := by
  unfold resolveGuestSymlinks at h
  split at h
  · cases h
  · split at h
    · cases h
    · rename_i current ok
      split at h
      · cases h
      · rw [ok, h]

theorem resolveGuestDevice_some {result : Result}
    (h : resolveGuestDevice guestPath size = some result) :
    guestPath = bytes "/dev/null" ∧ ∀ out, result = .ok out → out = bytes "/dev/null" := by
  obtain ⟨device, found, rfl⟩ := Option.map_eq_some_iff.mp h
  have member := List.mem_of_find?_eq_some found
  have eq := List.find?_some found
  obtain rfl : device = bytes "/dev/null" := by simpa [devices] using member
  refine ⟨(beq_iff_eq.mp eq).symm, ?_⟩
  intro out ok
  split at ok
  · cases ok
  · exact (Except.ok.inj ok).symm

theorem resolveGuestDevice_none_iff :
    resolveGuestDevice guestPath size = none ↔ guestPath ≠ bytes "/dev/null" := by
  rw [resolveGuestDevice, Option.map_eq_none_iff, List.find?_eq_none]
  simp only [devices, List.mem_singleton, forall_eq, beq_iff_eq]
  exact ne_comm

/-- A path that resolves is the null device, or what its links lead to. -/
theorem guestPathResolve_cases {hostPath : Text}
    (h : guestPathResolve p path allow size = .ok hostPath) :
    p.rootPath ≠ [] ∧ ∃ guestPath, normalizeGuestPath p path p.pathMax = .ok guestPath ∧
      ((guestPath = bytes "/dev/null" ∧ hostPath = bytes "/dev/null") ∨
        (guestPath ≠ bytes "/dev/null" ∧
          ∃ out, restartLoop p allow 40 guestPath = .ok out ∧ hostPath = p.rootPath ++ out)) := by
  unfold guestPathResolve at h
  split at h
  · cases h
  rename_i rooted
  split at h
  · cases h
  rename_i guestPath normal
  refine ⟨rooted, guestPath, normal, ?_⟩
  split at h
  · rename_i result device
    obtain ⟨null, named⟩ := resolveGuestDevice_some device
    exact .inl ⟨null, named hostPath h⟩
  · rename_i other
    split at h
    · cases h
    · rename_i resolved ok
      dsimp only at h
      split at h
      · cases h
      · split at h
        · cases h
        · exact .inr ⟨resolveGuestDevice_none_iff.mp other, resolved,
            resolveGuestSymlinks_ok ok, (Except.ok.inj h).symm⟩

/-- A resolved path is the null device by its own name, or stays below the root:
every prefix of it was seen to be no link, except that the leaf may be missing
where the caller allows that. -/
theorem resolve_contained {p : Paths} {path : Option Text} {allowMissingLeaf : Bool}
    {hostPathSize : Nat} {hostPath : Text}
    (h : guestPathResolve p path allowMissingLeaf hostPathSize = .ok hostPath) :
    (normalizeGuestPath p path p.pathMax = .ok (bytes "/dev/null") ∧
      hostPath = bytes "/dev/null") ∨
    ∃ g, hostPath = p.rootPath ++ absolute g ∧ (∀ c ∈ g, Plain c) ∧
      ∀ k, 0 < k → k ≤ g.length →
        (∃ kind, p.host.lstat (p.rootPath ++ absolute (g.take k)) = .ok kind ∧
          kind ≠ .symlink) ∨
        (allowMissingLeaf = true ∧ k = g.length ∧
          p.host.lstat (p.rootPath ++ absolute (g.take k)) = .error .enoent) := by
  obtain ⟨-, guestPath, normal, ⟨rfl, null⟩ | ⟨-, out, resolved, rfl⟩⟩ := guestPathResolve_cases h
  · exact .inl ⟨normal, null⟩
  · obtain ⟨g, plain, rfl, seen⟩ := restartLoop_ok (normalizeGuestPath_ok normal) resolved
    refine .inr ⟨g, rfl, plain, ?_⟩
    intro k pos le
    simpa [Seen] using seen k pos le

/-- The tree of the smoke test: a link that climbs out of its directory. -/
def smokeTree : HostTree where
  lstat path :=
    if path = bytes "/root/tmp" ∨ path = bytes "/root/etc" then .ok .directory
    else if path = bytes "/root/tmp/link" then .ok .symlink
    else if path = bytes "/root/etc/passwd" then .ok .regular
    else .error .enoent
  readlink path :=
    if path = bytes "/root/tmp/link" then .ok (bytes "../../../etc/passwd") else .error .einval

theorem climbing_link_contained :
    let p : Paths := ⟨1024, bytes "/root", bytes "/tmp", smokeTree⟩
    guestPathResolve p (some (bytes "./link")) false 1024 = .ok (bytes "/root/etc/passwd") ∧
    ∃ g, bytes "/root/etc/passwd" = bytes "/root" ++ absolute g ∧ ∀ c ∈ g, Plain c := by
  intro p
  have ok : guestPathResolve p (some (bytes "./link")) false 1024 =
      .ok (bytes "/root/etc/passwd") := by decide +kernel
  refine ⟨ok, ?_⟩
  rcases resolve_contained ok with ⟨_, null⟩ | ⟨g, eq, plain, _⟩
  · exact absurd null (by decide +kernel)
  · exact ⟨g, eq, plain⟩

end Linuxemu.Path
