import Linuxemu.PathWalk

/-! The host path of the place that a guest path leads to. Links are expanded until none is left,
so what they lead to decides the path below the root; the null device is looked for once, in the
path as it was given. -/
namespace Linuxemu.Path
open Lib
variable {names q : List Text} {p : Paths} {f : HostFiles}

/-! ## The chain of links -/

/-- A pass fails, reaches the end of names without a link, or stops at the first link. -/
inductive Passes : Option (List Text × Bool × List (Step Text) × List Text) → Walk → Prop
  | failed {first : Option (List Text × Bool × List (Step Text) × List Text)} (e : Errno) :
      Passes first (.fail e)
  | free : Passes none .done
  | link {path rest : List Text} {root : Bool} {target : List (Step Text)} {text : Text}
      (slashed : text.head? = some slash)
      (scanned : normal [] (steps text) = normal (origin path root) target ++ rest) :
      Passes (some (path, root, target, rest)) (.link text)

end Linuxemu.Path
