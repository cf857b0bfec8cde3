import Linuxemu.HeapWindow
import Linuxemu.LoadedObject

/-! A load that fails leaves nothing behind, whichever of its objects, attempts and checks
it fails in. -/
namespace Linuxemu.Guest
open Lib Registry
variable {m n a : Machine}

theorem Grown.undoLoad (grown : Grown m n) :
    ∃ m', undoLoad m n = some m' ∧ m.SameMemory m' := by
  obtain ⟨image, undone, same, -⟩ := grown.undone
  exact ⟨_, by rw [Guest.undoLoad, undone], same⟩

/-- Attempts that are taken back come to nothing; one that is not adds its object. -/
theorem loadAttempts_grown {descriptor : Int} {header : List UInt8}
    {headers : List ElfProgramHeader} {fileSize : Nat} {tries : List (Nat × AttemptHost)}
    {result : Except Errno Nat} (grown : Grown m a)
    (done : loadAttempts descriptor header headers fileSize tries a = some (result, n)) :
    Grown m n := by
  induction tries generalizing a with
  | nil =>
    cases done
    exact grown
  | cons x rest ih =>
    obtain ⟨bias, e⟩ := x
    unfold loadAttempts at done
    split at done
    · cases done
    · rename_i loaded
      cases done
      exact attempt_grown grown (loadAttempt_attempt loaded)
    · rename_i b failed
      obtain ⟨image, undone, same, intact⟩ :=
        (attempt_grown (.refl a) (loadAttempt_attempt failed)).undone
      have next := grown.keep same.segments same.patches same.pages intact
      rw [undone] at done
      dsimp only at done
      split at done
      · cases done
        exact next
      · exact ih next done

theorem loadElfObject_grown {dynamicBias : Nat} {allowExecutable : Bool} {capacity : Option Nat}
    {e : LoadHost} {result : Except Errno (ElfObject × List UInt8)} (grown : Grown m a)
    (done : loadElfObject dynamicBias allowExecutable capacity e a = some (result, n)) :
    Grown m n := by
  obtain ⟨-, rfl⟩ | ⟨descriptor, inode, -, -, fileSize, tries, outcome, tried⟩ :=
    loadElfObject_cases done
  · exact grown
  · exact loadAttempts_grown grown tried.loaded

section
variable {p : Path.Paths} {e : ImageHost} {m n : Machine} {result : Except Errno GuestImage}

theorem loadObjects_grown (done : loadObjects p e m = some (result, n)) : Grown m n := by
  unfold loadObjects at done
  split at done
  · cases done
  · rename_i failed
    cases done
    exact loadElfObject_grown (.refl m) failed
  · rename_i main interpreter a loaded
    have first := loadElfObject_grown (.refl m) loaded
    split at done
    · cases done
      exact first
    split at done
    · cases done
      exact first
    split at done
    · cases done
    · rename_i failed
      cases done
      exact loadElfObject_grown first failed
    · rename_i second
      cases done
      exact loadElfObject_grown first second

theorem prepareGuestImage_grown (done : prepareGuestImage p e m = some (result, n)) :
    Grown m n := by
  unfold prepareGuestImage at done
  split at done
  · cases done
  · rename_i failed
    cases done
    exact loadObjects_grown failed
  · rename_i image a loaded
    have grown := loadObjects_grown loaded
    split at done
    · cases done
      exact grown
    split at done
    · cases done
      exact grown
    · rename_i ready
      cases done
      unfold guestBrkInitialize at ready
      split at ready
      · cases ready
      · cases ready
        exact grown.keep rfl rfl rfl (.refl _)

/-- As long as no protection has changed, finalizing has done nothing. -/
theorem finalize_grown {answer : LoadSegment → Option Errno × Option Errno} {error : Option Errno}
    (grown : Grown m n) (done : guestMemoryFinalize answer n = (error, a))
    (pages : a.image.host.pages = n.image.host.pages) : Grown m a := by
  obtain ⟨left, calls, frame, -⟩ := finalizeSegments_frame answer n.loadSegments n
  obtain rfl := (congrArg Prod.snd done).symm.trans frame
  obtain rfl : left = n.image.host.pages := pages
  exact grown.keep rfl rfl rfl (.refl _)

end

/-- A failed attempt is taken back, and so is a failed load whose segments all still have the
protection they were mapped with. -/
theorem failed_load_leaves_nothing (p : Path.Paths) (m : Machine) :
    (∀ descriptor header headers fileSize loadBias e errno n,
      loadAttempt descriptor header headers fileSize loadBias e m = some (some errno, n) →
        ∃ m', undoLoad m n = some m' ∧ m.SameMemory m') ∧
    ∀ e errno m', loadGuestImage p e m = some (.error errno, m') →
      (∀ image n, prepareGuestImage p e m = some (.ok image, n) →
        (guestMemoryFinalize e.finalize n).2.image.host.pages = n.image.host.pages) →
      m.SameMemory m' := by
  constructor
  · intro descriptor header headers fileSize loadBias e errno n failed
    exact (attempt_grown (.refl m) (loadAttempt_attempt failed)).undoLoad
  · intro e errno m' failed unchanged
    unfold loadGuestImage at failed
    split at failed
    · cases failed
    · rename_i n stopped
      obtain ⟨last, undone, same⟩ := (prepareGuestImage_grown stopped).undoLoad
      rw [undone] at failed
      cases failed
      exact same
    · rename_i image n ready
      have grown := prepareGuestImage_grown ready
      have pages := unchanged image n ready
      split at failed
      · cases failed
      · rename_i after finalized
        obtain ⟨last, undone, same⟩ :=
          (finalize_grown grown finalized (by rwa [finalized] at pages)).undoLoad
        rw [undone] at failed
        cases failed
        exact same

theorem finalize_refused (errno : Errno) (n : Machine) :
    (guestMemoryFinalize (fun _ => (some errno, none)) n).2.image = n.image := by
  unfold guestMemoryFinalize
  cases n.loadSegments with
  | nil => rfl
  | cons x rest => rfl

/-- A tree with nothing in it. -/
def emptyTree : Path.Paths :=
  ⟨1024, [47], [47], ⟨fun _ => .error .enoent, fun _ => .error .enoent⟩⟩

/-- The host refuses to protect the first segment. -/
def refusedImage : Option (Except Errno GuestImage × Machine) :=
  loadGuestImage emptyTree ⟨smallAnswers, smallAnswers, fun _ => (some .enomem, none), .enoexec⟩
    bareMachine

theorem refused_image_leaves_nothing :
    refusedImage = some (.error .enomem, after bareMachine refusedImage) ∧
      bareMachine.SameMemory (after bareMachine refusedImage) := by
  have failed : refusedImage = some (.error .enomem, after bareMachine refusedImage) :=
    after_eq (by decide +kernel)
  refine ⟨failed, (failed_load_leaves_nothing emptyTree bareMachine).2 _ _ _ failed ?_⟩
  intro image n _
  exact congrArg (fun image : Image => image.host.pages) (finalize_refused .enomem n)

end Linuxemu.Guest
