import Linuxemu.HostSpans

/-! Memory that only the process has, and changes of host memory that leave what is
mapped alone. -/
namespace Linuxemu.Guest
open Lib Registry
variable {h h' : Host} {address length start a : Nat}
variable {place : Place (Option Nat)} {allowed : Page → Bool} {protection : Protection}
  {flags : MapFlags} {descriptor offset : Int} {word : UInt32} {result : Nat}

/-! ## Memory of the process's own -/

/-- The page at an address holds bytes of the process's own. -/
def Host.Own (h : Host) (address : Nat) : Prop :=
  ∃ page, h.page address = some page ∧ page.shared = none ∧ page.absent = false

theorem access_own (own : h.Own address) (found : h.access allowed address = some place) :
    place = ⟨none, address⟩ := by
  obtain ⟨page, there, shared, -⟩ := own
  rw [Host.access, there] at found
  dsimp only at found
  split at found
  · rw [Host.placeOn, shared] at found
    exact (Option.some.inj found).symm
  · cases found

theorem access_any_own (own : h.Own address) :
    h.access (fun _ => true) address = some ⟨none, address⟩ := by
  obtain ⟨page, there, shared, absent⟩ := own
  rw [Host.access, there]
  simp [Host.placeOn, shared, absent]

theorem peek_own (own : h.Own address) :
    h.peek address = some (wordAt h.bytes ⟨none, address⟩) := by
  rw [Host.peek, Host.wordVia, access_any_own own, Option.map_some]

theorem Host.Own.congr (own : h.Own a) (page : h'.page a = h.page a) : h'.Own a := by
  obtain ⟨p, there, kind⟩ := own
  exact ⟨p, page.trans there, kind⟩

theorem page_aligned (h : Host) {k : Nat} (aligned : address % 4 = 0) (small : k < 4) :
    (address + k) / h.pageSize.bytes = address / h.pageSize.bytes := by
  obtain ⟨quarter, whole⟩ := h.pageSize.four_dvd
  rw [whole, ← Nat.div_div_eq_div_mul, ← Nat.div_div_eq_div_mul]
  congr 1
  omega

/-- A change of host memory that keeps every mapped page and its bytes. -/
structure HostKept (h h' : Host) : Prop where
  pageSize : h'.pageSize = h.pageSize
  page : ∀ a, (h.page a).isSome = true → h'.page a = h.page a
  bytes : ∀ a, (h.page a).isSome = true → h'.bytes ⟨none, a⟩ = h.bytes ⟨none, a⟩

theorem HostKept.own (kept : HostKept h h') (own : h.Own a) : h'.Own a := by
  obtain ⟨page, there, kind⟩ := own
  exact Host.Own.congr ⟨page, there, kind⟩ (kept.page a (Option.isSome_iff_exists.mpr ⟨page, there⟩))

theorem HostKept.peek (kept : HostKept h h') (own : h.Own a) (aligned : a % 4 = 0) :
    h'.peek a = h.peek a := by
  rw [peek_own own, peek_own (kept.own own)]
  congr 1
  apply wordAt_congr
  intro k small
  apply kept.bytes (a + k)
  obtain ⟨page, there, -⟩ := own
  rw [Host.page, page_aligned h aligned small]
  exact Option.isSome_iff_exists.mpr ⟨page, there⟩

/-- A word stored in memory of the process's own leaves its other words. -/
theorem peek_storeWord_own {other : Nat} (stored : h.storeWord address word = some h')
    (own : h.Own address) (ownOther : h.Own other) (aligned : address % 4 = 0)
    (alignedOther : other % 4 = 0) (distinct : other ≠ address) :
    h'.peek other = h.peek other := by
  obtain ⟨place, found, rfl⟩ := storeWord_some stored
  obtain rfl := access_own own found
  have kept : ({ h with bytes := setWord h.bytes ⟨none, address⟩ word } : Host).Own other :=
    ownOther.congr rfl
  rw [peek_own kept, peek_own ownOther, wordAt_setWord_ne _ _ aligned alignedOther]
  intro same
  exact distinct (congrArg Place.index same)

/-! ## Fresh pages -/

/-- A change of host memory on pages that were free. -/
structure OnFree (h : Host) (start length : Nat) (h' : Host) : Prop where
  aligned : start % h.pageSize.bytes = 0
  free : ∀ page, h.inSpan start length page = true → h.pages page = none
  pageSize : h'.pageSize = h.pageSize
  pages : ∀ page, h.inSpan start length page = false → h'.pages page = h.pages page
  bytes : ∀ a, a < start ∨ start + h.pageCount length * h.pageSize.bytes ≤ a →
    h'.bytes ⟨none, a⟩ = h.bytes ⟨none, a⟩

theorem OnFree.kept (change : OnFree h start length h') :
    HostKept h h' := by
  have outside (a : Nat) (there : (h.page a).isSome = true) :
      h.inSpan start length (a / h.pageSize.bytes) = false := by
    by_contra inside
    rw [Host.page, change.free _ (by simpa using inside)] at there
    cases there
  refine ⟨change.pageSize, ?_, ?_⟩
  · intro a there
    rw [Host.page, change.pageSize]
    exact change.pages _ (outside a there)
  · intro a there
    apply change.bytes
    by_contra inside
    have member := (inSpan_iff h change.aligned length a).mpr (by omega)
    rw [outside a there] at member
    cases member

theorem granted_onFree {after : Host}
    (granted : h.Granted address length protection flags descriptor offset result after)
    (loose : flags.fixed = false) : OnFree h result length after := by
  refine ⟨granted.aligned, granted.free loose, ?_, ?_, ?_⟩
  · rw [granted.after]
    rfl
  · intro page outside
    rw [granted.after]
    simp [Host.map, outside]
  · intro a outside
    rw [granted.after]
    simp only [Host.map, Host.fill]
    rw [if_neg (by simp only [true_and]; omega)]

theorem OnFree.munmap (change : OnFree h start length h') :
    OnFree h start length (h'.munmap start length) := by
  refine ⟨change.aligned, change.free, change.pageSize, ?_, change.bytes⟩
  intro page outside
  show (if h'.inSpan start length page then none else h'.pages page) = h.pages page
  rw [inSpan_congr change.pageSize, outside]
  exact change.pages page outside

theorem OnFree.fill (change : OnFree h start length h') {count : Nat} (value : Nat → UInt8)
    (low : start ≤ address)
    (high : address + count ≤ start + h.pageCount length * h.pageSize.bytes) :
    OnFree h start length (h'.fill address count value) := by
  refine ⟨change.aligned, change.free, change.pageSize, change.pages, ?_⟩
  intro a outside
  simp only [Host.fill]
  rw [if_neg (by simp only [true_and]; omega)]
  exact change.bytes a outside

/-- Anonymous memory from the host is the process's own. -/
theorem granted_own {host : Host}
    (granted : h.Granted address length protection flags descriptor offset result host)
    (anonymous : flags.anonymous = true) {a : Nat} (low : result ≤ a) (high : a < result + length) :
    host.Own a := by
  have inside : h.inSpan result length (a / h.pageSize.bytes) = true :=
    (inSpan_iff h granted.aligned length a).mpr
      ⟨low, Nat.lt_of_lt_of_le high (Nat.add_le_add_left (le_pageCount_mul h length) _)⟩
  refine ⟨⟨protection, none, false⟩, ?_, rfl, rfl⟩
  rw [granted.after]
  show (if h.inSpan result length (a / h.pageSize.bytes) then _ else _) = _
  rw [if_pos inside, Host.backing, anonymous]
  rfl

/-- Pages that were free, mapped and unmapped again. -/
theorem OnFree.munmap_pages (change : OnFree h start length h') :
    (h'.munmap start length).pages = h.pages := by
  funext page
  show (if h'.inSpan start length page then none else h'.pages page) = h.pages page
  rw [inSpan_congr change.pageSize]
  split
  · rename_i inside
    exact (change.free page inside).symm
  · rename_i outside
    exact change.pages page (by simpa using outside)

/-! ## What is mapped is left alone -/

/-- Mapped pages and their bytes are kept, and so are files. -/
structure Intact (h h' : Host) : Prop where
  kept : HostKept h h'
  files : FilesKept h h'

section
variable {h h' : Host} {address : Nat}

theorem Intact.refl (h : Host) : Intact h h := ⟨⟨rfl, fun _ _ => rfl, fun _ _ => rfl⟩, .refl h⟩

theorem Intact.trans {a b c : Host} (first : Intact a b) (second : Intact b c) : Intact a c := by
  have still {q : Nat} (there : (a.page q).isSome = true) : (b.page q).isSome = true := by
    rw [first.kept.page q there]
    exact there
  refine ⟨⟨second.kept.pageSize.trans first.kept.pageSize, ?_, ?_⟩, first.files.trans second.files⟩
  · exact fun q there => (second.kept.page q (still there)).trans (first.kept.page q there)
  · exact fun q there => (second.kept.bytes q (still there)).trans (first.kept.bytes q there)

theorem Intact.access (same : Intact h h') (found : h.access allowed address = some place) :
    h'.access allowed address = some place := by
  cases there : h.page address with
  | none =>
    rw [Host.access, there] at found
    cases found
  | some page =>
    rw [← found, Host.access, Host.access, same.kept.page address (by simp [there]), there]
    simp only [Host.placeOn, same.kept.pageSize]

/-- The words of mapped memory are as they were. -/
theorem Intact.peek (same : Intact h h') (pages : h'.pages = h.pages) (aligned : address % 4 = 0) :
    h'.peek address = h.peek address := by
  have found : h'.access (fun _ => true) address = h.access (fun _ => true) address :=
    access_congr same.kept.pageSize pages _ _
  rw [Host.peek, Host.peek, Host.wordVia, Host.wordVia, found]
  cases there : h.page address with
  | none => simp [Host.access, there]
  | some page =>
    have mapped (k : Nat) (small : k < 4) : (h.page (address + k)).isSome = true := by
      rw [Host.page, page_aligned h aligned small]
      exact Option.isSome_iff_exists.mpr ⟨page, there⟩
    apply Option.map_congr
    intro place place_eq
    apply wordAt_congr
    intro k small
    rw [Host.access, there] at place_eq
    dsimp only at place_eq
    split at place_eq
    · cases place_eq
      unfold Host.placeOn
      split
      · exact same.kept.bytes (address + k) (mapped k small)
      · exact same.files.bytes _ _
    · cases place_eq

/-- A word can be stored in both, and they stay alike. -/
theorem Intact.storeWord (same : Intact h h') {g : Host}
    (stored : h.storeWord address word = some g) :
    ∃ g', h'.storeWord address word = some g' ∧ Intact g g' := by
  obtain ⟨place, found, rfl⟩ := storeWord_some stored
  have alike (p : Place (Option Nat)) (old : h'.bytes p = h.bytes p) :
      setWord h'.bytes place word p = setWord h.bytes place word p := by
    unfold setWord
    rw [old]
  refine ⟨{ h' with bytes := setWord h'.bytes place word }, ?_, ⟨?_, ?_, ?_⟩, ?_, ?_, ?_, ?_⟩
  · rw [Host.storeWord, same.access found]
    rfl
  · exact same.kept.pageSize
  · exact same.kept.page
  · exact fun a there => alike _ (same.kept.bytes a there)
  · exact same.files.pageSize
  · exact same.files.inode
  · exact same.files.size
  · exact fun f i => alike _ (same.files.bytes f i)

end

end Linuxemu.Guest
