import DynamicObjects.Proofs.Bytes.Cutting
import Mathlib.Data.List.DropRight
import Mathlib.Data.List.Sort

/-!
Cutting at blanks. The parts are the maximal runs of other bytes, in order; with a limit they are the first
runs or the last ones, and the rest of the data from the next run on, or up to it. A run is described by its
places, so that reading the data backwards is the mirror image of all places.
-/
namespace DynamicObjects.Bytes

/-- There is a byte at this place, and it is not a blank. -/
def SolidAt (data : Bytes) (k : Nat) : Prop :=
  ∃ b, data[k]? = some b ∧ isBlank b = false

/-- From `i` up to `j` there are no blanks, and no more such bytes on either side. -/
structure MaximalRun (data : Bytes) (i j : Nat) : Prop where
  nonempty : i < j
  solid : ∀ k, i ≤ k → k < j → SolidAt data k
  before : ∀ k, k + 1 = i → ¬ SolidAt data k
  behind : ¬ SolidAt data j

structure RunPlaces (data : Bytes) (runs : List (Nat × Nat)) : Prop where
  mem_iff : ∀ i j, (i, j) ∈ runs ↔ MaximalRun data i j
  ordered : runs.Pairwise fun r s => r.2 < s.1

/-- What a walk from a place on meets: blanks, a run, and so on. -/
inductive RunsFrom (data : Bytes) : Nat → List (Nat × Nat) → Prop
  | nil {start : Nat} (blank : ∀ k, start ≤ k → ¬ SolidAt data k) : RunsFrom data start []
  | cons {start i j : Nat} {runs : List (Nat × Nat)} (le : start ≤ i)
      (blank : ∀ k, start ≤ k → k < i → ¬ SolidAt data k) (nonempty : i < j)
      (solid : ∀ k, i ≤ k → k < j → SolidAt data k) (behind : ¬ SolidAt data j)
      (rest : RunsFrom data j runs) : RunsFrom data start ((i, j) :: runs)

section Places

variable {data : Bytes} {i j k start : Nat} {runs : List (Nat × Nat)}

theorem SolidAt.lt_length (h : SolidAt data k) : k < data.length := by
  obtain ⟨b, item, -⟩ := h
  exact (List.getElem?_eq_some_iff.mp item).1

theorem MaximalRun.le_length (run : MaximalRun data i j) : j ≤ data.length := by
  have last := (run.solid (j - 1) (by have := run.nonempty; omega) (by have := run.nonempty; omega)).lt_length
  omega

theorem exists_runsFrom (data : Bytes) (start : Nat) : ∃ runs, RunsFrom data start runs := by
  classical
  by_cases more : ∃ k, start ≤ k ∧ SolidAt data k
  · have first := Nat.find_spec more
    have least {k : Nat} (h : k < Nat.find more) := Nat.find_min more h
    generalize Nat.find more = i at first least
    have ends : ∃ k, i ≤ k ∧ ¬ SolidAt data k :=
      ⟨data.length, first.2.lt_length.le, fun h => Nat.lt_irrefl _ h.lt_length⟩
    have last := Nat.find_spec ends
    have within {k : Nat} (h : k < Nat.find ends) := Nat.find_min ends h
    generalize Nat.find ends = j at last within
    have nonempty : i < j := by
      refine Nat.lt_of_le_of_ne last.1 ?_
      rintro rfl
      exact last.2 first.2
    have shorter : data.length - j < data.length - start := by
      have := first.2.lt_length
      omega
    obtain ⟨runs, rest⟩ := exists_runsFrom data j
    refine ⟨(i, j) :: runs, .cons first.1 (fun k le lt h => least lt ⟨le, h⟩) nonempty (fun k le lt => ?_) last.2 rest⟩
    by_contra h
    exact within lt ⟨le, h⟩
  · exact ⟨[], .nil fun k le h => more ⟨k, le, h⟩⟩
termination_by data.length - start

theorem RunsFrom.mem_iff (walk : RunsFrom data start runs)
    (edge : SolidAt data start → ∀ k, k + 1 = start → ¬ SolidAt data k) :
    (i, j) ∈ runs ↔ MaximalRun data i j ∧ start ≤ i := by
  induction walk with
  | nil blank =>
    refine ⟨nofun, fun ⟨run, le⟩ => absurd (run.solid i le_rfl run.nonempty) (blank i le)⟩
  | @cons start i' j' runs le blank nonempty solid behind rest ih =>
    rw [List.mem_cons, ih fun h => absurd h behind, Prod.mk.injEq]
    constructor
    · rintro (⟨rfl, rfl⟩ | ⟨run, le'⟩)
      · refine ⟨⟨nonempty, solid, fun k next => ?_, behind⟩, le⟩
        rcases Nat.lt_or_ge k start with front | inside
        · obtain rfl : i = start := by omega
          exact edge (solid i le_rfl nonempty) k next
        · exact blank k inside (by omega)
      · exact ⟨run, by omega⟩
    · rintro ⟨run, le'⟩
      rcases Nat.lt_trichotomy i i' with lt | rfl | gt
      · exact absurd (run.solid i le_rfl run.nonempty) (blank i le' lt)
      · left
        refine ⟨rfl, ?_⟩
        rcases Nat.lt_trichotomy j j' with lt | rfl | gt
        · exact absurd (solid j run.nonempty.le lt) run.behind
        · rfl
        · exact absurd (run.solid j' nonempty.le gt) behind
      · right
        refine ⟨run, Nat.le_of_not_lt fun lt => ?_⟩
        exact run.before (i - 1) (by omega) (solid (i - 1) (by omega) (by omega))

theorem RunsFrom.start_le (walk : RunsFrom data start runs) : ∀ r ∈ runs, start ≤ r.1 ∧ SolidAt data r.1 := by
  induction walk with
  | nil => exact nofun
  | cons le blank nonempty solid behind rest ih =>
    refine List.forall_mem_cons.mpr ⟨⟨le, solid _ le_rfl nonempty⟩, fun r here => ?_⟩
    have later := ih r here
    exact ⟨by omega, later.2⟩

theorem RunsFrom.ordered (walk : RunsFrom data start runs) : runs.Pairwise fun r s => r.2 < s.1 := by
  induction walk with
  | nil => exact .nil
  | @cons start i j runs le blank nonempty solid behind rest ih =>
    refine .cons (fun s here => ?_) ih
    obtain ⟨le', solid'⟩ := rest.start_le s here
    refine Nat.lt_of_le_of_ne le' ?_
    rintro rfl
    exact behind solid'

theorem RunsFrom.places (walk : RunsFrom data 0 runs) : RunPlaces data runs where
  mem_iff _ _ := (walk.mem_iff fun _ _ => nofun).trans (and_iff_left (Nat.zero_le _))
  ordered := walk.ordered

theorem RunPlaces.unique {runs' : List (Nat × Nat)} (places : RunPlaces data runs) (places' : RunPlaces data runs') :
    runs = runs' := by
  have increasing (runs : List (Nat × Nat)) (places : RunPlaces data runs) :
      runs.Pairwise fun r s => r.1 < s.1 := by
    refine places.ordered.imp_of_mem fun {r s} here there lt => ?_
    have := ((places.mem_iff r.1 r.2).mp here).nonempty
    omega
  have : Std.Irrefl fun r s : Nat × Nat => r.1 < s.1 := ⟨fun r => Nat.lt_irrefl _⟩
  have : Std.Antisymm fun r s : Nat × Nat => r.1 < s.1 := ⟨fun r s lt gt => absurd lt (Nat.lt_asymm gt)⟩
  exact (increasing _ places).eq_of_mem_iff (increasing _ places')
    fun (i, j) => (places.mem_iff i j).trans (places'.mem_iff i j).symm

theorem RunPlaces.runsFrom (places : RunPlaces data runs) : RunsFrom data 0 runs := by
  obtain ⟨runs', walk⟩ := exists_runsFrom data 0
  rwa [places.unique walk.places]

theorem solidAt_reverse : SolidAt data.reverse k ↔ k < data.length ∧ SolidAt data (data.length - 1 - k) := by
  constructor
  · rintro ⟨b, item, solid⟩
    have lt : k < data.length := by simpa using (List.getElem?_eq_some_iff.mp item).1
    rw [List.getElem?_reverse lt] at item
    exact ⟨lt, b, item, solid⟩
  · rintro ⟨lt, b, item, solid⟩
    rw [← List.getElem?_reverse lt] at item
    exact ⟨b, item, solid⟩

theorem MaximalRun.reverse (run : MaximalRun data i j) :
    MaximalRun data.reverse (data.length - j) (data.length - i) where
  nonempty := by
    have := run.nonempty
    have := run.le_length
    omega
  solid := fun k le lt => by
    have := run.le_length
    exact solidAt_reverse.mpr ⟨by omega, run.solid _ (by omega) (by omega)⟩
  before := fun k next h => by
    obtain ⟨lt, solid⟩ := solidAt_reverse.mp h
    refine run.behind ?_
    rwa [show data.length - 1 - k = j by omega] at solid
  behind := fun h => by
    have := run.nonempty
    have := run.le_length
    obtain ⟨lt, solid⟩ := solidAt_reverse.mp h
    exact run.before _ (by omega) solid

def mirrored (len : Nat) (r : Nat × Nat) : Nat × Nat := (len - r.2, len - r.1)

theorem RunPlaces.reverse (places : RunPlaces data runs) :
    RunPlaces data.reverse (runs.reverse.map (mirrored data.length)) where
  mem_iff := fun i j => by
    simp only [List.mem_map, List.mem_reverse, mirrored, Prod.mk.injEq, Prod.exists]
    constructor
    · rintro ⟨i', j', here, rfl, rfl⟩
      exact ((places.mem_iff i' j').mp here).reverse
    · intro run
      have turned := run.reverse
      have le := run.le_length
      have lt := run.nonempty
      rw [List.reverse_reverse, List.length_reverse] at turned
      rw [List.length_reverse] at le
      exact ⟨_, _, (places.mem_iff _ _).mpr turned, by omega, by omega⟩
  ordered := by
    rw [List.pairwise_map, List.pairwise_reverse]
    refine places.ordered.imp_of_mem fun {r s} here there lt => ?_
    have := ((places.mem_iff s.1 s.2).mp there).le_length
    have := ((places.mem_iff s.1 s.2).mp there).nonempty
    simp only [mirrored]
    omega

def piece (data : Bytes) (r : Nat × Nat) : Bytes := data.window r.1 r.2

def leftParts (data : Bytes) (runs : List (Nat × Nat)) (most : Nat) : List Bytes :=
  (runs.take most).map (piece data) ++ (runs.drop most).head?.toList.map fun r => data.drop r.1

def rightParts (data : Bytes) (runs : List (Nat × Nat)) (most : Nat) : List Bytes :=
  ((runs.take (runs.length - most)).getLast?.toList.map fun r => data.take r.2) ++
    (runs.drop (runs.length - most)).map (piece data)

theorem exists_of_mem_window {b : UInt8} (here : b ∈ data.window i j) : ∃ k, i ≤ k ∧ k < j ∧ data[k]? = some b := by
  obtain ⟨n, item⟩ := List.mem_iff_getElem?.mp here
  rw [window, List.getElem?_take, List.getElem?_drop] at item
  split at item
  next lt => exact ⟨i + n, Nat.le_add_right _ _, by omega, item⟩
  next => cases item

theorem span_drop {p : UInt8 → Bool} (le : start ≤ i)
    (all : ∀ k b, start ≤ k → k < i → data[k]? = some b → p b = true)
    (none : ∀ b, data[i]? = some b → p b = false) :
    (data.drop start).takeWhile p = data.window start i ∧ (data.drop start).dropWhile p = data.drop i := by
  have front : ∀ b ∈ data.window start i, p b = true := by
    intro b here
    obtain ⟨k, le, lt, item⟩ := exists_of_mem_window here
    exact all k b le lt item
  have split : data.drop start = data.window start i ++ data.drop i := by
    have cut := List.take_append_drop (i - start) (data.drop start)
    rw [List.drop_drop, Nat.add_sub_cancel' le] at cut
    exact cut.symm
  rw [split, List.takeWhile_append_of_pos front, List.dropWhile_append_of_pos front]
  cases rest : data.drop i with
  | nil => simp
  | cons b rest' =>
    have item : data[i]? = some b := by
      rw [← List.head?_drop, rest]
      rfl
    simp [none b item]

theorem not_solidAt_iff : ¬ SolidAt data k ↔ ∀ b, data[k]? = some b → isBlank b = true := by
  simp [SolidAt]

theorem runsLeft_step (most : Nat) (data : Bytes) :
    runsLeft most data =
      if (trimLeft isBlank data).isEmpty then []
      else
        match most with
        | 0 => [trimLeft isBlank data]
        | most + 1 =>
          (trimLeft isBlank data).takeWhile (!isBlank ·) ::
            runsLeft most ((trimLeft isBlank data).dropWhile (!isBlank ·)) := by
  cases most <;> rfl

theorem runsLeft_of_blank (blank : ∀ k, start ≤ k → ¬ SolidAt data k) (most : Nat) :
    runsLeft most (data.drop start) = [] := by
  have trimmed : trimLeft isBlank (data.drop start) = [] := by
    refine List.dropWhile_eq_nil_iff.mpr fun b here => ?_
    obtain ⟨n, item⟩ := List.mem_iff_getElem?.mp here
    rw [List.getElem?_drop] at item
    exact not_solidAt_iff.mp (blank (start + n) (Nat.le_add_right _ _)) b item
  rw [runsLeft_step, trimmed]
  rfl

theorem runsLeft_of_run (le : start ≤ i) (blank : ∀ k, start ≤ k → k < i → ¬ SolidAt data k) (nonempty : i < j)
    (solid : ∀ k, i ≤ k → k < j → SolidAt data k) (behind : ¬ SolidAt data j) (most : Nat) :
    runsLeft most (data.drop start) =
      match most with
      | 0 => [data.drop i]
      | most + 1 => piece data (i, j) :: runsLeft most (data.drop j) := by
  have first := solid i le_rfl nonempty
  have trimmed : trimLeft isBlank (data.drop start) = data.drop i := by
    refine (span_drop le (fun k b le lt => not_solidAt_iff.mp (blank k le lt) b) fun b item => ?_).2
    obtain ⟨b', item', isSolid⟩ := first
    obtain rfl := Option.some.inj (item.symm.trans item')
    exact isSolid
  have cut : (data.drop i).takeWhile (!isBlank ·) = data.window i j ∧
      (data.drop i).dropWhile (!isBlank ·) = data.drop j := by
    refine span_drop nonempty.le (fun k b le lt item => ?_) fun b item => ?_
    · obtain ⟨b', item', isSolid⟩ := solid k le lt
      obtain rfl := Option.some.inj (item.symm.trans item')
      rw [isSolid, Bool.not_false]
    · rw [not_solidAt_iff.mp behind b item, Bool.not_true]
  have more : (data.drop i).isEmpty = false := by
    rw [List.isEmpty_eq_false_iff]
    exact List.drop_eq_nil_iff.not.mpr (Nat.not_le_of_lt first.lt_length)
  rw [runsLeft_step, trimmed, more, cut.1, cut.2]
  rfl

theorem RunsFrom.runsLeft_eq (walk : RunsFrom data start runs) (most : Nat) :
    runsLeft most (data.drop start) = leftParts data runs most := by
  induction walk generalizing most with
  | nil blank =>
    rw [runsLeft_of_blank blank]
    simp [leftParts]
  | cons le blank nonempty solid behind rest ih =>
    rw [runsLeft_of_run le blank nonempty solid behind]
    cases most with
    | zero => simp [leftParts]
    | succ most => simp [ih, leftParts]

theorem runsLeft_eq (places : RunPlaces data runs) (most : Nat) : runsLeft most data = leftParts data runs most :=
  places.runsFrom.runsLeft_eq most

theorem reverse_drop_mirrored (inside : j ≤ data.length) :
    (data.reverse.drop (data.length - j)).reverse = data.take j := by
  rw [List.drop_reverse, List.reverse_reverse, Nat.sub_sub_self inside]

theorem reverse_piece (run : MaximalRun data i j) :
    (piece data.reverse (mirrored data.length (i, j))).reverse = piece data (i, j) := by
  have inside := run.le_length
  have nonempty := run.nonempty
  have whole : (data.take j).length = j := List.length_take_of_le inside
  have size : data.length - i - (data.length - j) = j - i := by omega
  have skipped : j - (j - i) = i := by omega
  simp only [piece, mirrored, window]
  rw [List.drop_reverse, Nat.sub_sub_self inside, size, List.take_reverse, List.reverse_reverse, whole, skipped,
    List.drop_take]

theorem runsRight_eq (places : RunPlaces data runs) (most : Nat) :
    (runsRight most data).reverse = rightParts data runs most := by
  have run (r : Nat × Nat) (here : r ∈ runs) := (places.mem_iff r.1 r.2).mp here
  rw [runsRight, runsLeft_eq places.reverse, leftParts, rightParts, List.map_append, List.reverse_append]
  congr 1
  · rw [← List.map_drop, List.drop_reverse, ← List.map_reverse, List.head?_map, List.head?_reverse]
    cases next : (runs.take (runs.length - most)).getLast? with
    | none => rfl
    | some r =>
      have here := List.mem_of_mem_take (List.mem_of_getLast? next)
      exact congrArg ([·]) (reverse_drop_mirrored (run r here).le_length)
  · rw [← List.map_take, List.take_reverse, List.map_map, List.map_map, ← List.map_reverse, List.reverse_reverse]
    exact List.map_congr_left fun r here => reverse_piece (run r (List.mem_of_mem_drop here))

theorem RunsFrom.length_le (walk : RunsFrom data start runs) (inside : start ≤ data.length) :
    runs.length + start ≤ data.length := by
  induction walk with
  | nil => simpa using inside
  | @cons start i j runs le blank nonempty solid behind rest ih =>
    have last := (solid (j - 1) (by omega) (by omega)).lt_length
    have := ih (by omega)
    rw [List.length_cons]
    omega

theorem RunPlaces.length_le (places : RunPlaces data runs) : runs.length ≤ data.length :=
  places.runsFrom.length_le (Nat.zero_le _)

theorem leftParts_min (data : Bytes) (runs : List (Nat × Nat)) (most : Nat) :
    leftParts data runs (min most runs.length) = leftParts data runs most := by
  rcases Nat.le_total most runs.length with few | many
  · rw [Nat.min_eq_left few]
  · simp [leftParts, Nat.min_eq_right many, List.take_of_length_le many, List.drop_eq_nil_of_le many]

theorem rightParts_min (data : Bytes) (runs : List (Nat × Nat)) (most : Nat) :
    rightParts data runs (min most runs.length) = rightParts data runs most := by
  have same : runs.length - min most runs.length = runs.length - most := by omega
  rw [rightParts, rightParts, same]

theorem leftParts_length (data : Bytes) (runs : List (Nat × Nat)) :
    leftParts data runs runs.length = runs.map (piece data) := by
  simp [leftParts]

theorem rightParts_length (data : Bytes) (runs : List (Nat × Nat)) :
    rightParts data runs runs.length = runs.map (piece data) := by
  simp [rightParts]

theorem length_head? {α : Type} (xs : List α) : xs.head?.toList.length = min xs.length 1 := by
  cases xs <;> simp

theorem length_leftParts (data : Bytes) (runs : List (Nat × Nat)) (most : Nat) :
    (leftParts data runs most).length = min runs.length (most + 1) := by
  simp only [leftParts, List.length_append, List.length_map, List.length_take, length_head?, List.length_drop]
  omega

theorem length_rightParts (data : Bytes) (runs : List (Nat × Nat)) (most : Nat) :
    (rightParts data runs most).length = min runs.length (most + 1) := by
  simp only [rightParts, List.length_append, List.length_map, List.length_drop, List.getLast?_eq_head?_reverse,
    length_head?, List.length_reverse, List.length_take]
  omega

def runsRightLoop (most : Nat) (data : Bytes) : List Bytes :=
  let rest := data.rdropWhile isBlank
  if rest.isEmpty then []
  else
    match most with
    | 0 => [rest]
    | most + 1 => rest.rtakeWhile (!isBlank ·) :: runsRightLoop most (rest.rdropWhile (!isBlank ·))

theorem runsRightLoop_eq (most : Nat) (data : Bytes) : runsRightLoop most data = runsRight most data := by
  have turned (p : UInt8 → Bool) (xs : Bytes) : xs.reverse.dropWhile p = (xs.rdropWhile p).reverse :=
    (List.reverse_reverse _).symm
  induction most generalizing data with
  | zero =>
    rw [runsRight, runsLeft_step, trimLeft, turned, runsRightLoop]
    by_cases none : data.rdropWhile isBlank = [] <;> simp [none]
  | succ most ih =>
    rw [runsRight, runsLeft_step, trimLeft, turned, runsRightLoop, turned]
    by_cases none : data.rdropWhile isBlank = []
    · simp [none]
    · have more : (data.rdropWhile isBlank).isEmpty = false := List.isEmpty_eq_false_iff.mpr none
      have more' : (data.rdropWhile isBlank).reverse.isEmpty = false := by simpa using none
      simp only [more, more', ih]
      rfl

theorem split_blanks (places : RunPlaces data runs) (most : Int) :
    data.split none most = .ok (leftParts data runs (taken most runs.length)) := by
  rw [split, runsLeft_eq places, ← leftParts_min, min_limit most (Nat.le_succ_of_le places.length_le)]

theorem rsplit_blanks (places : RunPlaces data runs) (most : Int) :
    data.rsplit none most = .ok (rightParts data runs (taken most runs.length)) := by
  rw [rsplit, runsRight_eq places, ← rightParts_min, min_limit most (Nat.le_succ_of_le places.length_le)]

theorem RunPlaces.looped (places : RunPlaces data runs) (fits : (data.length : Int) ≤ Word.greatest) (most : Int) :
    data.split none most = .ok (runsLeft (sizeLimit most) data) ∧
      data.rsplit none most = .ok (runsRightLoop (sizeLimit most) data).reverse := by
  have few : runs.length ≤ Word.sizeMax := by
    have := places.length_le
    unfold Word.greatest at fits
    unfold Word.sizeMax
    omega
  rw [split_blanks places, rsplit_blanks places, runsRightLoop_eq, runsRight_eq places, runsLeft_eq places,
    ← leftParts_min data runs (sizeLimit most), ← rightParts_min data runs (sizeLimit most), min_sizeLimit most few]
  exact ⟨rfl, rfl⟩

theorem RunPlaces.nil_not_mem (places : RunPlaces data runs) : [] ∉ runs.map (piece data) := by
  intro here
  obtain ⟨⟨i, j⟩, here, empty⟩ := List.mem_map.mp here
  have run := (places.mem_iff i j).mp here
  have inside := run.le_length
  have nonempty := run.nonempty
  have size := congrArg List.length empty
  simp only [piece, window, List.length_take, List.length_drop, List.length_nil] at size
  omega

end Places

/-- Cut at blanks, data give their maximal runs of other bytes, and these from the left or from the right alike if
there is no limit. With a limit they give so many of the first runs, and then the rest with its blanks from the
next run on; or from the right so many of the last runs behind the rest that ends with the run before. -/
theorem runs_cut (data : Bytes) :
    ∃ runs, RunPlaces data runs ∧
      [] ∉ runs.map (piece data) ∧
      (∀ most : Int, most < 0 → data.split none most = .ok (runs.map (piece data)) ∧
        data.rsplit none most = .ok (runs.map (piece data))) ∧
      (∀ most : Nat, data.split none most = .ok (leftParts data runs most) ∧
        data.rsplit none most = .ok (rightParts data runs most) ∧
        (leftParts data runs most).length = min runs.length (most + 1) ∧
        (rightParts data runs most).length = min runs.length (most + 1)) ∧
      ((data.length : Int) ≤ Word.greatest → ∀ most : Int,
        data.split none most = .ok (runsLeft (sizeLimit most) data) ∧
        data.rsplit none most = .ok (runsRightLoop (sizeLimit most) data).reverse) := by
  obtain ⟨runs, walk⟩ := exists_runsFrom data 0
  have places := walk.places
  refine ⟨runs, places, places.nil_not_mem, fun most unlimited => ?_, fun most => ?_,
    fun fits most => places.looped fits most⟩
  · have all : taken most runs.length = runs.length := if_pos unlimited
    rw [split_blanks places, rsplit_blanks places, all, leftParts_length, rightParts_length]
    exact ⟨rfl, rfl⟩
  · have some : taken most runs.length = min most runs.length := by
      rw [taken, if_neg (by omega), Int.toNat_natCast, Nat.min_comm]
    rw [split_blanks places, rsplit_blanks places, some, leftParts_min, rightParts_min]
    exact ⟨rfl, rfl, length_leftParts data runs most, length_rightParts data runs most⟩

/-- Blanks on both ends and two of them between the runs, next to the limit. -/
theorem runs_cut_once :
    ∃ runs, RunPlaces [32, 97, 9, 32, 98, 98, 10] runs ∧
      runs.map (piece [32, 97, 9, 32, 98, 98, 10]) = [[97], [98, 98]] ∧
      split [32, 97, 9, 32, 98, 98, 10] none (-1) = rsplit [32, 97, 9, 32, 98, 98, 10] none (-1) ∧
      leftParts [32, 97, 9, 32, 98, 98, 10] runs 1 = [[97], [98, 98, 10]] ∧
      rightParts [32, 97, 9, 32, 98, 98, 10] runs 1 = [[32, 97], [98, 98]] ∧
      (runsRightLoop (sizeLimit 1) [32, 97, 9, 32, 98, 98, 10]).reverse = [[32, 97], [98, 98]] := by
  obtain ⟨runs, places, -, unlimited, limited, looped⟩ := runs_cut [32, 97, 9, 32, 98, 98, 10]
  obtain ⟨all, all'⟩ := unlimited (-1) (by decide)
  obtain ⟨first, last, -⟩ := limited 1
  obtain ⟨-, loop⟩ := looped (by decide) 1
  exact ⟨runs, places, Except.ok.inj all.symm, all.trans all'.symm, Except.ok.inj first.symm,
    Except.ok.inj last.symm, Except.ok.inj loop.symm⟩

end DynamicObjects.Bytes
