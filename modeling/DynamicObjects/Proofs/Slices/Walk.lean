import DynamicObjects.Slice
import Mathlib.Data.List.Nodup
import Mathlib.Data.List.Perm.Subperm
import Mathlib.Tactic.Ring

/-!
Slices as walks. A slice is read the slow way: where it begins and where it stops follow from the
direction, a negative bound counts from the end once, both are clamped, and then one step is taken after
the other while the place is before the stop. The progression that a slice is resolved into has exactly
the places of this walk. The step of a walk is the one that is written, also where negating it would
leave the words.
-/
namespace DynamicObjects

namespace Slice

def writtenStep (s : Slice) : Int := (s.step.map Int64.toInt).getD 1

/-- A bound counted from the end once if it is negative, and clamped. -/
def clampedBound (len low high : Int) (bound : Int64) : Int :=
  max low (min high (if bound.toInt < 0 then bound.toInt + len else bound.toInt))

/-- Where the walk begins: forwards at the front and backwards at the last place, unless it is said. -/
def walkStart (s : Slice) (len : Int) : Int :=
  if s.writtenStep < 0 then (s.start.map (clampedBound len (-1) (len - 1))).getD (len - 1)
  else (s.start.map (clampedBound len 0 len)).getD 0

def walkStop (s : Slice) (len : Int) : Int :=
  if s.writtenStep < 0 then (s.stop.map (clampedBound len (-1) (len - 1))).getD (-1)
  else (s.stop.map (clampedBound len 0 len)).getD len

/-- Whether a place comes before the stop in the direction of a step. -/
def Before (step stop place : Int) : Prop :=
  0 < step ∧ place < stop ∨ step < 0 ∧ stop < place

instance (step stop place : Int) : Decidable (Before step stop place) :=
  inferInstanceAs (Decidable (_ ∨ _))

def walk (step stop place : Int) : List Int :=
  if Before step stop place then place :: walk step stop (place + step) else []
termination_by (if 0 < step then stop - place else place - stop).toNat
decreasing_by
  simp only [Before] at *
  split <;> omega

def places (s : Slice) (len : Nat) : List Int :=
  walk s.writtenStep (s.walkStop len) (s.walkStart len)

/-- How many steps of a size fit into a distance, the first place included. -/
def stepsIn (distance size : Int) : Nat :=
  if 0 < distance then ((distance - 1) / size + 1).toNat else 0

theorem stepsIn_of_pos {distance size : Int} (far : 0 < distance) (positive : 0 < size) :
    stepsIn distance size = stepsIn (distance - size) size + 1 := by
  have shorter : (distance - 1) / size = (distance - size - 1) / size + 1 := by
    rw [show distance - 1 = distance - size - 1 + 1 * size by omega,
      Int.add_mul_ediv_right _ _ (by omega)]
  unfold stepsIn
  rw [if_pos far]
  split
  · have nonneg : 0 ≤ (distance - size - 1) / size := Int.ediv_nonneg (by omega) (by omega)
    omega
  · have last : (distance - 1) / size = 0 := Int.ediv_eq_zero_of_lt (by omega) (by omega)
    simp [last]

theorem countBetween_eq (place stop step : Int) :
    countBetween place stop step =
      if step < 0 then stepsIn (place - stop) (-step) else stepsIn (stop - place) step := by
  unfold countBetween stepsIn
  simp only [Int.sub_pos]

theorem countBetween_of_not_before {step stop place : Int} (nonzero : step ≠ 0)
    (h : ¬ Before step stop place) : countBetween place stop step = 0 := by
  unfold Before at h
  unfold countBetween
  split
  · rw [if_neg (by omega)]
  · rw [if_neg (by omega)]

theorem countBetween_of_before {step stop place : Int} (h : Before step stop place) :
    countBetween place stop step = countBetween (place + step) stop step + 1 := by
  rw [countBetween_eq, countBetween_eq]
  rcases h with ⟨positive, below⟩ | ⟨negative, above⟩
  · rw [if_neg (by omega), if_neg (by omega), stepsIn_of_pos (by omega) positive]
    congr 2
    omega
  · rw [if_pos negative, if_pos negative, stepsIn_of_pos (by omega) (by omega)]
    congr 2
    omega

/-- A walk has as many places as are counted, and each is so many steps from the first. -/
theorem walk_eq {step : Int} (nonzero : step ≠ 0) (stop place : Int) :
    walk step stop place =
      (List.range (countBetween place stop step)).map fun i : Nat => place + i * step := by
  fun_induction walk step stop place with
  | case1 place before ih =>
    rw [ih, countBetween_of_before before, List.range_succ_eq_map, List.map_cons, List.map_map]
    congr 1
    · simp
    · apply List.map_congr_left
      intro i _
      simp
      ring
  | case2 place after => simp [countBetween_of_not_before nonzero after]

/-- A step over the stop is the last one, however large it is. -/
theorem walk_of_far {step step' stop place : Int} (backwards : step < 0) (backwards' : step' < 0)
    (far : place + step ≤ stop) (far' : place + step' ≤ stop) :
    walk step stop place = walk step' stop place := by
  have single (n : Int) (negative : n < 0) (past : place + n ≤ stop) :
      walk n stop place = if stop < place then [place] else [] := by
    have ended : ¬ Before n stop (place + n) := by
      unfold Before
      omega
    have first : Before n stop place ↔ stop < place := by
      unfold Before
      omega
    rw [walk, walk]
    simp only [first, ended, if_false]
  rw [single step backwards far, single step' backwards' far']

theorem lt_stepsIn_iff {distance size : Int} (positive : 0 < size) (i : Nat) :
    i < stepsIn distance size ↔ i * size < distance := by
  have le : (i : Int) ≤ (distance - 1) / size ↔ i * size ≤ distance - 1 :=
    Int.le_ediv_iff_mul_le positive
  have nonneg : 0 ≤ i * size := Int.mul_nonneg (by omega) (by omega)
  unfold stepsIn
  split <;> omega

theorem between_of_lt_count {step stop place : Int} {i : Nat}
    (h : i < countBetween place stop step) :
    if step < 0 then stop < place + i * step ∧ place + i * step ≤ place
    else 0 < step → place ≤ place + i * step ∧ place + i * step < stop := by
  rw [countBetween_eq] at h
  split at h
  · rw [lt_stepsIn_iff (by omega), Int.mul_neg] at h
    have falling : i * step ≤ 0 := Int.mul_nonpos_of_nonneg_of_nonpos (by omega) (by omega)
    simp only [*, if_true]
    omega
  · simp only [*, if_false]
    intro positive
    rw [lt_stepsIn_iff positive] at h
    have rising : 0 ≤ i * step := Int.mul_nonneg (by omega) (by omega)
    omega

variable {s : Slice} {len : Nat}

theorem stride_eq (s : Slice) : s.stride = max s.writtenStep (-Word.greatest) := by
  unfold stride writtenStep
  cases s.step with
  | none => decide
  | some step => rfl

theorem writtenStep_ne_zero (h : s.step ≠ some 0) : s.writtenStep ≠ 0 := by
  unfold writtenStep
  cases step : s.step with
  | none => simp
  | some n =>
    intro zero
    apply h
    rw [step, Int64.toInt_inj.mp (zero.trans Int64.toInt_zero.symm)]

theorem stride_neg_iff (s : Slice) : s.stride < 0 ↔ s.writtenStep < 0 := by
  rw [stride_eq]
  unfold Word.greatest
  omega

theorem stride_ne_zero (h : s.step ≠ some 0) : s.stride ≠ 0 := by
  have nonzero := writtenStep_ne_zero h
  rw [stride_eq]
  unfold Word.greatest
  omega

theorem adjustBound_eq (bound : Int64) {len : Int} (nonneg : 0 ≤ len) (step : Int) :
    adjustBound bound.toInt len step =
      if step < 0 then clampedBound len (-1) (len - 1) bound else clampedBound len 0 len bound := by
  unfold adjustBound clampedBound
  split <;> split <;> split <;> omega

theorem clampLength_eq (fits : (len : Int) ≤ Word.greatest) : clampLength len = len := by
  unfold clampLength
  omega

/-- A slice whose step is not zero is resolved to the ends of its walk. -/
theorem indices_eq (h : s.step ≠ some 0) (fits : (len : Int) ≤ Word.greatest) :
    s.indices len = .ok ⟨s.walkStart len, s.walkStop len, s.stride,
      countBetween (s.walkStart len) (s.walkStop len) s.stride⟩ := by
  have nonneg : (0 : Int) ≤ len := by omega
  have start : adjustBound ((s.start.map Int64.toInt).getD (defaultStart s.stride)) len s.stride =
      s.walkStart len := by
    unfold walkStart
    simp only [← stride_neg_iff]
    cases s.start with
    | none =>
      simp only [Option.map_none, Option.getD_none, defaultStart, adjustBound]
      unfold Word.greatest at *
      split <;> omega
    | some bound => exact adjustBound_eq bound nonneg s.stride
  have stop : adjustBound ((s.stop.map Int64.toInt).getD (defaultStop s.stride)) len s.stride =
      s.walkStop len := by
    unfold walkStop
    simp only [← stride_neg_iff]
    cases s.stop with
    | none =>
      simp only [Option.map_none, Option.getD_none, defaultStop, adjustBound]
      unfold Word.greatest Word.least at *
      split <;> omega
    | some bound => exact adjustBound_eq bound nonneg s.stride
  unfold indices
  simp only [h, if_false, clampLength_eq fits, start, stop]

theorem walkEnds (s : Slice) (len : Nat) :
    if s.stride < 0 then
      (-1 ≤ s.walkStart len ∧ s.walkStart len < len) ∧ -1 ≤ s.walkStop len ∧ s.walkStop len < len
    else (0 ≤ s.walkStart len ∧ s.walkStart len ≤ len) ∧ 0 ≤ s.walkStop len ∧ s.walkStop len ≤ len := by
  unfold walkStart walkStop
  simp only [← stride_neg_iff]
  split
  · cases s.start <;> cases s.stop <;>
      simp only [Option.map_none, Option.map_some, Option.getD_none, Option.getD_some, clampedBound] <;>
      omega
  · cases s.start <;> cases s.stop <;>
      simp only [Option.map_none, Option.map_some, Option.getD_none, Option.getD_some, clampedBound] <;>
      omega

/-- The walk with the step as written and the walk with the step in use have the same places: where the
two differ, the first step goes over the stop. -/
theorem places_eq (s : Slice) (fits : (len : Int) ≤ Word.greatest) :
    s.places len = walk s.stride (s.walkStop len) (s.walkStart len) := by
  by_cases same : s.writtenStep = s.stride
  · rw [places, same]
  · have ends := walkEnds s len
    have clamped := stride_eq s
    unfold Word.greatest at *
    rw [if_pos (by omega)] at ends
    apply walk_of_far <;> omega

end Slice

namespace Progression

/-- A progression whose places lie in a sequence of a given length. -/
structure Inside (p : Progression) (len : Nat) : Prop where
  step : p.step ≠ 0
  nonneg : ∀ i < p.count, 0 ≤ p.start + i * p.step
  below : ∀ i < p.count, p.start + i * p.step < len

variable {p : Progression} {len : Nat}

theorem Inside.position (h : p.Inside len) {i : Nat} (lt : i < p.count) :
    (p.position i : Int) = p.start + i * p.step := by
  have := h.nonneg i lt
  unfold Progression.position
  omega

theorem Inside.positions_eq (h : p.Inside len) :
    p.positions.map Int.ofNat = (List.range p.count).map fun i : Nat => p.start + i * p.step := by
  unfold positions
  rw [List.map_map]
  apply List.map_congr_left
  intro i mem
  exact h.position (List.mem_range.mp mem)

theorem Inside.nodup (h : p.Inside len) : p.positions.Nodup := by
  apply List.Nodup.map_on _ List.nodup_range
  intro i hi j hj same
  have left := h.position (List.mem_range.mp hi)
  have right := h.position (List.mem_range.mp hj)
  have product : (i : Int) * p.step = j * p.step := by omega
  have := Int.eq_of_mul_eq_mul_right h.step product
  omega

theorem Inside.lt_len (h : p.Inside len) : ∀ i ∈ p.positions, i < len := by
  intro place mem
  obtain ⟨i, hi, rfl⟩ := List.mem_map.mp mem
  have lt := List.mem_range.mp hi
  have := h.position lt
  have := h.below i lt
  omega

theorem Inside.count_le (h : p.Inside len) : p.count ≤ len := by
  have below : p.positions ⊆ List.range len := fun i mem => List.mem_range.mpr (h.lt_len i mem)
  have := (List.subperm_of_subset h.nodup below).length_le
  rwa [length_positions, List.length_range] at this

theorem mem_positions (p : Progression) {place : Nat} :
    place ∈ p.positions ↔ ∃ i < p.count, p.position i = place := by
  simp [positions]

theorem Inside.ascending (h : p.Inside len) (some : 0 < p.count) :
    (p.ascending.1 ∈ p.positions ∧ ∀ i ∈ p.positions, p.ascending.1 ≤ i) ∧
      p.ascending.2 = p.step.natAbs := by
  simp only [mem_positions]
  unfold Progression.ascending
  split
  · have last := h.position (show p.count - 1 < p.count by omega)
    refine ⟨⟨⟨p.count - 1, by omega, rfl⟩, ?_⟩, rfl⟩
    rintro place ⟨i, lt, rfl⟩
    have here := h.position lt
    have falls : ((p.count - 1 : Nat) : Int) * p.step ≤ i * p.step :=
      Int.mul_le_mul_of_nonpos_right (by omega) (by omega)
    dsimp only
    omega
  · have first := h.position some
    have begins : p.position 0 = p.start.toNat := by simp [Progression.position]
    refine ⟨⟨⟨0, some, begins⟩, ?_⟩, by dsimp only; omega⟩
    rintro place ⟨i, lt, rfl⟩
    have here := h.position lt
    have rises : 0 ≤ i * p.step := Int.mul_nonneg (by omega) (by omega)
    dsimp only
    omega

end Progression

theorem Slice.inside {s : Slice} {len : Nat} {p : Progression} (fits : (len : Int) ≤ Word.greatest)
    (resolved : s.indices len = .ok p) : p.Inside len := by
  have nonzero : s.step ≠ some 0 := by
    intro zero
    simp [indices, zero] at resolved
  rw [indices_eq nonzero fits] at resolved
  cases resolved
  have ends := walkEnds s len
  have moves := stride_ne_zero nonzero
  refine ⟨moves, ?_, ?_⟩
  all_goals
    intro i lt
    have between := between_of_lt_count lt
    dsimp only at *
    split at ends
    · rw [if_pos (by assumption)] at between
      omega
    · rw [if_neg (by assumption)] at between
      omega

end DynamicObjects
