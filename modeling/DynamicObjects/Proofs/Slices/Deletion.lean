import DynamicObjects.Buffer
import DynamicObjects.Proofs.Slices.Words

/-!
Deleting the places of a slice. What is left are the items at all other places, in their order, so only
the set of places counts: a slice that goes backwards deletes what the slice forwards over the same places
does.
-/
namespace DynamicObjects

/-- The items of a list, numbered from `i` on, whose number is not one of the places. -/
def remaining {α : Type} (places : List Nat) (i : Nat) (xs : List α) : List α :=
  ((xs.zipIdx i).filter fun x => x.2 ∉ places).map Prod.fst

section Remaining

variable {α : Type} {places places' : List Nat} {i : Nat}

theorem remaining_cons (places : List Nat) (i : Nat) (x : α) (xs : List α) :
    remaining places i (x :: xs) =
      if i ∈ places then remaining places (i + 1) xs else x :: remaining places (i + 1) xs := by
  unfold remaining
  rw [List.zipIdx_cons]
  by_cases gone : i ∈ places <;> simp [gone]

theorem remaining_append (places : List Nat) (i : Nat) (xs ys : List α) :
    remaining places i (xs ++ ys) = remaining places i xs ++ remaining places (i + xs.length) ys := by
  simp [remaining, List.zipIdx_append]

theorem remaining_congr {xs : List α}
    (same : ∀ j, i ≤ j → j < i + xs.length → (j ∈ places ↔ j ∈ places')) :
    remaining places i xs = remaining places' i xs := by
  unfold remaining
  congr 1
  apply List.filter_congr
  rintro ⟨x, j⟩ mem
  obtain ⟨low, high, -⟩ := List.mem_zipIdx mem
  simp [same j low high]

theorem remaining_of_none {xs : List α} (none : ∀ j, i ≤ j → j < i + xs.length → j ∉ places) :
    remaining places i xs = xs := by
  have same : remaining places i xs = remaining [] i xs :=
    remaining_congr fun j low high => by simp [none j low high]
  rw [same]
  simp [remaining]

theorem remaining_of_all {xs : List α} (all : ∀ j, i ≤ j → j < i + xs.length → j ∈ places) :
    remaining places i xs = [] := by
  unfold remaining
  rw [List.map_eq_nil_iff, List.filter_eq_nil_iff]
  rintro ⟨x, j⟩ mem
  obtain ⟨low, high, -⟩ := List.mem_zipIdx mem
  simp [all j low high]

end Remaining

namespace Buffer

variable {α : Type}

theorem dropEvery_eq {stride : Nat} (positive : 0 < stride) (count i : Nat) (xs : List α) :
    dropEvery stride count xs = remaining (List.range' i count stride) i xs := by
  induction count generalizing i xs with
  | zero => exact (remaining_of_none (by simp)).symm
  | succ count ih =>
    cases xs with
    | nil => rfl
    | cons x rest =>
      have gap : remaining (List.range' i (count + 1) stride) (i + 1) (rest.take (stride - 1)) =
          rest.take (stride - 1) := by
        apply remaining_of_none
        intro j low high mem
        obtain ⟨k, -, rfl⟩ := List.mem_range'.mp mem
        rw [List.length_take] at high
        cases k with
        | zero => omega
        | succ k =>
          rw [Nat.mul_succ] at high
          omega
      have further : remaining (List.range' i (count + 1) stride)
          (i + 1 + (rest.take (stride - 1)).length) (rest.drop (stride - 1)) =
            dropEvery stride count (rest.drop (stride - 1)) := by
        rcases Nat.lt_or_ge rest.length stride with short | long
        · rw [List.drop_of_length_le (by omega)]
          cases count <;> rfl
        · rw [List.length_take, ih (i + stride), show i + 1 + min (stride - 1) rest.length = i + stride by omega]
          apply remaining_congr
          intro j low _
          rw [List.range'_succ, List.mem_cons]
          exact or_iff_right (by omega)
      rw [dropEvery, remaining_cons, if_pos (by simp [List.range'_succ])]
      calc rest.take (stride - 1) ++ dropEvery stride count (rest.drop (stride - 1))
          = remaining (List.range' i (count + 1) stride) (i + 1) (rest.take (stride - 1)) ++
              remaining (List.range' i (count + 1) stride) (i + 1 + (rest.take (stride - 1)).length)
                (rest.drop (stride - 1)) := by rw [gap, further]
        _ = remaining (List.range' i (count + 1) stride) (i + 1) rest := by
          rw [← remaining_append, List.take_append_drop]

end Buffer

namespace Progression

variable {p : Progression} {len : Nat}

theorem Inside.positions_upwards (h : p.Inside len) :
    List.range' p.ascending.1 p.count p.ascending.2 =
      if p.step < 0 then p.positions.reverse else p.positions := by
  have at_place {i : Nat} (lt : i < p.count) := h.position lt
  apply List.ext_getElem
  · split <;> simp [length_positions]
  intro i low _
  rw [List.length_range'] at low
  unfold Progression.ascending
  split
  next backwards =>
    have last := at_place (i := p.count - 1) (by omega)
    have here := at_place (i := p.count - 1 - i) (by omega)
    have split : ((p.count - 1 - i : Nat) : Int) * p.step =
        ((p.count - 1 : Nat) : Int) * p.step - i * p.step := by
      rw [← Int.sub_mul]
      congr 1
      omega
    have size : (p.step.natAbs : Int) * i = -(i * p.step) := by
      rw [Int.ofNat_natAbs_of_nonpos (by omega), Int.neg_mul, Int.mul_comm]
    simp only [List.getElem_range', List.getElem_reverse, Progression.positions, List.getElem_map,
      List.getElem_range, List.length_map, List.length_range]
    rw [← Int.natCast_inj, Int.natCast_add, Int.natCast_mul]
    omega
  next forwards =>
    have first := at_place (i := 0) (by omega)
    have here := at_place low
    have size : (p.step.toNat : Int) * i = i * p.step := by
      rw [Int.toNat_of_nonneg (by omega), Int.mul_comm]
    have begins : 0 ≤ p.start := by simpa using h.nonneg 0 (by omega)
    simp only [List.getElem_range', Progression.positions, List.getElem_map, List.getElem_range]
    rw [← Int.natCast_inj, Int.natCast_add, Int.natCast_mul]
    omega

theorem Inside.mem_upwards (h : p.Inside len) {i : Nat} :
    i ∈ List.range' p.ascending.1 p.count p.ascending.2 ↔ i ∈ p.positions := by
  rw [h.positions_upwards]
  split <;> simp

end Progression

theorem Buffer.toList_deleteSlice {α : Type} {b : Buffer α} {p : Progression} (h : p.Inside b.size) :
    (b.deleteSlice p).toList = remaining p.positions 0 b.toList := by
  unfold deleteSlice
  split
  next nothing =>
    refine (remaining_of_none fun i _ _ mem => ?_).symm
    simp [Progression.positions, nothing] at mem
  next some =>
    have positive : 0 < p.ascending.2 := by
      rw [(h.ascending (by omega)).2]
      have := h.step
      omega
    have low := h.lt_len _ (h.ascending (by omega)).1.1
    have first : (b.toList.take p.ascending.1).length = p.ascending.1 := by
      rw [List.length_take]
      exact Nat.min_eq_left low.le
    have before : remaining p.positions 0 (b.toList.take p.ascending.1) =
        b.toList.take p.ascending.1 := by
      refine remaining_of_none fun i _ high mem => ?_
      rw [first] at high
      have := (h.ascending (by omega)).1.2 i mem
      omega
    have behind : remaining p.positions p.ascending.1 (b.toList.drop p.ascending.1) =
        dropEvery p.ascending.2 p.count (b.toList.drop p.ascending.1) := by
      rw [dropEvery_eq positive p.count p.ascending.1]
      exact remaining_congr fun i _ _ => h.mem_upwards.symm
    calc b.toList.take p.ascending.1 ++ dropEvery p.ascending.2 p.count (b.toList.drop p.ascending.1)
        = remaining p.positions 0 (b.toList.take p.ascending.1) ++
            remaining p.positions (0 + (b.toList.take p.ascending.1).length)
              (b.toList.drop p.ascending.1) := by rw [before, first, Nat.zero_add, behind]
      _ = remaining p.positions 0 b.toList := by rw [← remaining_append, List.take_append_drop]

theorem Buffer.eq_deleteSlice {α : Type} {b : Buffer α} {p : Progression} (h : p.Inside b.size)
    {items : Array α} (left : items.toList = remaining p.positions 0 b.toList) :
    { b with items } = b.deleteSlice p := by
  have same : items = (b.deleteSlice p).items :=
    Array.toList_inj.mp (left.trans (toList_deleteSlice h).symm)
  rw [same]
  unfold deleteSlice
  split <;> rfl

theorem Buffer.deleteSlice_congr {α : Type} {b : Buffer α} {p q : Progression} (hp : p.Inside b.size)
    (hq : q.Inside b.size) (same : ∀ i, i ∈ q.positions ↔ i ∈ p.positions) :
    b.deleteSlice q = b.deleteSlice p := by
  have whole : b.deleteSlice q = { b with items := (b.deleteSlice q).items } := by
    unfold deleteSlice
    split <;> rfl
  rw [whole]
  exact eq_deleteSlice hp ((toList_deleteSlice hq).trans (remaining_congr fun i _ _ => same i))

namespace Slice

variable {s : Slice} {len : Nat} {p : Progression}

theorem indices_clamped (s : Slice) (len : Nat) :
    s.indices len = s.indices (min len Word.greatest.toNat) := by
  have same : clampLength (min len Word.greatest.toNat) = clampLength len := by
    unfold clampLength Word.greatest
    omega
  simp only [indices, same]

theorem inside_clamped (resolved : s.indices len = .ok p) :
    p.Inside (min len Word.greatest.toNat) := by
  rw [indices_clamped] at resolved
  refine inside ?_ resolved
  unfold Word.greatest
  omega

theorem inside_any (resolved : s.indices len = .ok p) : p.Inside len := by
  have h := inside_clamped resolved
  exact ⟨h.step, h.nonneg, fun i lt => Int.lt_of_lt_of_le (h.below i lt) (by omega)⟩

theorem fits_step (resolved : s.indices len = .ok p) :
    -Word.greatest ≤ p.step ∧ p.step ≤ Word.greatest := by
  have step : p.step = s.stride := by
    unfold indices at resolved
    split at resolved
    · cases resolved
    · cases resolved
      rfl
  have clamped := stride_eq s
  have fits := (fits_stride s).2
  rw [step]
  exact ⟨by rw [clamped]; exact le_max_right _ _, fits⟩

theorem indices_forwards {first stop stride : Nat} (fits : (len : Int) ≤ Word.greatest)
    (starts : first ≤ len) (stops : stop ≤ len) (positive : 0 < stride)
    (word : (stride : Int) ≤ Word.greatest) :
    indices ⟨some (Int64.ofInt first), some (Int64.ofInt stop), some (Int64.ofInt stride)⟩ len =
      .ok ⟨first, stop, stride, countBetween first stop stride⟩ := by
  have same {n : Nat} (small : (n : Int) ≤ Word.greatest) : (Int64.ofInt n).toInt = n :=
    Word.toInt_ofInt ⟨by unfold Word.least; omega, small⟩
  have steps : some (Int64.ofInt stride) ≠ some 0 := by
    intro zero
    have := same word
    rw [Option.some.inj zero, Int64.toInt_zero] at this
    omega
  have forwards : ¬ (stride : Int) < 0 := by omega
  have clamped {n : Nat} (low : n ≤ len) : clampedBound len 0 len (Int64.ofInt n) = n := by
    rw [clampedBound, same (by omega), if_neg (by omega)]
    omega
  have strideSame : max (stride : Int) (-Word.greatest) = stride := by
    unfold Word.greatest
    omega
  rw [indices_eq steps fits]
  simp only [walkStart, walkStop, Slice.stride, writtenStep, Option.map_some, Option.getD_some,
    same word, if_neg forwards, clamped starts, clamped stops, strideSame]

theorem countBetween_forwards {first count stride : Nat} (positive : 0 < stride) (some : 0 < count) :
    countBetween first (first + stride * (count - 1) + 1 : Nat) stride = count := by
  have others : ((first + stride * (count - 1) + 1 : Nat) : Int) - first - 1 =
      stride * (count - 1 : Nat) := by
    push_cast
    ring
  rw [countBetween, if_neg (by omega), if_pos (by omega), others, Int.mul_ediv_cancel_left _ (by omega)]
  omega

end Slice

/-- The slice that addresses the places of a progression from the lowest up. -/
def Progression.upwards (p : Progression) : Slice :=
  if p.count = 0 then ⟨some 0, some 0, none⟩
  else
    let (first, stride) := p.ascending
    let stop := first + stride * (p.count - 1) + 1
    ⟨some (Int64.ofInt first), some (Int64.ofInt stop), some (Int64.ofInt stride)⟩

theorem Progression.Inside.indices_upwards {p : Progression} {len : Nat} (h : p.Inside len)
    (fits : (len : Int) ≤ Word.greatest)
    (step : -Word.greatest ≤ p.step ∧ p.step ≤ Word.greatest) :
    ∃ q, p.upwards.indices len = .ok q ∧ 0 < q.step ∧ ∀ i, i ∈ q.positions ↔ i ∈ p.positions := by
  rcases Nat.eq_zero_or_pos p.count with nothing | some
  · rw [upwards, if_pos nothing]
    refine ⟨⟨0, 0, 1, 0⟩, ?_, by decide, by simp [positions, nothing]⟩
    rw [Slice.indices_eq (by simp) fits]
    simp [Slice.walkStart, Slice.walkStop, Slice.writtenStep, Slice.clampedBound, Slice.stride,
      Slice.countBetween]
  · obtain ⟨first, stride, ascending⟩ : ∃ first stride, p.ascending = (first, stride) := ⟨_, _, rfl⟩
    have places {i : Nat} : i ∈ List.range' first p.count stride ↔ i ∈ p.positions := by
      have := h.mem_upwards (i := i)
      rwa [ascending] at this
    have size : stride = p.step.natAbs := by
      have := (h.ascending some).2
      rwa [ascending] at this
    have nonzero := h.step
    have last : first + stride * (p.count - 1) < len :=
      h.lt_len _ (places.mp (List.mem_range'.mpr ⟨p.count - 1, by omega, rfl⟩))
    have low : first ≤ first + stride * (p.count - 1) := Nat.le_add_right _ _
    have resolved := Slice.indices_forwards fits (show first ≤ len by omega)
      (show first + stride * (p.count - 1) + 1 ≤ len by omega) (show 0 < stride by omega) (by omega)
    rw [Slice.countBetween_forwards (by omega) some] at resolved
    have inside := Slice.inside fits resolved
    refine ⟨⟨first, (first + stride * (p.count - 1) + 1 : Nat), stride, p.count⟩, ?_, ?_, fun i => ?_⟩
    · rw [upwards, if_neg (by omega), ascending]
      exact resolved
    · dsimp only
      omega
    · rw [← inside.mem_upwards, ← places, Progression.ascending, if_neg (by dsimp only; omega)]
      rfl

end DynamicObjects
