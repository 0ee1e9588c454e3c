import Mathlib.Order.Defs.Unbundled
import DynamicObjects.Buffer

/-!
The room of a buffer. Growth covers every need that is a size, so each change of a buffer that does
not ask for less room leaves at least as much as there was, counts a reallocation whenever the room
is another one, and has a place for every item. Sizes stop at the largest word, and so do these laws.
-/
namespace DynamicObjects

namespace Growth

theorem doubleUntil_covers {target : Nat} (need : Nat) (positive : 0 < target) :
    min need Word.sizeMax ≤ doubleUntil target need := by
  fun_induction doubleUntil target need with
  | case1 target more ih =>
    apply ih
    unfold Word.satMul Word.sizeMax
    omega
  | case2 target stopped => omega

theorem grown_covers (len capacity need : Nat) :
    min need Word.sizeMax ≤ grown len capacity need := by
  unfold grown
  split
  next small => exact Nat.le_trans (Nat.min_le_left _ _) small.2
  next => exact doubleUntil_covers need (Nat.lt_of_lt_of_le (by decide) (Nat.le_max_right _ _))

end Growth

namespace Buffer

variable {α : Type} {b b' b'' : Buffer α}

/-- There is a place for every item, as far as places can be counted. -/
def Roomy (b : Buffer α) : Prop := min b.size Word.sizeMax ≤ b.capacity

/-- How a buffer may change when its room is not given back: no room is lost, no reallocation is
forgotten, other room means another reallocation, and there is a place for every item if there was. -/
structure Grown (b b' : Buffer α) : Prop where
  capacity : min b.capacity Word.sizeMax ≤ b'.capacity
  reallocations : b.reallocations ≤ b'.reallocations
  counted : b'.reallocations = b.reallocations → b'.capacity = b.capacity
  roomy : b.Roomy → b'.Roomy

theorem Grown.refl (b : Buffer α) : b.Grown b :=
  ⟨Nat.min_le_left _ _, Nat.le_refl _, fun _ => rfl, id⟩

theorem Grown.trans (first : b.Grown b') (second : b'.Grown b'') : b.Grown b'' where
  capacity := by
    have := first.capacity
    have := second.capacity
    omega
  reallocations := Nat.le_trans first.reallocations second.reallocations
  counted same := by
    have := first.reallocations
    have := second.reallocations
    exact (second.counted (by omega)).trans (first.counted (by omega))
  roomy h := second.roomy (first.roomy h)

instance : IsPreorder (Buffer α) Grown where
  refl := Grown.refl
  trans _ _ _ := Grown.trans

theorem grown_items {items : Array α} (size : items.size ≤ b.size) :
    b.Grown { b with items } where
  capacity := Nat.min_le_left _ _
  reallocations := Nat.le_refl _
  counted _ := rfl
  roomy h := by
    unfold Roomy Buffer.size at *
    dsimp only at *
    omega

theorem ensure_covers (b : Buffer α) (need : Nat) :
    min need Word.sizeMax ≤ (b.ensure need).capacity := by
  unfold ensure
  split
  next enough => exact Nat.le_trans (Nat.min_le_left _ _) enough
  next => exact Growth.grown_covers _ _ _

theorem grown_ensure (b : Buffer α) {need : Nat} {items : Array α} (size : items.size ≤ need) :
    b.Grown { b.ensure need with items } := by
  have covers := ensure_covers b need
  refine ⟨?_, ?_, ?_, fun _ => ?_⟩
  · unfold ensure at covers ⊢
    split
    · exact Nat.min_le_left _ _
    next more =>
      rw [if_neg more] at covers
      dsimp only at *
      omega
  · unfold ensure
    split
    · exact Nat.le_refl _
    · exact Nat.le_succ _
  · unfold ensure
    split
    · exact fun _ => rfl
    · exact fun same => absurd same (Nat.succ_ne_self _)
  · unfold Roomy Buffer.size
    dsimp only
    omega

theorem grown_push (b : Buffer α) (x : α) : b.Grown (b.push x) :=
  grown_ensure b (by simp [size])

theorem grown_insertAt (b : Buffer α) (i : Nat) (x : α) : b.Grown (b.insertAt i x) := by
  refine grown_ensure b ?_
  simp only [items_ensure, size, Array.size_append, Array.size_extract, List.size_toArray,
    List.length_singleton]
  omega

theorem grown_extend (b : Buffer α) (xs : List α) : b.Grown (b.extend xs) := by
  have pushed : ∀ (xs : List α) (b : Buffer α), b.Grown (xs.foldl push b) := by
    intro xs
    induction xs with
    | nil => exact Grown.refl
    | cons x rest ih => exact fun b => (grown_push b x).trans (ih _)
  have made : b.Grown (b.ensure (b.size + xs.length)) := by
    have fits : (b.ensure (b.size + xs.length)).items.size ≤ b.size + xs.length := by
      rw [items_ensure]
      exact Nat.le_add_right _ _
    exact grown_ensure b fits
  exact made.trans (pushed xs _)

theorem grown_eraseAt (b : Buffer α) (i : Nat) : b.Grown (b.eraseAt i) := by
  refine grown_items ?_
  unfold Array.eraseIdxIfInBounds
  split
  · rw [Array.size_eraseIdx]
    exact Nat.sub_le _ _
  · exact Nat.le_refl _

theorem grown_set (b : Buffer α) (i : Nat) (x : α) :
    b.Grown { b with items := b.items.setIfInBounds i x } :=
  grown_items (by simp [size])

theorem grown_clear (b : Buffer α) : b.Grown b.clear := grown_items (Nat.zero_le _)

theorem grown_reverse (b : Buffer α) : b.Grown b.reverse := grown_items (by simp [size])

theorem length_dropEvery_le (step count : Nat) (xs : List α) :
    (dropEvery step count xs).length ≤ xs.length := by
  fun_induction dropEvery step count xs with
  | case1 => exact Nat.le_refl _
  | case2 => exact Nat.le_refl _
  | case3 count x rest ih =>
    simp only [List.length_append, List.length_take, List.length_drop, List.length_cons] at *
    omega

theorem grown_deleteSlice (b : Buffer α) (p : Progression) : b.Grown (b.deleteSlice p) := by
  unfold deleteSlice
  split
  · exact .refl b
  · obtain ⟨first, step⟩ := p.ascending
    refine grown_items ?_
    have := length_dropEvery_le step p.count (b.toList.drop first)
    simp only [toList, size, List.size_toArray, List.length_append, List.length_take,
      List.length_drop, Array.length_toList] at *
    omega

theorem size_writeAt (xs : Array α) (positions : List Nat) (values : List α) :
    (writeAt xs positions values).size = xs.size := by
  unfold writeAt
  induction positions.zip values generalizing xs with
  | nil => rfl
  | cons pair rest ih => simp [ih]

/-- A unit slice that was resolved for the length of the buffer lies in it, so that the places that
are given up and those that come in add up to the new length. -/
theorem grown_assignSlice {p : Progression} {values : List α}
    (inside : p.isContiguous = true → p.start.toNat + p.count ≤ b.size)
    (assigned : b.assignSlice p values = .ok b') : b.Grown b' := by
  unfold assignSlice at assigned
  split at assigned
  next unit =>
    have inside := inside unit
    obtain rfl := Except.ok.inj assigned
    unfold size at inside
    have size : (b.items.extract 0 p.start.toNat ++ values.toArray ++
        b.items.extract (p.start.toNat + p.count) b.items.size).size ≤
          b.items.size - p.count + values.length := by
      simp only [Array.size_append, Array.size_extract, List.size_toArray]
      omega
    split
    next same =>
      refine grown_items (Nat.le_trans size ?_)
      rw [same]
      exact Nat.le_of_eq (Nat.sub_add_cancel (Nat.le_of_add_left_le inside))
    next => exact grown_ensure b size
  next =>
    split at assigned
    · cases assigned
    · obtain rfl := Except.ok.inj assigned
      exact grown_items (Nat.le_of_eq (size_writeAt _ _ _))

theorem size_extendTo_le {items : Array α} {target : Nat} (fits : items.size ≤ target) :
    (extendTo items target).size ≤ target := by
  fun_induction extendTo items target with
  | case1 items more ih =>
    apply ih
    rw [Array.size_append, Array.size_extract]
    omega
  | case2 items => exact fits

theorem grown_repeatInPlace [ItemSize α] {count : Int} (repeated : b.repeatInPlace count = .ok b') :
    b.Grown b' := by
  unfold repeatInPlace at repeated
  split at repeated
  · obtain rfl := Except.ok.inj repeated
    exact grown_clear b
  next positive =>
    split at repeated
    · cases repeated
    next target length =>
      split at repeated
      · obtain rfl := Except.ok.inj repeated
        exact .refl b
      · obtain rfl := Except.ok.inj repeated
        refine grown_ensure b (size_extendTo_le ?_)
        unfold repeatLength at length
        split at length
        · obtain rfl := Except.ok.inj length
          exact Nat.le_mul_of_pos_right b.size (by omega)
        · cases length

/-- What a sort leaves is as large as it has to be, whatever was there before, and it counts anew. -/
theorem roomy_ofArray (items : Array α) : (ofArray items).Roomy := Nat.min_le_left _ _

end Buffer

namespace Slice

theorem adjustBound_forwards (bound : Int) {len : Int} (nonneg : 0 ≤ len) :
    0 ≤ adjustBound bound len 1 ∧ adjustBound bound len 1 ≤ len := by
  unfold adjustBound
  simp only [Int.reduceLT, if_false]
  omega

theorem unit_inside {s : Slice} {len : Nat} {p : Progression} (resolved : s.indices len = .ok p)
    (unit : p.isContiguous = true) : p.start.toNat + p.count ≤ len := by
  unfold indices at resolved
  split at resolved
  · cases resolved
  · obtain rfl := Except.ok.inj resolved
    simp only [Progression.isContiguous, beq_iff_eq] at unit
    have clamped : 0 ≤ clampLength len ∧ clampLength len ≤ len := by
      unfold clampLength Word.greatest
      omega
    rw [unit]
    have starts := adjustBound_forwards ((s.start.map Int64.toInt).getD (defaultStart 1)) clamped.1
    have stops := adjustBound_forwards ((s.stop.map Int64.toInt).getD (defaultStop 1)) clamped.1
    simp only [countBetween, Int.reduceLT, if_false, Int.ediv_one]
    split <;> omega

end Slice

end DynamicObjects
