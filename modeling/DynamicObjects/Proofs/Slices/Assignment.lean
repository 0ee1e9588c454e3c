import DynamicObjects.Proofs.Lists.Room
import DynamicObjects.Proofs.Slices.Cursors

/-!
Reading and assigning the places of a slice. Reading gives the items at the places, in the order of the
slice; assigning puts a list in the place of neighbouring items, or one value at each place when the
places lie apart. What is read and written back changes nothing, and what was assigned to places that
lie apart is read back.
-/
namespace DynamicObjects

/-- A list holds the items of another at given places, in their order. -/
def Picks {α : Type} (xs : List α) (places : List Nat) (ys : List α) : Prop :=
  ys.map some = places.map fun i => xs[i]?

theorem Picks.unique {α : Type} {xs ys zs : List α} {places : List Nat} (hy : Picks xs places ys)
    (hz : Picks xs places zs) : ys = zs :=
  List.map_injective_iff.mpr (Option.some_injective α) (hy.trans hz.symm)

theorem Picks.getElem? {α : Type} {xs ys : List α} {places : List Nat} (h : Picks xs places ys) {k : Nat}
    (lt : k < places.length) : ys[k]? = xs[places[k]]? := by
  have same := congrArg (·[k]?) h
  simp only [List.getElem?_map, List.getElem?_eq_getElem lt, Option.map_some] at same
  cases item : ys[k]? with
  | none => simp [item] at same
  | some y => simpa [item] using same

theorem Progression.Inside.positions_unit {p : Progression} {len : Nat} (h : p.Inside len)
    (unit : p.step = 1) : p.positions = List.range' p.start.toNat p.count := by
  have upwards := h.positions_upwards
  rw [if_neg (by omega), Progression.ascending, if_neg (by omega), unit] at upwards
  exact upwards.symm

namespace Buffer

variable {α : Type} {xs : Array α} {p : Progression}

theorem picks_indexed {places : List Nat} (inside : ∀ i ∈ places, i < xs.size) :
    Picks xs.toList places (places.filterMap fun i => xs[i]?) := by
  unfold Picks
  induction places with
  | nil => rfl
  | cons i rest ih =>
    have item := Array.getElem?_eq_getElem (inside i List.mem_cons_self)
    rw [List.filterMap_cons_some item, List.map_cons, List.map_cons,
      ih fun j mem => inside j (List.mem_cons_of_mem i mem), Array.getElem?_toList, item]

theorem picks_piece {first count : Nat} (inside : first + count ≤ xs.size) :
    Picks xs.toList (List.range' first count) (xs.extract first (first + count)).toList := by
  unfold Picks
  apply List.ext_getElem?
  intro k
  rw [List.getElem?_map, List.getElem?_map, Array.getElem?_toList, Array.getElem?_extract]
  by_cases lt : k < count
  · rw [List.getElem?_range' lt, if_pos (by omega), Option.map_some, Array.getElem?_toList,
      Nat.one_mul, Array.getElem?_eq_getElem (by omega), Option.map_some]
  · rw [List.getElem?_eq_none (by simpa using lt), if_neg (by omega)]
    rfl

theorem picks_select (h : p.Inside xs.size) : Picks xs.toList p.positions (select xs p) := by
  unfold select
  split
  next unit =>
    rw [Progression.isContiguous, beq_iff_eq] at unit
    have places := h.positions_unit unit
    rcases Nat.eq_zero_or_pos p.count with nothing | some
    · rw [places, nothing]
      simp [Picks]
    · have last := h.lt_len (p.start.toNat + (p.count - 1)) (by rw [places, List.mem_range'_1]; omega)
      rw [places]
      exact picks_piece (by omega)
  next => exact picks_indexed h.lt_len

theorem select_eq (h : p.Inside xs.size) : select xs p = p.positions.filterMap fun i => xs[i]? :=
  (picks_select h).unique (picks_indexed h.lt_len)

theorem length_select (h : p.Inside xs.size) : (select xs p).length = p.count := by
  have same := congrArg List.length (picks_select h)
  simpa [Progression.length_positions] using same

theorem getElem?_writeAt_of_not_mem {places : List Nat} {i : Nat} (outside : i ∉ places)
    (values : List α) : (writeAt xs places values)[i]? = xs[i]? := by
  unfold writeAt
  induction places generalizing xs values with
  | nil => rfl
  | cons j rest ih =>
    rw [List.mem_cons, not_or] at outside
    cases values with
    | nil => rfl
    | cons v values =>
      rw [List.zip_cons_cons, List.foldl_cons, ih outside.2, Array.getElem?_setIfInBounds_ne (Ne.symm outside.1)]

theorem getElem?_writeAt {places : List Nat} (nodup : places.Nodup) (inside : ∀ i ∈ places, i < xs.size)
    {values : List α} (same : values.length = places.length) {k : Nat} (lt : k < places.length) :
    (writeAt xs places values)[places[k]]? = values[k]? := by
  induction places generalizing xs values k with
  | nil => simp at lt
  | cons i rest ih =>
    cases values with
    | nil => simp at same
    | cons v values =>
      have step : writeAt xs (i :: rest) (v :: values) = writeAt (xs.setIfInBounds i v) rest values := rfl
      rw [step]
      rw [List.nodup_cons] at nodup
      cases k with
      | zero =>
        rw [List.getElem_cons_zero, getElem?_writeAt_of_not_mem nodup.1,
          Array.getElem?_setIfInBounds_self_of_lt (inside i List.mem_cons_self), List.getElem?_cons_zero]
      | succ k =>
        rw [List.getElem_cons_succ, List.getElem?_cons_succ]
        refine ih nodup.2 (fun j mem => ?_) (by simpa using same) (by simpa using lt)
        rw [Array.size_setIfInBounds]
        exact inside j (List.mem_cons_of_mem i mem)

theorem writeAt_picked {places : List Nat} (nodup : places.Nodup) (inside : ∀ i ∈ places, i < xs.size)
    {values : List α} (picked : Picks xs.toList places values) : writeAt xs places values = xs := by
  have same : values.length = places.length := by simpa using congrArg List.length picked
  apply Array.ext_getElem?
  intro i
  by_cases mem : i ∈ places
  · obtain ⟨k, lt, rfl⟩ := List.getElem_of_mem mem
    rw [getElem?_writeAt nodup inside same lt, picked.getElem? lt, Array.getElem?_toList]
  · exact getElem?_writeAt_of_not_mem mem values

end Buffer

namespace Slice

variable {s : Slice} {len : Nat} {p : Progression}

theorem unit_bounds (resolved : s.indices len = .ok p) (unit : p.step = 1) :
    0 ≤ p.start ∧ p.count = (p.stop - p.start).toNat := by
  unfold indices at resolved
  split at resolved
  · cases resolved
  · obtain rfl := Except.ok.inj resolved
    dsimp only at unit
    have clamped : 0 ≤ clampLength len := by
      unfold clampLength Word.greatest
      omega
    rw [unit]
    refine ⟨(adjustBound_forwards _ clamped).1, ?_⟩
    simp only [countBetween, Int.reduceLT, if_false, Int.ediv_one]
    split <;> omega

end Slice

/-- What a list becomes when values are assigned to the places of a progression: with unit step they
take the place of the items there, and otherwise there is one for each place. -/
structure Progression.Assigned {α : Type} (p : Progression) (xs values ys : List α) : Prop where
  replaced : p.step = 1 → ys = xs.take p.start.toNat ++ values ++ xs.drop (p.start.toNat + p.count)
  counted : p.step ≠ 1 → values.length = p.count
  length : p.step ≠ 1 → ys.length = xs.length
  placed : p.step ≠ 1 → ∀ k < p.count, ys[p.position k]? = values[k]?
  kept : p.step ≠ 1 → ∀ i ∉ p.positions, ys[i]? = xs[i]?

theorem Progression.Assigned.picks {α : Type} {p : Progression} {xs values ys : List α}
    (h : p.Assigned xs values ys) (apart : p.step ≠ 1) : Picks ys p.positions values := by
  have count := h.counted apart
  unfold Picks
  apply List.ext_getElem?
  intro k
  rw [List.getElem?_map, List.getElem?_map]
  by_cases lt : k < p.count
  · rw [Progression.positions, List.getElem?_map, List.getElem?_range lt, Option.map_some, Option.map_some,
      h.placed apart k lt, List.getElem?_eq_getElem (by omega), Option.map_some]
  · rw [List.getElem?_eq_none (by omega), List.getElem?_eq_none (by rw [p.length_positions]; omega)]
    rfl

namespace Buffer

variable {α : Type} {b b' : Buffer α} {p : Progression} {values : List α}

theorem isContiguous_iff : p.isContiguous = true ↔ p.step = 1 := by
  rw [Progression.isContiguous, beq_iff_eq]

theorem toList_assignSlice_unit (unit : p.step = 1) (values : List α) :
    ∃ b', b.assignSlice p values = .ok b' ∧
      b'.toList = b.toList.take p.start.toNat ++ values ++ b.toList.drop (p.start.toNat + p.count) := by
  rw [assignSlice, if_pos (isContiguous_iff.mpr unit)]
  refine ⟨_, rfl, ?_⟩
  simp [toList, size, List.take_of_length_le]

theorem assignSlice_apart (apart : p.step ≠ 1) (values : List α) :
    b.assignSlice p values = if values.length = p.count then .ok { b with items := writeAt b.items p.positions values }
      else .error (.extendedSliceSize values.length p.count) := by
  rw [assignSlice, if_neg (mt isContiguous_iff.mp apart)]
  split <;> simp_all

theorem assignSlice_ok (done : b.assignSlice p values = .ok b') : p.step = 1 ∨ values.length = p.count := by
  by_cases unit : p.step = 1
  · exact .inl unit
  · rw [assignSlice_apart unit] at done
    split at done
    next same => exact .inr same
    next => cases done

theorem assignSlice_error {e : Error} (failed : b.assignSlice p values = .error e) :
    p.step ≠ 1 ∧ values.length ≠ p.count ∧ e = .extendedSliceSize values.length p.count := by
  by_cases unit : p.step = 1
  · obtain ⟨_, done, _⟩ := toList_assignSlice_unit (b := b) unit values
    cases done.symm.trans failed
  · rw [assignSlice_apart unit] at failed
    split at failed
    next => cases failed
    next differs => exact ⟨unit, differs, (Except.error.inj failed).symm⟩

theorem assigned_of_assignSlice (h : p.Inside b.size) (done : b.assignSlice p values = .ok b') :
    p.Assigned b.toList values b'.toList := by
  by_cases unit : p.step = 1
  · obtain ⟨b₁, done₁, items⟩ := toList_assignSlice_unit (b := b) unit values
    obtain rfl := Except.ok.inj (done₁.symm.trans done)
    exact ⟨fun _ => items, fun apart => absurd unit apart, fun apart => absurd unit apart,
      fun apart => absurd unit apart, fun apart => absurd unit apart⟩
  · rw [assignSlice_apart unit] at done
    split at done
    next same =>
      obtain rfl := Except.ok.inj done
      have length : values.length = p.positions.length := same.trans p.length_positions.symm
      refine ⟨fun one => absurd one unit, fun _ => same, fun _ => ?_, fun _ k lt => ?_, fun _ i outside => ?_⟩
      · simp [toList, size_writeAt]
      · have written := getElem?_writeAt h.nodup h.lt_len length (k := k) (by rw [p.length_positions]; exact lt)
        simpa [toList, Progression.positions] using written
      · simpa [toList] using getElem?_writeAt_of_not_mem outside values
    next => cases done

/-- What a slice reads can be assigned to it, and nothing changes. -/
theorem assignSlice_copySlice {s : Slice} (resolved : s.indices b.size = .ok p) :
    b.assignSlice p (b.copySlice p).toList = .ok b := by
  have h := Slice.inside_any resolved
  have length := length_select h
  rw [show (b.copySlice p).toList = select b.items p from rfl]
  by_cases unit : p.step = 1
  · have piece : select b.items p = (b.items.extract p.start.toNat (p.start.toNat + p.count)).toList := by
      rw [select, if_pos (isContiguous_iff.mpr unit)]
    have whole : b.items.extract 0 p.start.toNat ++ (select b.items p).toArray ++
        b.items.extract (p.start.toNat + p.count) b.size = b.items := by
      rw [piece, Array.toArray_toList, Array.extract_append_extract, Nat.zero_min,
        Nat.max_eq_right (Nat.le_add_right _ _), Array.extract_append_extract, Nat.zero_min,
        Nat.max_eq_right (Slice.unit_inside resolved (isContiguous_iff.mpr unit))]
      exact Array.extract_size
    simp only [assignSlice, isContiguous_iff.mpr unit, if_true, length, whole]
  · have picked := picks_select h
    rw [assignSlice_apart unit, if_pos length, writeAt_picked h.nodup h.lt_len picked]

end Buffer

end DynamicObjects
