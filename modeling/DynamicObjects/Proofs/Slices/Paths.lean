import DynamicObjects.Proofs.Slices.Assignment

/-!
Reading and assigning the places of a slice on machine words and sizes. Nothing is read when there are no
places, neighbouring places are read as one piece, and others one by one; as many values as there are
neighbouring places overwrite them, other numbers of values move what stands behind them, and places that
lie apart are written one by one. An operation that leaves the words or the sizes, and an access outside
the buffer, has no result here. There always is one, whatever way is taken, and it is the one that the
places give.
-/
namespace DynamicObjects

def Word.subSizes? (m n : Nat) : Option Nat :=
  if n ≤ m then some (m - n) else none

namespace Buffer

variable {α : Type}

def piece? (xs : Array α) (first count : Nat) : Option (Array α) := do
  let stop ← Word.addSizes? first count
  if stop ≤ xs.size then return xs.extract first stop else none

def copySlice? (b : Buffer α) (q : WordProgression) : Option (Buffer α) :=
  if q.count = 0 then some empty
  else if q.step = 1 then do
    let (first, _) ← q.ascending?
    return ofArray (← piece? b.items first q.count)
  else do
    let items ← (List.range q.count).mapM fun i => do b.items[← q.position? i]?
    return ofArray items.toArray

def writeAll? (place? : Nat → Option Nat) (xs : Array α) : Nat → List α → Option (Array α)
  | _, [] => some xs
  | k, v :: values => do
    let i ← place? k
    if h : i < xs.size then writeAll? place? (xs.set i v h) (k + 1) values else none

def assignSlice? (b : Buffer α) (q : WordProgression) (values : List α) :
    Option (Except Error (Buffer α)) :=
  if q.step = 1 then do
    let first ← Word.toSize? q.start
    let stop ← Word.addSizes? first q.count
    if b.size < stop then none
    else if values.length = q.count then
      let items ← writeAll? (Word.addSizes? first) b.items 0 values
      return .ok { b with items }
    else
      let others ← Word.subSizes? b.size q.count
      let need ← Word.addSizes? others values.length
      return .ok { b.ensure need with
        items := b.items.extract 0 first ++ values.toArray ++ b.items.extract stop b.size }
  else if values.length ≠ q.count then some (.error (.extendedSliceSize values.length q.count))
  else do
    let items ← writeAll? q.position? b.items 0 values
    return .ok { b with items }

variable {b : Buffer α} {p : Progression} {xs : Array α} {values : List α}

theorem writeAll?_eq {place? : Nat → Option Nat} {places : List Nat} {k : Nat}
    (same : values.length = places.length) (inside : ∀ i ∈ places, i < xs.size)
    (found : ∀ j (lt : j < places.length), place? (k + j) = some places[j]) :
    writeAll? place? xs k values = some (writeAt xs places values) := by
  induction values generalizing xs places k with
  | nil =>
    obtain rfl := List.length_eq_zero_iff.mp same.symm
    rfl
  | cons v values ih =>
    cases places with
    | nil => simp at same
    | cons i rest =>
      have here := found 0 (Nat.zero_lt_succ _)
      have bound := inside i List.mem_cons_self
      rw [Nat.add_zero, List.getElem_cons_zero] at here
      rw [writeAll?, here, Option.bind_eq_bind, Option.bind_some, dif_pos bound]
      have step : writeAt xs (i :: rest) (v :: values) = writeAt (xs.set i v bound) rest values := by
        simp [writeAt, Array.setIfInBounds, bound]
      rw [step]
      refine ih (by simpa using same) (fun j mem => ?_) fun j lt => ?_
      · rw [Array.size_set]
        exact inside j (List.mem_cons_of_mem i mem)
      · have next := found (j + 1) (Nat.succ_lt_succ lt)
        rwa [List.getElem_cons_succ, ← Nat.add_assoc, Nat.add_right_comm] at next

theorem writeAt_neighbours {first : Nat} (inside : first + values.length ≤ xs.size) :
    writeAt xs (List.range' first values.length) values =
      xs.extract 0 first ++ values.toArray ++ xs.extract (first + values.length) xs.size := by
  apply Array.ext_getElem?
  intro i
  have length : (xs.extract 0 first).size = first := by simp; omega
  have lengths : (xs.extract 0 first ++ values.toArray).size = first + values.length := by simp; omega
  rw [Array.getElem?_append, Array.getElem?_append, length, lengths]
  by_cases mem : i ∈ List.range' first values.length
  · obtain ⟨k, lt, place⟩ := List.getElem_of_mem mem
    have written := @getElem?_writeAt _ xs _ List.nodup_range' (fun j mem => ?_) _
      List.length_range'.symm _ lt
    · rw [List.length_range'] at lt
      rw [List.getElem_range', Nat.one_mul] at place
      rw [List.getElem_range', Nat.one_mul, place] at written
      rw [written, if_pos (by omega), if_neg (by omega), ← place, Nat.add_sub_cancel_left]
      simp
    · rw [List.mem_range'_1] at mem
      omega
  · rw [getElem?_writeAt_of_not_mem mem]
    rw [List.mem_range'_1] at mem
    by_cases below : i < first
    · rw [if_pos (by omega), if_pos below, Array.getElem?_extract, if_pos (by omega), Nat.zero_add]
    · rw [if_neg (by omega), Array.getElem?_extract]
      split
      · congr 1
        omega
      · exact Array.getElem?_eq_none (by omega)

theorem piece?_eq {first count : Nat} (inside : first + count ≤ xs.size) (few : xs.size ≤ Word.sizeMax) :
    piece? xs first count = some (xs.extract first (first + count)) := by
  rw [piece?, Word.addSizes?_eq (Nat.le_trans inside few), Option.bind_eq_bind, Option.bind_some,
    if_pos inside]
  rfl

section Words

variable (h : p.Inside b.size) (fits : (b.size : Int) ≤ Word.greatest) (step : Word.Fits p.step)

include step in
theorem unitWord_iff : (WordProgression.ofExact p).step = 1 ↔ p.step = 1 := by
  rw [← Int64.toInt_inj, Int64.toInt_one]
  exact Eq.congr_left (Word.toInt_ofInt step)

include h fits step

theorem mapM_positions (count : Nat) (le : count ≤ p.count) :
    ((List.range count).mapM fun k => do b.items[← (WordProgression.ofExact p).position? k]?) =
      some ((List.range count).filterMap fun k => b.items[p.position k]?) := by
  induction count with
  | zero => rfl
  | succ count ih =>
    have here := WordProgression.position?_eq h fits step (i := count) (by omega)
    have inside : p.position count < b.items.size :=
      h.lt_len _ ((p.mem_positions).mpr ⟨count, by omega, rfl⟩)
    rw [List.range_succ, List.mapM_append, ih (by omega), List.filterMap_append]
    simp [here, inside]

theorem copySlice?_eq : b.copySlice? (.ofExact p) = some (b.copySlice p) := by
  have few := h.count_le
  rw [copySlice?, copySlice, show (WordProgression.ofExact p).count = p.count from rfl]
  split
  next nothing =>
    have none : select b.items p = [] := List.eq_nil_of_length_eq_zero ((length_select h).trans nothing)
    rw [none]
    rfl
  next nonempty =>
    split
    next unit =>
      rw [unitWord_iff step] at unit
      have places := h.positions_unit unit
      have last := h.lt_len (p.start.toNat + (p.count - 1)) (by rw [places, List.mem_range'_1]; omega)
      have lowest := WordProgression.ascending?_eq h fits step (by omega)
      rw [Progression.ascending, if_neg (by omega)] at lowest
      have piece : piece? b.items p.start.toNat p.count =
          some (b.items.extract p.start.toNat (p.start.toNat + p.count)) := by
        apply piece?_eq
        · unfold size at last
          omega
        · unfold Word.greatest size at fits
          unfold Word.sizeMax
          omega
      rw [lowest, Option.bind_eq_bind, Option.bind_some]
      dsimp only
      rw [piece, select, if_pos (isContiguous_iff.mpr unit)]
      rfl
    next apart =>
      rw [unitWord_iff step] at apart
      rw [mapM_positions h fits step p.count (Nat.le_refl _), select, if_neg (mt isContiguous_iff.mp apart),
        Progression.positions, List.filterMap_map]
      rfl

theorem assignSlice?_eq (values : List α) (few : (values.length : Int) ≤ Word.greatest)
    (bounds : p.step = 1 → 0 ≤ p.start ∧ p.start.toNat + p.count ≤ b.size) :
    b.assignSlice? (.ofExact p) values = some (b.assignSlice p values) := by
  have sizes {m n : Nat} (left : m ≤ b.size) (right : n ≤ b.size ∨ n ≤ values.length) :
      Word.addSizes? m n = some (m + n) :=
    Word.addSizes?_eq (by unfold Word.greatest at fits few; unfold Word.sizeMax; omega)
  rw [assignSlice?, show (WordProgression.ofExact p).count = p.count from rfl]
  split
  next unit =>
    rw [unitWord_iff step] at unit
    obtain ⟨nonneg, bounded⟩ := bounds unit
    have start : Word.toSize? (WordProgression.ofExact p).start = some p.start.toNat :=
      Word.toSize?_ofInt (by unfold Word.Fits Word.least Word.greatest at *; omega) nonneg
    have stop : Word.addSizes? p.start.toNat p.count = some (p.start.toNat + p.count) :=
      sizes (by omega) (.inl (by omega))
    simp only [start, stop, Option.bind_eq_bind, Option.bind_some, if_neg (Nat.not_lt.mpr bounded), assignSlice,
      isContiguous_iff.mpr unit, if_true]
    by_cases same : values.length = p.count
    · have written : writeAll? (Word.addSizes? p.start.toNat) b.items 0 values =
          some (writeAt b.items (List.range' p.start.toNat values.length) values) := by
        refine writeAll?_eq List.length_range'.symm (fun i mem => ?_) fun k lt => ?_
        · rw [List.mem_range'_1] at mem
          exact Nat.lt_of_lt_of_le mem.2 (by rw [same]; exact bounded)
        · rw [List.length_range'] at lt
          rw [List.getElem_range', Nat.zero_add, Nat.one_mul]
          exact sizes (by omega) (.inl (by omega))
      rw [writeAt_neighbours (by rw [same]; exact bounded), same] at written
      simp only [if_pos same, written, Option.bind_some, Option.pure_def]
      rfl
    · have others : Word.subSizes? b.size p.count = some (b.size - p.count) := if_pos (by omega)
      have need : Word.addSizes? (b.size - p.count) values.length = some (b.size - p.count + values.length) :=
        sizes (by omega) (.inr (Nat.le_refl _))
      simp only [if_neg same, others, need, Option.bind_some, Option.pure_def]
  next apart =>
    rw [unitWord_iff step] at apart
    rw [assignSlice_apart apart]
    by_cases same : values.length = p.count
    · have written : writeAll? (WordProgression.ofExact p).position? b.items 0 values =
          some (writeAt b.items p.positions values) := by
        refine writeAll?_eq (same.trans p.length_positions.symm) h.lt_len fun k lt => ?_
        rw [p.length_positions] at lt
        rw [Nat.zero_add, WordProgression.position?_eq h fits step lt]
        simp [Progression.positions]
      rw [if_neg (not_not_intro same), written, if_pos same]
      rfl
    · rw [if_pos same, if_neg same]

end Words

end Buffer

end DynamicObjects
