import DynamicObjects.Proofs.Slices.Deletion

/-!
Deleting the places of a slice in one pass. A fill cursor follows a read cursor over the buffer, and a skip
cursor stands on the next place that is to go. All cursors are machine sizes: an addition that leaves the
sizes, and an access outside the buffer, has no result here. There always is one, and it is the buffer
without the places.
-/
namespace DynamicObjects

def Word.addSizes? (m n : Nat) : Option Nat :=
  if m + n ≤ Word.sizeMax then some (m + n) else none

theorem Word.addSizes?_eq {m n : Nat} (h : m + n ≤ Word.sizeMax) : addSizes? m n = some (m + n) :=
  if_pos h

namespace Buffer

variable {α : Type}

/-- The buffer during a pass, and the cursors in it. -/
structure Cursors (α : Type) where
  items : Array α
  fill : Nat
  nextSkip : Nat
  skipped : Nat

def swap? (items : Array α) (i j : Nat) : Option (Array α) :=
  if h : i < items.size ∧ j < items.size then some (items.swap i j h.1 h.2) else none

/-- Reads one place: it is skipped, or its item goes to the fill cursor. -/
def Cursors.step? (stride count : Nat) (c : Cursors α) (read : Nat) : Option (Cursors α) :=
  if c.skipped < count ∧ read = c.nextSkip then do
    let skipped ← Word.addSizes? c.skipped 1
    let nextSkip ← Word.addSizes? c.nextSkip stride
    return { c with skipped, nextSkip }
  else do
    let items ← swap? c.items c.fill read
    let fill ← Word.addSizes? c.fill 1
    return { c with items, fill }

/-- Neighbouring places are drained at once; all others are skipped one by one, and what is behind the
fill cursor is cut off. -/
def deleteSlice? (b : Buffer α) (q : WordProgression) : Option (Buffer α) :=
  if q.count = 0 then some b
  else do
    let (first, stride) ← q.ascending?
    if stride = 1 then
      let stop ← Word.addSizes? first q.count
      if stop ≤ b.size then
        return { b with items := b.items.extract 0 first ++ b.items.extract stop b.size }
      else none
    else
      let c ← (List.range' first (b.size - first)).foldlM (Cursors.step? stride q.count)
        ⟨b.items, first, first, 0⟩
      return { b with items := c.items.extract 0 c.fill }

/-- Where the cursors stand when all places below `read` have been read. -/
structure Cursors.Passed (xs : List α) (first stride count read : Nat) (c : Cursors α) : Prop where
  size : c.items.size = xs.length
  skipped_le : c.skipped ≤ count
  nextSkip : c.nextSkip = first + stride * c.skipped
  ahead : c.skipped < count → read ≤ c.nextSkip
  behind : ∀ j < c.skipped, first + stride * j < read
  fill_le : c.fill ≤ read
  filled : c.items.toList.take c.fill = remaining (List.range' first count stride) 0 (xs.take read)
  unread : ∀ i, read ≤ i → c.items[i]? = xs[i]?

theorem take_swap {items : Array α} {fill read : Nat} (hf : fill < items.size) (hr : read < items.size)
    (le : fill ≤ read) :
    (items.swap fill read hf hr).toList.take (fill + 1) = items.toList.take fill ++ [items[read]] := by
  have below : (items.swap fill read hf hr).toList.take fill = items.toList.take fill := by
    apply List.ext_getElem?
    intro i
    rw [List.getElem?_take, List.getElem?_take]
    split
    · rw [Array.getElem?_toList, Array.getElem?_swap, if_neg (by omega), if_neg (by omega),
        Array.getElem?_toList]
    · rfl
  rw [List.take_add_one, below, Array.getElem?_toList, Array.getElem?_swap]
  by_cases same : read = fill
  · subst same
    rw [if_pos rfl]
    rfl
  · rw [if_neg same, if_pos rfl]
    rfl

section Pass

variable {xs : List α} {first stride count read : Nat} {c : Cursors α}

theorem Cursors.Passed.skips (h : c.Passed xs first stride count read) (positive : 0 < stride) :
    (c.skipped < count ∧ read = c.nextSkip) ↔ read ∈ List.range' first count stride := by
  rw [List.mem_range']
  constructor
  · rintro ⟨more, rfl⟩
    exact ⟨c.skipped, more, h.nextSkip⟩
  · rintro ⟨j, lt, rfl⟩
    have reached : c.skipped ≤ j := by
      by_contra passed
      have := h.behind j (by omega)
      omega
    have next := h.ahead (by omega)
    rw [h.nextSkip] at next ⊢
    have : j ≤ c.skipped := Nat.le_of_mul_le_mul_left (by omega) positive
    obtain rfl : j = c.skipped := by omega
    exact ⟨lt, rfl⟩

theorem Cursors.Passed.step (h : c.Passed xs first stride count read) (positive : 0 < stride)
    (fits : xs.length ≤ Word.allocationMax) (word : stride ≤ Word.allocationMax)
    (few : count ≤ xs.length) (here : read < xs.length) :
    ∃ c', c.step? stride count read = some c' ∧ c'.Passed xs first stride count (read + 1) := by
  unfold Word.allocationMax at fits word
  have sizes {m n : Nat} (small : m + n < 2 ^ 64) : Word.addSizes? m n = some (m + n) :=
    Word.addSizes?_eq (by unfold Word.sizeMax; omega)
  have item : xs.take (read + 1) = xs.take read ++ [xs[read]] := by
    rw [List.take_add_one, List.getElem?_eq_getElem here]
    rfl
  have length : (xs.take read).length = read := by
    rw [List.length_take]
    omega
  rw [step?]
  by_cases skip : c.skipped < count ∧ read = c.nextSkip
  · have gone := (h.skips positive).mp skip
    rw [if_pos skip, sizes (m := c.skipped) (by omega), sizes (m := c.nextSkip) (by omega)]
    refine ⟨_, rfl, h.size, skip.1, ?_, fun _ => ?_, ?_, Nat.le_succ_of_le h.fill_le, ?_, ?_⟩
    · rw [h.nextSkip]
      ring
    · dsimp only
      omega
    · intro j lt
      rcases Nat.lt_succ_iff_lt_or_eq.mp lt with lt | rfl
      · exact Nat.lt_succ_of_lt (h.behind j lt)
      · rw [← h.nextSkip, skip.2]
        exact Nat.lt_succ_self _
    · rw [item, remaining_append, remaining_cons, length, Nat.zero_add, if_pos gone, h.filled]
      exact (List.append_nil _).symm
    · exact fun i le => h.unread i (by omega)
  · have kept : read ∉ List.range' first count stride := fun mem => skip ((h.skips positive).mpr mem)
    have readInside : read < c.items.size := by rw [h.size]; exact here
    have fillInside : c.fill < c.items.size := Nat.lt_of_le_of_lt h.fill_le readInside
    have same : c.items[read] = xs[read] := by
      have := h.unread read (Nat.le_refl _)
      rwa [Array.getElem?_eq_getElem readInside, List.getElem?_eq_getElem here, Option.some.injEq] at this
    rw [if_neg skip, swap?, dif_pos ⟨fillInside, readInside⟩, Option.bind_eq_bind, Option.bind_some,
      sizes (by have := h.fill_le; omega)]
    refine ⟨_, rfl, ?_, h.skipped_le, h.nextSkip, fun more => ?_, ?_, Nat.succ_le_succ h.fill_le, ?_, ?_⟩
    · rw [Array.size_swap, h.size]
    · have next := h.ahead more
      dsimp only at more ⊢
      omega
    · exact fun j lt => Nat.lt_succ_of_lt (h.behind j lt)
    · rw [take_swap fillInside readInside h.fill_le, item, remaining_append, remaining_cons, length,
        Nat.zero_add, if_neg kept, h.filled, same]
      rfl
    · intro i le
      have filled := h.fill_le
      rw [Array.getElem?_swap, if_neg (by omega), if_neg (by omega)]
      exact h.unread i (by omega)

theorem Cursors.Passed.run (h : c.Passed xs first stride count read) (positive : 0 < stride)
    (fits : xs.length ≤ Word.allocationMax) (word : stride ≤ Word.allocationMax)
    (few : count ≤ xs.length) (unread : Nat) (rest : read + unread = xs.length) :
    ∃ c', (List.range' read unread).foldlM (step? stride count) c = some c' ∧
      c'.Passed xs first stride count xs.length := by
  induction unread generalizing read c with
  | zero => exact ⟨c, rfl, by rwa [← rest]⟩
  | succ unread ih =>
    obtain ⟨c₁, stepped, passed⟩ := h.step positive fits word few (by omega)
    obtain ⟨c', ran, done⟩ := ih passed (by omega)
    refine ⟨c', ?_, done⟩
    rw [List.range'_succ, List.foldlM_cons, stepped]
    exact ran

end Pass

/-- Up to the lowest place nothing has to be read. -/
theorem Cursors.passed_start (items : Array α) (first stride count : Nat) :
    (Cursors.mk items first first 0).Passed items.toList first stride count first where
  size := Array.length_toList.symm
  skipped_le := Nat.zero_le _
  nextSkip := by simp
  ahead _ := Nat.le_refl _
  behind j lt := absurd lt (Nat.not_lt_zero j)
  fill_le := Nat.le_refl _
  filled := by
    show items.toList.take first = _
    refine (remaining_of_none fun i _ high mem => ?_).symm
    obtain ⟨j, -, rfl⟩ := List.mem_range'.mp mem
    rw [List.length_take] at high
    omega
  unread i _ := Array.getElem?_toList.symm

theorem remaining_range {xs : List α} {first count : Nat} (inside : first + count ≤ xs.length) :
    remaining (List.range' first count 1) 0 xs = xs.take first ++ xs.drop (first + count) := by
  have before : remaining (List.range' first count 1) 0 (xs.take first) = xs.take first := by
    refine remaining_of_none fun i _ high mem => ?_
    obtain ⟨j, -, rfl⟩ := List.mem_range'.mp mem
    rw [List.length_take] at high
    omega
  have gone : remaining (List.range' first count 1) first ((xs.drop first).take count) = [] := by
    refine remaining_of_all fun i low high => ?_
    rw [List.length_take] at high
    exact List.mem_range'.mpr ⟨i - first, by omega, by omega⟩
  have behind : remaining (List.range' first count 1) (first + count) (xs.drop (first + count)) =
      xs.drop (first + count) := by
    refine remaining_of_none fun i low _ mem => ?_
    obtain ⟨j, lt, rfl⟩ := List.mem_range'.mp mem
    omega
  calc remaining (List.range' first count 1) 0 xs
      = remaining (List.range' first count 1) 0
          (xs.take first ++ ((xs.drop first).take count ++ xs.drop (first + count))) := by
        rw [← List.drop_drop, List.take_append_drop, List.take_append_drop]
    _ = xs.take first ++ xs.drop (first + count) := by
        rw [remaining_append, remaining_append, before, List.length_take, List.length_take,
          List.length_drop, Nat.zero_add, Nat.min_eq_left (by omega), gone, Nat.min_eq_left (by omega),
          behind, List.nil_append]

theorem deleteSlice?_eq {b : Buffer α} {p : Progression} {q : WordProgression} (h : p.Inside b.size)
    (fits : (b.size : Int) ≤ Word.greatest) (word : p.step.natAbs ≤ Word.allocationMax)
    (count : q.count = p.count) (ascending : 0 < p.count → q.ascending? = some p.ascending) :
    b.deleteSlice? q = some (b.deleteSlice p) := by
  rcases Nat.eq_zero_or_pos p.count with nothing | some
  · rw [deleteSlice?, if_pos (count.trans nothing), deleteSlice, if_pos nothing]
  obtain ⟨first, stride, lowest⟩ : ∃ first stride, p.ascending = (first, stride) := ⟨_, _, rfl⟩
  have places {i : Nat} : i ∈ List.range' first p.count stride ↔ i ∈ p.positions := by
    have := h.mem_upwards (i := i)
    rwa [lowest] at this
  have strides : stride = p.step.natAbs := by
    have := (h.ascending some).2
    rwa [lowest] at this
  have low : first < b.size :=
    h.lt_len _ (places.mp (List.mem_range'.mpr ⟨0, some, by simp⟩))
  have nonzero := h.step
  have few := h.count_le
  have small : b.size ≤ Word.allocationMax := by
    unfold Word.greatest at fits
    unfold Word.allocationMax
    omega
  have left (items : Array α)
      (kept : items.toList = remaining (List.range' first p.count stride) 0 b.toList) :
      { b with items } = b.deleteSlice p :=
    eq_deleteSlice h (kept.trans (remaining_congr fun i _ _ => places))
  rw [deleteSlice?, if_neg (by omega), ascending some, lowest, Option.bind_eq_bind, Option.bind_some, count]
  dsimp only
  split
  next one =>
    subst one
    have last : first + (p.count - 1) < b.size :=
      h.lt_len _ (places.mp (List.mem_range'.mpr ⟨p.count - 1, by omega, by omega⟩))
    have fewer : first + p.count ≤ b.size := by omega
    rw [Word.addSizes?_eq (by unfold Word.allocationMax at small; unfold Word.sizeMax; omega),
      Option.bind_eq_bind, Option.bind_some, if_pos fewer]
    refine congrArg Option.some (left _ ?_)
    rw [remaining_range (by rw [toList, Array.length_toList]; exact fewer)]
    simp [toList, size, List.take_of_length_le]
  next apart =>
    have start := Cursors.passed_start b.items first stride p.count
    obtain ⟨c, ran, passed⟩ := start.run (by omega) (by rw [Array.length_toList]; exact small)
      (by omega) (by rw [Array.length_toList]; exact few) (b.size - first)
      (by rw [Array.length_toList]; unfold size at *; omega)
    rw [ran, Option.bind_eq_bind, Option.bind_some]
    refine congrArg Option.some (left _ ?_)
    have filled := passed.filled
    rw [List.take_length] at filled
    simpa [toList] using filled

end Buffer

namespace Slice

/-- What deleting the places `p` of a slice `s` does to a buffer. -/
structure Deletion {α : Type} (s : Slice) (b : Buffer α) (p : Progression) : Prop where
  /-- The items at all other places are left, in their order. -/
  left : (b.deleteSlice p).toList = remaining p.positions 0 b.toList
  samePlaces : ∀ (s' : Slice) q, s'.indices b.size = .ok q →
    (∀ i, i ∈ q.positions ↔ i ∈ p.positions) → b.deleteSlice q = b.deleteSlice p
  /-- A slice that goes forwards deletes the same, in whatever direction `s` goes. -/
  upwards : ∃ q, p.upwards.indices b.size = .ok q ∧ 0 < q.step ∧
    (∀ i, i ∈ q.positions ↔ i ∈ p.positions) ∧ b.deleteSlice q = b.deleteSlice p
  everything : (b.size : Int) ≤ Word.greatest → s = ⟨none, none, some (-1)⟩ →
    (b.deleteSlice p).items = #[]
  /-- On machine words and sizes the cursors do it without leaving them or the buffer. -/
  cursors : (b.size : Int) ≤ Word.greatest → ∃ q, s.indices? b.size = some q ∧ q.exact = p ∧
    b.deleteSlice? q = some (b.deleteSlice p)

theorem mem_positions_backwards {len : Nat} (fits : (len : Int) ≤ Word.greatest) {p : Progression}
    (resolved : indices ⟨none, none, some (-1)⟩ len = .ok p) {i : Nat} (lt : i < len) :
    i ∈ p.positions := by
  rw [indices_eq (by decide) fits] at resolved
  obtain rfl := (Except.ok.inj resolved).symm
  have back : (-1 : Int64).toInt = -1 := rfl
  rw [Progression.mem_positions]
  refine ⟨len - 1 - i, ?_, ?_⟩
  · simp [walkStart, walkStop, writtenStep, stride, countBetween, back, Word.greatest, Nat.zero_lt_of_lt lt]
    omega
  · simp [Progression.position, walkStart, writtenStep, stride, back, Word.greatest]
    omega

/-- Deleting the places of a slice whose step is not zero leaves exactly the items at the other places. -/
theorem deleteSlice_leaves {α : Type} (b : Buffer α) {s : Slice} (nonzero : s.step ≠ some 0) :
    ∃ p, s.indices b.size = .ok p ∧ s.Deletion b p := by
  obtain ⟨p, resolved⟩ : ∃ p, s.indices b.size = .ok p := by
    cases resolved : s.indices b.size with
    | ok p => exact ⟨p, rfl⟩
    | error e => exact absurd ((indices_eq_error_iff s b.size).mp ⟨e, resolved⟩) nonzero
  have inside := inside_any resolved
  have step := fits_step resolved
  refine ⟨p, resolved, ?_⟩
  constructor
  case left => exact Buffer.toList_deleteSlice inside
  case samePlaces =>
    exact fun s' q resolved' same => Buffer.deleteSlice_congr inside (inside_any resolved') same
  case upwards =>
    obtain ⟨q, upwards, positive, same⟩ := (inside_clamped resolved).indices_upwards
      (by unfold Word.greatest; omega) step
    rw [← indices_clamped] at upwards
    exact ⟨q, upwards, positive, same, Buffer.deleteSlice_congr inside (inside_any upwards) same⟩
  case everything =>
    rintro fits rfl
    apply Array.toList_eq_nil_iff.mp
    refine (Buffer.toList_deleteSlice inside).trans (remaining_of_all fun i _ lt => ?_)
    refine mem_positions_backwards fits resolved ?_
    simpa [Buffer.toList, Buffer.size] using lt
  case cursors =>
    intro fits
    obtain ⟨computed, exact⟩ := words_of_indices nonzero fits resolved
    refine ⟨_, computed, exact, Buffer.deleteSlice?_eq inside fits ?_ rfl ?_⟩
    · unfold Word.greatest at step
      unfold Word.allocationMax
      omega
    · have word : Word.Fits p.step := by
        unfold Word.Fits Word.least
        unfold Word.greatest at *
        omega
      exact WordProgression.ascending?_eq inside fits word

/-- Every third place from the last but one down, of ten. -/
theorem deleteSlice_leaves_third :
    (⟨some 8, some 1, some (-3)⟩ : Slice).step ≠ some 0 ∧
      ∃ p, (⟨some 8, some 1, some (-3)⟩ : Slice).indices 10 = .ok p ∧
        Deletion ⟨some 8, some 1, some (-3)⟩ (.ofArray #[0, 1, 2, 3, 4, 5, 6, 7, 8, 9]) p ∧
        (Buffer.deleteSlice (.ofArray #[0, 1, 2, 3, 4, 5, 6, 7, 8, 9]) p).toList = [0, 1, 3, 4, 6, 7, 9] := by
  refine ⟨by decide, ?_⟩
  obtain ⟨p, resolved, deleted⟩ := deleteSlice_leaves
    (.ofArray #[0, 1, 2, 3, 4, 5, 6, 7, 8, 9]) (s := ⟨some 8, some 1, some (-3)⟩) (by decide)
  refine ⟨p, resolved, deleted, deleted.left.trans ?_⟩
  obtain rfl := (Except.ok.inj (resolved.symm.trans (show _ = Except.ok ⟨8, 1, -3, 3⟩ from by decide)))
  decide

end Slice

end DynamicObjects
