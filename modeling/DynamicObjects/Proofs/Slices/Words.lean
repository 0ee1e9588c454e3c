import DynamicObjects.Proofs.Slices.Walk
import Mathlib.Algebra.Order.Ring.Int

/-!
Slices on words. Resolving a slice, finding one of its positions and finding the lowest are computed here
on signed words, with every operation checked: there is no result as soon as an exact one is no word.
For sequences that a word can count there always is one, and it is the exact one. Only the lowest position
of nothing is not to be asked for: with the largest step backwards it lies beyond the words.
-/
namespace DynamicObjects

namespace Word

def saturatingAdd (x y : Int64) : Int64 :=
  Int64.ofInt (max least (min greatest (x.toInt + y.toInt)))

def quotient? (x y : Int64) : Option Int64 :=
  if y = 0 then none else ofInt? (Int.tdiv x.toInt y.toInt)

def toSize? (x : Int64) : Option Nat :=
  if 0 ≤ x.toInt then some x.toInt.toNat else none

variable {m n : Int}

theorem ofInt?_of_fits (h : Fits n) : ofInt? n = some (Int64.ofInt n) := if_pos h

theorem add?_ofInt (hm : Fits m) (hn : Fits n) (h : Fits (m + n)) :
    add? (Int64.ofInt m) (Int64.ofInt n) = some (Int64.ofInt (m + n)) := by
  rw [add?, toInt_ofInt hm, toInt_ofInt hn, ofInt?_of_fits h]

theorem sub?_ofInt (hm : Fits m) (hn : Fits n) (h : Fits (m - n)) :
    sub? (Int64.ofInt m) (Int64.ofInt n) = some (Int64.ofInt (m - n)) := by
  rw [sub?, toInt_ofInt hm, toInt_ofInt hn, ofInt?_of_fits h]

theorem sub?_one (hm : Fits m) (h : Fits (m - 1)) :
    sub? (Int64.ofInt m) 1 = some (Int64.ofInt (m - 1)) := by
  rw [sub?, toInt_ofInt hm, Int64.toInt_one, ofInt?_of_fits h]

theorem add?_one (hm : Fits m) (h : Fits (m + 1)) :
    add? (Int64.ofInt m) 1 = some (Int64.ofInt (m + 1)) := by
  rw [add?, toInt_ofInt hm, Int64.toInt_one, ofInt?_of_fits h]

theorem mul?_ofInt (hm : Fits m) (hn : Fits n) (h : Fits (m * n)) :
    mul? (Int64.ofInt m) (Int64.ofInt n) = some (Int64.ofInt (m * n)) := by
  rw [mul?, toInt_ofInt hm, toInt_ofInt hn, ofInt?_of_fits h]

theorem neg?_ofInt (hn : Fits n) (h : Fits (-n)) :
    neg? (Int64.ofInt n) = some (Int64.ofInt (-n)) := by
  rw [neg?, toInt_ofInt hn, ofInt?_of_fits h]

theorem quotient?_ofInt (hm : Fits m) (hn : Fits n) (nonneg : 0 ≤ m) (positive : 0 < n) :
    quotient? (Int64.ofInt m) (Int64.ofInt n) = some (Int64.ofInt (m / n)) := by
  have nonzero : Int64.ofInt n ≠ 0 := by
    intro zero
    have := toInt_ofInt hn
    rw [zero, Int64.toInt_zero] at this
    omega
  have smaller : m / n ≤ m := Int.ediv_le_self n nonneg
  have fits : Fits (m / n) := by
    have := Int.ediv_nonneg nonneg positive.le
    unfold Fits least greatest at *
    omega
  rw [quotient?, if_neg nonzero, toInt_ofInt hm, toInt_ofInt hn, Int.tdiv_eq_ediv_of_nonneg nonneg,
    ofInt?_of_fits fits]

theorem toSize?_ofInt (fits : Fits n) (h : 0 ≤ n) : toSize? (Int64.ofInt n) = some n.toNat := by
  simp [toSize?, toInt_ofInt fits, h]

end Word

structure WordProgression where
  start : Int64
  stop : Int64
  step : Int64
  count : Nat
  deriving DecidableEq

namespace WordProgression

def exact (q : WordProgression) : Progression :=
  ⟨q.start.toInt, q.stop.toInt, q.step.toInt, q.count⟩

def place? (q : WordProgression) (steps : Int64) : Option Nat := do
  let offset ← Word.mul? steps q.step
  let place ← Word.add? q.start offset
  Word.toSize? place

def position? (q : WordProgression) (i : Nat) : Option Nat := do
  q.place? (← Word.ofInt? i)

def ascending? (q : WordProgression) : Option (Nat × Nat) :=
  if q.step.toInt < 0 then do
    let count ← Word.ofInt? q.count
    let steps ← Word.sub? count 1
    return (← q.place? steps, q.step.toInt.natAbs)
  else return (← Word.toSize? q.start, ← Word.toSize? q.step)

end WordProgression

namespace Slice

def adjustBound? (bound len step : Int64) : Option Int64 :=
  if bound.toInt < 0 then
    let wrapped := Word.saturatingAdd bound len
    some (if wrapped.toInt < 0 then if step.toInt < 0 then -1 else 0 else wrapped)
  else if len.toInt ≤ bound.toInt then
    if step.toInt < 0 then Word.sub? len 1 else some len
  else some bound

def stepsBetween? (near far size : Int64) : Option Nat := do
  let distance ← Word.sub? far near
  let others ← Word.sub? distance 1
  let whole ← Word.quotient? others size
  let count ← Word.add? whole 1
  Word.toSize? count

def countBetween? (start stop step : Int64) : Option Nat :=
  if step.toInt < 0 then
    if stop.toInt < start.toInt then do stepsBetween? stop start (← Word.neg? step) else some 0
  else if start.toInt < stop.toInt then stepsBetween? start stop step
  else some 0

def strideWord (s : Slice) : Int64 :=
  match s.step with
  | none => 1
  | some step => if step.toInt < -Word.greatest then Int64.ofInt (-Word.greatest) else step

/-- Resolves a slice whose step is not zero. -/
def indices? (s : Slice) (len : Nat) : Option WordProgression := do
  let step := s.strideWord
  let size ← Word.ofInt? len
  let start ← adjustBound? (s.start.getD (Int64.ofInt (defaultStart step.toInt))) size step
  let stop ← adjustBound? (s.stop.getD (Int64.ofInt (defaultStop step.toInt))) size step
  return ⟨start, stop, step, ← countBetween? start stop step⟩

variable {s : Slice} {len : Nat}

theorem toInt_strideWord (s : Slice) : s.strideWord.toInt = s.stride := by
  unfold strideWord stride
  cases s.step with
  | none => decide
  | some step =>
    dsimp only
    split
    · rw [Word.toInt_ofInt (by decide)]
      omega
    · omega

theorem strideWord_eq (s : Slice) : s.strideWord = Int64.ofInt s.stride := by
  rw [← toInt_strideWord, Int64.ofInt_toInt]

theorem fits_stride (s : Slice) : Word.Fits s.stride := by
  rw [← toInt_strideWord]
  exact Word.fits_toInt _

theorem adjustBound?_eq (fits : (len : Int) ≤ Word.greatest) (bound step : Int64) :
    adjustBound? bound (Int64.ofInt len) step =
      some (Int64.ofInt (adjustBound bound.toInt len step.toInt)) := by
  have size : Word.Fits len := ⟨by unfold Word.least; omega, fits⟩
  have low := Word.fits_toInt bound
  unfold adjustBound? adjustBound
  rw [Word.toInt_ofInt size]
  split
  · -- a negative bound and a length never leave the words, so nothing is cut off
    have between : Word.Fits (bound.toInt + len) := by
      unfold Word.Fits Word.least Word.greatest at *
      omega
    have sum : Word.saturatingAdd bound (Int64.ofInt len) = Int64.ofInt (bound.toInt + len) := by
      unfold Word.saturatingAdd
      rw [Word.toInt_ofInt size]
      unfold Word.Fits at between
      congr 1
      omega
    simp only [sum, Word.toInt_ofInt between]
    split
    · split <;> rfl
    · rfl
  · split
    · split
      · apply Word.sub?_one size
        unfold Word.Fits Word.least Word.greatest at *
        omega
      · rfl
    · rw [Int64.ofInt_toInt]

theorem stepsBetween?_eq {near far size : Int} (low : -1 ≤ near) (high : far - near ≤ Word.greatest)
    (fits : Word.Fits far) (apart : near < far) (positive : 0 < size) (small : Word.Fits size) :
    stepsBetween? (Int64.ofInt near) (Int64.ofInt far) (Int64.ofInt size) =
      some (stepsIn (far - near) size) := by
  have nonneg : 0 ≤ (far - near - 1) / size := Int.ediv_nonneg (by omega) positive.le
  have shorter : (far - near - 1) / size ≤ far - near - 1 := Int.ediv_le_self size (by omega)
  have fitting (n : Int) (least : -1 ≤ n) (most : n ≤ far - near ∨ n ≤ far) : Word.Fits n := by
    unfold Word.Fits Word.least Word.greatest at *
    omega
  unfold stepsBetween?
  have distance := Word.sub?_ofInt fits (fitting near (by omega) (by omega))
    (fitting (far - near) (by omega) (by omega))
  have others := Word.sub?_one (fitting (far - near) (by omega) (by omega))
    (fitting (far - near - 1) (by omega) (by omega))
  have whole := Word.quotient?_ofInt (fitting (far - near - 1) (by omega) (by omega)) small
    (by omega) positive
  have count := Word.add?_one (fitting ((far - near - 1) / size) (by omega) (by omega))
    (fitting ((far - near - 1) / size + 1) (by omega) (by omega))
  have last := Word.toSize?_ofInt (fitting ((far - near - 1) / size + 1) (by omega) (by omega))
    (by omega)
  simp only [distance, others, whole, count, last, Option.bind_eq_bind, Option.bind_some, stepsIn,
    Int.sub_pos, apart, if_true]

theorem fits_walkEnds (s : Slice) (fits : (len : Int) ≤ Word.greatest) :
    Word.Fits (s.walkStart len) ∧ Word.Fits (s.walkStop len) := by
  have ends := walkEnds s len
  unfold Word.Fits Word.least Word.greatest at *
  split at ends <;> omega

theorem countBetween?_walk (h : s.step ≠ some 0) (fits : (len : Int) ≤ Word.greatest) :
    countBetween? (Int64.ofInt (s.walkStart len)) (Int64.ofInt (s.walkStop len)) s.strideWord =
      some (countBetween (s.walkStart len) (s.walkStop len) s.stride) := by
  have ends := walkEnds s len
  have moves := stride_ne_zero h
  have bounded := fits_stride s
  obtain ⟨start, stop⟩ := fits_walkEnds s fits
  have negated : Word.Fits (-s.stride) := by
    have clamped := stride_eq s
    unfold Word.Fits Word.least Word.greatest at *
    omega
  rw [countBetween_eq, strideWord_eq]
  unfold countBetween?
  rw [Word.toInt_ofInt start, Word.toInt_ofInt stop, Word.toInt_ofInt bounded]
  split at ends
  · simp only [if_true, *]
    split
    · rw [Word.neg?_ofInt bounded negated]
      exact stepsBetween?_eq (by omega) (by omega) start (by assumption) (by omega) negated
    · simp only [stepsIn, Int.sub_pos, *, if_false]
  · simp only [if_false, *]
    split
    · exact stepsBetween?_eq (by omega) (by omega) stop (by assumption) (by omega) bounded
    · simp only [stepsIn, Int.sub_pos, *, if_false]

theorem indices?_eq (h : s.step ≠ some 0) (fits : (len : Int) ≤ Word.greatest) :
    s.indices? len = some ⟨Int64.ofInt (s.walkStart len), Int64.ofInt (s.walkStop len), s.strideWord,
      countBetween (s.walkStart len) (s.walkStop len) s.stride⟩ := by
  have size : Word.Fits len := ⟨by unfold Word.least; omega, fits⟩
  have resolved := indices_eq h fits
  unfold indices at resolved
  simp only [h, if_false, clampLength_eq fits, Except.ok.injEq, Progression.mk.injEq] at resolved
  have written (bound : Option Int64) {n : Int} (word : Word.Fits n) :
      (bound.getD (Int64.ofInt n)).toInt = (bound.map Int64.toInt).getD n := by
    cases bound with
    | none => exact Word.toInt_ofInt word
    | some bound => rfl
  have default_start : Word.Fits (defaultStart s.stride) := by
    unfold defaultStart
    split <;> decide
  have default_stop : Word.Fits (defaultStop s.stride) := by
    unfold defaultStop
    split <;> decide
  unfold indices?
  simp only [Word.ofInt?_of_fits size, toInt_strideWord, adjustBound?_eq fits, written _ default_start,
    written _ default_stop, resolved, countBetween?_walk h fits, Option.bind_eq_bind, Option.bind_some,
    Option.pure_def]

end Slice

namespace WordProgression

variable {p : Progression} {len : Nat}

theorem fits_of_inside (h : p.Inside len) (fits : (len : Int) ≤ Word.greatest) {i : Nat}
    (lt : i < p.count) : Word.Fits i ∧ Word.Fits (i * p.step) ∧ Word.Fits p.start := by
  have first := h.nonneg 0 (by omega)
  have first' := h.below 0 (by omega)
  have here := h.nonneg i lt
  have here' := h.below i lt
  have steps : (i : Int) ≤ i * p.step ∨ i ≤ -(i * p.step) := by
    have moves := h.step
    rw [← Int.mul_neg]
    by_cases forwards : 0 < p.step
    · exact .inl (le_mul_of_one_le_right (by omega) forwards)
    · exact .inr (le_mul_of_one_le_right (by omega) (by omega))
  simp only [Int.natCast_zero, Int.zero_mul] at *
  unfold Word.Fits Word.least Word.greatest at *
  omega

def ofExact (p : Progression) : WordProgression :=
  ⟨Int64.ofInt p.start, Int64.ofInt p.stop, Int64.ofInt p.step, p.count⟩

theorem place?_eq (h : p.Inside len) (fits : (len : Int) ≤ Word.greatest) (step : Word.Fits p.step)
    {i : Nat} (lt : i < p.count) : (ofExact p).place? (Int64.ofInt i) = some (p.position i) := by
  obtain ⟨steps, offset, start⟩ := fits_of_inside h fits lt
  have low := h.nonneg i lt
  have place : Word.Fits (p.start + i * p.step) := by
    have := h.below i lt
    unfold Word.Fits Word.least Word.greatest at *
    omega
  simp only [place?, ofExact, Word.mul?_ofInt steps step offset, Word.add?_ofInt start offset place,
    Word.toSize?_ofInt place low, Option.bind_eq_bind, Option.bind_some, Progression.position]

theorem position?_eq (h : p.Inside len) (fits : (len : Int) ≤ Word.greatest) (step : Word.Fits p.step)
    {i : Nat} (lt : i < p.count) : (ofExact p).position? i = some (p.position i) := by
  obtain ⟨steps, _, _⟩ := fits_of_inside h fits lt
  simp only [position?, Word.ofInt?_of_fits steps, Option.bind_eq_bind, Option.bind_some,
    place?_eq h fits step lt]

theorem ascending?_eq (h : p.Inside len) (fits : (len : Int) ≤ Word.greatest) (step : Word.Fits p.step)
    (some : 0 < p.count) : (ofExact p).ascending? = .some p.ascending := by
  obtain ⟨last, _, start⟩ := fits_of_inside h fits (show p.count - 1 < p.count by omega)
  have first := h.nonneg 0 some
  unfold ascending? Progression.ascending
  rw [show (ofExact p).step.toInt = p.step from Word.toInt_ofInt step]
  split
  · have count : Word.Fits p.count := by
      have := h.count_le
      unfold Word.Fits Word.least Word.greatest at *
      omega
    have less : ((p.count : Int) - 1) = (p.count - 1 : Nat) := by omega
    have place := place?_eq h fits step (show p.count - 1 < p.count by omega)
    simp only [show (ofExact p).count = p.count from rfl, Word.ofInt?_of_fits count,
      Word.sub?_one count (less ▸ last), less, place, Option.bind_eq_bind, Option.bind_some, Option.pure_def]
  · have begins := Word.toSize?_ofInt start (by omega)
    have strides := Word.toSize?_ofInt step (by omega)
    simp only [ofExact, begins, strides, Option.bind_eq_bind, Option.bind_some, Option.pure_def]

end WordProgression

/-- What a progression is to the slice that it comes from. -/
structure Slice.Resolution (s : Slice) (len : Nat) (p : Progression) : Prop where
  positions : p.positions.map Int.ofNat = s.places len
  count : p.count = (s.places len).length
  nodup : p.positions.Nodup
  inside : ∀ i ∈ p.positions, i < len
  step : p.step = max s.writtenStep (-Word.greatest)
  /-- The lowest position, with the size of the step. -/
  lowest : 0 < p.count → (p.ascending.1 ∈ p.positions ∧ ∀ i ∈ p.positions, p.ascending.1 ≤ i) ∧
    p.ascending.2 = p.step.natAbs
  range : p.step = 1 → (p.start, p.stop) =
    Prod.map Int.ofNat Int.ofNat (Index.adjustRange (s.start.map Int64.toInt) (s.stop.map Int64.toInt) len)
  /-- All of it is computed on words without leaving them. -/
  words : ∃ q, s.indices? len = some q ∧ q.exact = p ∧
    (∀ i < p.count, q.position? i = some (p.position i)) ∧
    (0 < p.count → q.ascending? = some p.ascending)

namespace Slice

variable {s : Slice} {len : Nat}

theorem clampInsert_eq (bound : Int64) (fits : (len : Int) ≤ Word.greatest) :
    (Index.clampInsert bound.toInt len : Int) = clampedBound len 0 len bound := by
  unfold Index.clampInsert clampedBound
  rw [clampLength_eq fits]
  dsimp only
  split <;> omega

theorem adjustRange_eq (fits : (len : Int) ≤ Word.greatest) (forwards : ¬ s.writtenStep < 0) :
    (s.walkStart len, s.walkStop len) = Prod.map Int.ofNat Int.ofNat
      (Index.adjustRange (s.start.map Int64.toInt) (s.stop.map Int64.toInt) len) := by
  unfold walkStart walkStop Index.adjustRange
  simp only [forwards, if_false]
  cases s.start <;> cases s.stop <;>
    simp [clampInsert_eq _ fits]

theorem words_of_indices (h : s.step ≠ some 0) (fits : (len : Int) ≤ Word.greatest) {p : Progression}
    (resolved : s.indices len = .ok p) :
    s.indices? len = some (.ofExact p) ∧ (WordProgression.ofExact p).exact = p := by
  rw [indices_eq h fits, Except.ok.injEq] at resolved
  subst resolved
  obtain ⟨start, stop⟩ := fits_walkEnds s fits
  rw [indices?_eq h fits, strideWord_eq]
  simp [WordProgression.exact, WordProgression.ofExact, Word.toInt_ofInt start, Word.toInt_ofInt stop,
    Word.toInt_ofInt (fits_stride s)]

/-- Resolving a slice fails for a step of zero only, and else gives the positions of its walk. -/
theorem indices_resolve (s : Slice) {len : Nat} (fits : (len : Int) ≤ Word.greatest) :
    (∀ e, s.indices len = .error e ↔ s.step = some 0 ∧ e = .sliceStepZero) ∧
      ∀ p, s.indices len = .ok p → s.Resolution len p := by
  constructor
  · intro e
    unfold indices
    split <;> simp_all [eq_comm]
  · intro p resolved
    have nonzero : s.step ≠ some 0 := by
      intro zero
      simp [indices, zero] at resolved
    have inside := Slice.inside fits resolved
    obtain ⟨computed, exact⟩ := words_of_indices nonzero fits resolved
    rw [indices_eq nonzero fits, Except.ok.injEq] at resolved
    subst resolved
    have bounded := fits_stride s
    have places := inside.positions_eq
    rw [← walk_eq (stride_ne_zero nonzero), ← places_eq s fits] at places
    exact {
      positions := places
      count := by rw [← places, List.length_map, Progression.length_positions]
      nodup := inside.nodup
      inside := inside.lt_len
      step := stride_eq s
      lowest := inside.ascending
      range := by
        intro one
        apply adjustRange_eq fits
        rw [← stride_neg_iff]
        dsimp only at one
        omega
      words := ⟨_, computed, exact, fun i lt => WordProgression.position?_eq inside fits bounded lt,
        WordProgression.ascending?_eq inside fits bounded⟩ }

/-- Walking backwards by the largest step from the last place of the longest sequence, to the front. -/
theorem indices_resolve_extremes :
    ((9223372036854775807 : Nat) : Int) ≤ Word.greatest ∧
      Resolution ⟨some (Int64.ofInt Word.greatest), some (Int64.ofInt Word.least), some (Int64.ofInt Word.least)⟩
        9223372036854775807 ⟨9223372036854775806, -1, -9223372036854775807, 1⟩ :=
  ⟨by decide, (indices_resolve _ (by decide)).2 _ (by decide)⟩

/-- A step that cannot be negated counts as the one next to it, so the size of the step in use is not that of
the step as written; and the lowest position of nothing is not to be asked for. -/
theorem ascending_least_step :
    (∃ p, indices ⟨some 2, none, some (Int64.ofInt Word.least)⟩ 5 = .ok p ∧ 0 < p.count ∧
      p.ascending.2 ≠ (writtenStep ⟨some 2, none, some (Int64.ofInt Word.least)⟩).natAbs) ∧
    ∃ q, indices? ⟨some 5, some 7, some (Int64.ofInt Word.least)⟩ 10 = some q ∧ q.count = 0 ∧
      q.ascending? = none :=
  ⟨⟨⟨2, -1, -9223372036854775807, 1⟩, by decide, by decide, by decide⟩,
    ⟨5, 7, Int64.ofInt (-Word.greatest), 0⟩, by decide, by decide, by decide⟩

end Slice

end DynamicObjects
