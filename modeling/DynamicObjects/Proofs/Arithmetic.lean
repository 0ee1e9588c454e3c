import DynamicObjects.Numbers
import DynamicObjects.Proofs.Slices.Words
import Mathlib.Data.Rat.Floor

/-!
Integer arithmetic on machine words. An operator gives the exact result as soon as it is a word; the
errors say that it is none, that the divisor is zero, or that the shift is negative. The same answers
are computed by the operations that a machine has: a quotient that is rounded towards zero and then
corrected by the signs, and a shift that loses bits and is undone to see whether it did. No operation
that goes unchecked ever leaves the words.
-/
namespace DynamicObjects

/-! ## What a machine has -/

namespace Word

def remainder? (x y : Int64) : Option Int64 := do
  let _ ← quotient? x y
  ofInt? (Int.tmod x.toInt y.toInt)

def shiftedLeft? (x : Int64) (count : Nat) : Option Int64 :=
  if count < 64 then some (.ofBitVec (x.toBitVec <<< count)) else none

def shiftedRight? (x : Int64) (count : Nat) : Option Int64 :=
  if count < 64 then some (.ofBitVec (x.toBitVec.sshiftRight count)) else none

/-! ## Quotients -/

/-- Whether a quotient that was rounded towards zero lies above the floor. -/
def Corrected (x y : Int) : Prop := Int.tmod x y ≠ 0 ∧ ¬ (x < 0 ↔ y < 0)

instance (x y : Int) : Decidable (Corrected x y) := inferInstanceAs (Decidable (_ ∧ _))

theorem fdiv_eq_tdiv_sub {x y : Int} (nonzero : y ≠ 0) :
    Int.fdiv x y = Int.tdiv x y - if Corrected x y then 1 else 0 := by
  have divides : Int.tmod x y = 0 ↔ y ∣ x := Int.dvd_iff_tmod_eq_zero.symm
  rw [Int.fdiv_eq_tdiv]
  unfold Corrected
  by_cases whole : y ∣ x
  · simp [whole, divides]
  · rcases Int.lt_or_gt_of_ne nonzero with negative | positive
    · rw [Int.sign_eq_neg_one_of_neg negative]
      by_cases below : x < 0 <;> simp [whole, divides, negative, below] <;> omega
    · rw [Int.sign_eq_one_of_pos positive]
      by_cases below : x < 0 <;> simp [whole, divides, below] <;> omega

theorem natAbs_tdiv_le_half (x : Int) {y : Int} (many : y.natAbs ≠ 1) :
    (Int.tdiv x y).natAbs ≤ x.natAbs / 2 := by
  rw [Int.natAbs_tdiv]
  show x.natAbs / y.natAbs ≤ x.natAbs / 2
  rcases Nat.eq_zero_or_pos y.natAbs with zero | positive
  · rw [zero, Nat.div_zero]
    exact Nat.zero_le _
  · exact Nat.div_le_div_left (by omega) (by decide)

theorem natAbs_of_not_fits_tdiv {x y : Int} (word : Fits x) (outside : ¬ Fits (Int.tdiv x y)) :
    y.natAbs = 1 := by
  by_contra many
  have halved := natAbs_tdiv_le_half x many
  unfold Fits least greatest at *
  omega

theorem tmod_eq_zero_of_natAbs {y : Int} (x : Int) (one : y.natAbs = 1) : Int.tmod x y = 0 := by
  have rest := Int.natAbs_tmod x y
  rw [one, Nat.mod_one] at rest
  exact Int.natAbs_eq_zero.mp rest

theorem Corrected.fits {x y : Int} (h : Corrected x y) (word : Fits x) :
    Fits (Int.tdiv x y) ∧ Fits (Int.tdiv x y - 1) := by
  have halved := natAbs_tdiv_le_half x fun one => h.1 (tmod_eq_zero_of_natAbs x one)
  unfold Fits least greatest at *
  omega

theorem tmod_neg_iff {x y : Int} (rest : Int.tmod x y ≠ 0) : Int.tmod x y < 0 ↔ x < 0 := by
  constructor
  · intro below
    by_contra above
    have := Int.tmod_nonneg y (Int.not_lt.mp above)
    omega
  · intro below
    have := Int.tmod_nonneg y (Int.neg_nonneg_of_nonpos below.le)
    rw [Int.neg_tmod] at this
    omega

theorem fmod_eq_tmod_add {x y : Int} (nonzero : y ≠ 0) :
    Int.fmod x y = Int.tmod x y + if Corrected x y then y else 0 := by
  rw [Int.fmod_def, Int.tmod_def, fdiv_eq_tdiv_sub nonzero]
  split <;> ring

theorem fmod_bounds (x : Int) {y : Int} (nonzero : y ≠ 0) :
    if y < 0 then y < Int.fmod x y ∧ Int.fmod x y ≤ 0 else 0 ≤ Int.fmod x y ∧ Int.fmod x y < y := by
  split
  · have mirrored : Int.fmod x y = -Int.fmod (-x) (-y) := by
      rw [Int.fmod_def, Int.fmod_def, Int.neg_fdiv_neg]
      ring
    have low := Int.fmod_nonneg_of_pos (-x) (show 0 < -y by omega)
    have high := Int.fmod_lt_of_pos (-x) (show 0 < -y by omega)
    omega
  · exact ⟨Int.fmod_nonneg_of_pos x (by omega), Int.fmod_lt_of_pos x (by omega)⟩

theorem fits_fmod (x : Int) {y : Int} (nonzero : y ≠ 0) (word : Fits y) : Fits (Int.fmod x y) := by
  have bounds := fmod_bounds x nonzero
  unfold Fits least greatest at *
  split at bounds <;> omega

theorem fdiv_eq_floor (x y : Int) : Int.fdiv x y = ⌊(x / y : ℚ)⌋ := by
  rcases Int.lt_or_le y 0 with negative | positive
  · obtain ⟨n, rfl⟩ := Int.exists_eq_neg_ofNat negative.le
    rw [← Int.neg_fdiv_neg, Int.neg_neg, Int.fdiv_eq_ediv_of_nonneg _ (Int.natCast_nonneg n),
      ← Rat.floor_intCast_div_natCast]
    push_cast
    rw [neg_div, div_neg]
  · obtain ⟨n, rfl⟩ := Int.eq_ofNat_of_zero_le positive
    rw [Int.fdiv_eq_ediv_of_nonneg _ positive, ← Rat.floor_intCast_div_natCast]
    rfl

/-! ## Shifts -/

theorem toInt_shiftedRight (x : Int64) (count : Nat) :
    (Int64.ofBitVec (x.toBitVec.sshiftRight count)).toInt = x.toInt / 2 ^ count := by
  show (x.toBitVec.sshiftRight count).toInt = _
  rw [BitVec.toInt_sshiftRight, Int.shiftRight_eq_div_pow]
  rfl

theorem toInt_shiftedLeft (x : Int64) (count : Nat) :
    (Int64.ofBitVec (x.toBitVec <<< count)).toInt = (x.toInt * 2 ^ count).bmod (2 ^ 64) := by
  have signed : x.toInt = (x.toBitVec.toNat : Int).bmod (2 ^ 64) := BitVec.toInt_eq_toNat_bmod _
  show (x.toBitVec <<< count).toInt = _
  rw [BitVec.toInt_shiftLeft, Nat.shiftLeft_eq, signed, Int.bmod_mul_bmod]
  push_cast
  rfl

theorem undone_iff (x : Int) {count : Nat} (few : count < 64) :
    (x * 2 ^ count).bmod (2 ^ 64) / 2 ^ count = x ↔ Fits (x * 2 ^ count) := by
  have positive : (0 : Int) < 2 ^ count := by positivity
  have turns : (2 ^ count : Int) ∣ (2 ^ 64 : Nat) := by
    rw [Int.natCast_pow]
    exact pow_dvd_pow 2 few.le
  have whole : (2 ^ count : Int) ∣ (x * 2 ^ count).bmod (2 ^ 64) :=
    (Int.dvd_iff_dvd_of_dvd_sub (turns.trans Int.dvd_bmod_sub_self)).mpr (Int.dvd_mul_left _ _)
  rw [Int.ediv_eq_iff_eq_mul_left positive.ne' whole]
  constructor
  · intro same
    have low : -2 ^ 63 ≤ (x * 2 ^ count).bmod (2 ^ 64) := Int.le_bmod (by decide)
    have high : (x * 2 ^ count).bmod (2 ^ 64) < 2 ^ 63 := Int.bmod_lt (by decide)
    unfold Fits least greatest
    omega
  · intro fits
    apply Int.bmod_eq_of_le
    · exact fits.1
    · exact Int.lt_of_le_of_lt fits.2 (by decide)

/-! ## Quotients and remainders on words -/

variable {x y : Int64}

theorem toInt_eq_zero_iff : x.toInt = 0 ↔ x = 0 := by
  rw [← Int64.toInt_inj, Int64.toInt_zero]

theorem fits_tmod (x : Int) {y : Int} (nonzero : y ≠ 0) (word : Fits y) : Fits (Int.tmod x y) := by
  have size := Int.natAbs_tmod x y
  have less := Nat.mod_lt x.natAbs (Int.natAbs_pos.mpr nonzero)
  unfold Fits least greatest at *
  omega

theorem quotient?_cases (nonzero : y ≠ 0) :
    (∃ q r : Int64, quotient? x y = some q ∧ remainder? x y = some r ∧
      q.toInt = Int.tdiv x.toInt y.toInt ∧ r.toInt = Int.tmod x.toInt y.toInt) ∨
    (quotient? x y = none ∧ remainder? x y = none ∧
      ¬ Fits (Int.tdiv x.toInt y.toInt) ∧ Int.tmod x.toInt y.toInt = 0) := by
  have divided : quotient? x y = ofInt? (Int.tdiv x.toInt y.toInt) := if_neg nonzero
  have rest := fits_tmod x.toInt (mt toInt_eq_zero_iff.mp nonzero) (fits_toInt y)
  unfold remainder?
  rw [divided]
  by_cases fits : Fits (Int.tdiv x.toInt y.toInt)
  · refine .inl ⟨_, _, ofInt?_of_fits fits, ?_, toInt_ofInt fits, toInt_ofInt rest⟩
    rw [ofInt?_of_fits fits, Option.bind_eq_bind, Option.bind_some, ofInt?_of_fits rest]
  · have one := natAbs_of_not_fits_tdiv (fits_toInt x) fits
    have none := ofInt?_eq_none_iff.mpr fits
    refine .inr ⟨none, ?_, fits, tmod_eq_zero_of_natAbs _ one⟩
    rw [none, Option.bind_eq_bind, Option.bind_none]

end Word

/-! ## The operators -/

namespace Number

inductive ExactOp
  | add
  | sub
  | mul
  | floorDiv
  | mod
  | shiftLeft
  | shiftRight
  deriving DecidableEq

namespace ExactOp

def operator : ExactOp → BinaryOp
  | add => .add
  | sub => .sub
  | mul => .mul
  | floorDiv => .floorDiv
  | mod => .mod
  | shiftLeft => .shiftLeft
  | shiftRight => .shiftRight

/-- The result among the integers. Nothing is divided by zero, and no shift is negative. -/
def value? : ExactOp → Int → Int → Option Int
  | add, x, y => some (x + y)
  | sub, x, y => some (x - y)
  | mul, x, y => some (x * y)
  | floorDiv, x, y => if y = 0 then none else some ⌊(x / y : ℚ)⌋
  | mod, x, y => if y = 0 then none else some (x - ⌊(x / y : ℚ)⌋ * y)
  | shiftLeft, x, y => if y < 0 then none else some (x * 2 ^ y.toNat)
  | shiftRight, x, y => if y < 0 then none else some ⌊(x / 2 ^ y.toNat : ℚ)⌋

/-- How the answers are computed on words: each operation of the machine either has an answer for every
case in which it has none, or must not fail; if it does, there is no result. -/
def onWords? : ExactOp → Int64 → Int64 → Option (Except Error Value)
  | add, x, y => some (checked (Word.add? x y))
  | sub, x, y => some (checked (Word.sub? x y))
  | mul, x, y => some (checked (Word.mul? x y))
  | floorDiv, x, y =>
    if y = 0 then some (.error .intDivisionByZero)
    else
      match Word.quotient? x y with
      | none => some (.error .intOverflow)
      | some q => do
        let r ← Word.remainder? x y
        if r ≠ 0 ∧ ¬ (x.toInt < 0 ↔ y.toInt < 0) then return .ok (.int (← Word.sub? q 1))
        else return .ok (.int q)
  | mod, x, y =>
    if y = 0 then some (.error .intModuloByZero)
    else do
      let r := (Word.remainder? x y).getD 0
      if r ≠ 0 ∧ ¬ (r.toInt < 0 ↔ y.toInt < 0) then return .ok (.int (← Word.add? r y))
      else return .ok (.int r)
  | shiftLeft, x, y =>
    if y.toInt < 0 then some (.error .negativeShift)
    else if x = 0 then some (.ok (.int 0))
    else
      let count := min y.toInt.toNat 4294967295
      match Word.shiftedLeft? x count with
      | none => some (.error .intOverflow)
      | some shifted => do
        let back ← Word.shiftedRight? shifted count
        return checked (if back = x then some shifted else none)
  | shiftRight, x, y =>
    if y.toInt < 0 then some (.error .negativeShift)
    else do
      let count := min y.toInt.toNat 4294967295
      return .ok (.int (← Word.shiftedRight? x (if 64 ≤ count then 63 else count)))

theorem onWords?_floorDiv (x y : Int64) :
    onWords? floorDiv x y = some (intArithmetic .floorDiv x y) := by
  by_cases zero : y = 0
  · simp [onWords?, intArithmetic, zero]
  have nonzero := mt Word.toInt_eq_zero_iff.mp zero
  have floor : intArithmetic .floorDiv x y = checked (Word.ofInt?
      (Int.tdiv x.toInt y.toInt - if Word.Corrected x.toInt y.toInt then 1 else 0)) := by
    simp only [intArithmetic, if_neg zero, Word.floorDiv?, Word.fdiv_eq_tdiv_sub nonzero]
  rw [floor, onWords?, if_neg zero]
  obtain ⟨q, r, quotient, remainder, hq, hr⟩ | ⟨quotient, remainder, outside, whole⟩ :=
    Word.quotient?_cases (x := x) zero
  · have corrects : (r ≠ 0 ∧ ¬ (x.toInt < 0 ↔ y.toInt < 0)) ↔ Word.Corrected x.toInt y.toInt := by
      rw [Word.Corrected, ← hr, Ne, Ne, Word.toInt_eq_zero_iff]
    simp only [quotient, remainder, Option.bind_eq_bind, Option.bind_some, corrects, ← hq]
    split
    next corrected =>
      have fits := (corrected.fits (Word.fits_toInt x)).2
      rw [← hq] at fits
      simp [Word.sub?, Int64.toInt_one, Word.ofInt?_of_fits fits, checked]
    next => simp [checked]
  · have kept : ¬ Word.Corrected x.toInt y.toInt := fun corrected => corrected.1 whole
    simp [quotient, kept, Word.ofInt?_eq_none_iff.mpr outside, checked]

theorem onWords?_mod (x y : Int64) : onWords? mod x y = some (intArithmetic .mod x y) := by
  by_cases zero : y = 0
  · simp [onWords?, intArithmetic, zero]
  have nonzero := mt Word.toInt_eq_zero_iff.mp zero
  have fits := Word.fits_fmod x.toInt nonzero (Word.fits_toInt y)
  have rest : intArithmetic .mod x y = checked (Word.ofInt?
      (Int.tmod x.toInt y.toInt + if Word.Corrected x.toInt y.toInt then y.toInt else 0)) := by
    simp only [intArithmetic, if_neg zero, Word.floorMod?, Word.fmod_eq_tmod_add nonzero]
  rw [Word.fmod_eq_tmod_add nonzero] at fits
  rw [rest, onWords?, if_neg zero]
  obtain ⟨q, r, quotient, remainder, hq, hr⟩ | ⟨quotient, remainder, outside, whole⟩ :=
    Word.quotient?_cases (x := x) zero
  · have corrects : (r ≠ 0 ∧ ¬ (r.toInt < 0 ↔ y.toInt < 0)) ↔ Word.Corrected x.toInt y.toInt := by
      rw [Word.Corrected, ← hr, Ne, Ne, Word.toInt_eq_zero_iff]
      refine and_congr_right fun some => ?_
      rw [hr, Word.tmod_neg_iff (by rwa [← hr, Ne, Word.toInt_eq_zero_iff])]
    rw [← hr] at fits ⊢
    simp only [remainder, Option.getD_some, corrects]
    split at fits
    next corrected => simp [corrected, Word.add?, Word.ofInt?_of_fits fits, checked]
    next kept => simp [kept, checked]
  · have kept : ¬ Word.Corrected x.toInt y.toInt := fun corrected => corrected.1 whole
    have none : Word.ofInt? 0 = some 0 := by decide
    simp [remainder, kept, whole, none, checked]

theorem onWords?_shiftLeft (x y : Int64) :
    onWords? shiftLeft x y = some (intArithmetic .shiftLeft x y) := by
  simp only [onWords?, intArithmetic, Word.shiftLeft?]
  split
  · rfl
  split
  · rfl
  by_cases far : 64 ≤ y.toInt.toNat
  · rw [Word.shiftedLeft?, if_neg (by omega), if_pos far]
    rfl
  · have same : min y.toInt.toNat 4294967295 = y.toInt.toNat := by omega
    have back : (Int64.ofBitVec ((Int64.ofBitVec (x.toBitVec <<< y.toInt.toNat)).toBitVec.sshiftRight
        y.toInt.toNat) = x) ↔ Word.Fits (x.toInt * 2 ^ y.toInt.toNat) := by
      rw [← Int64.toInt_inj, Word.toInt_shiftedRight, Word.toInt_shiftedLeft, Word.undone_iff _ (by omega)]
    rw [same, Word.shiftedLeft?, if_pos (by omega), if_neg far]
    simp only [Word.shiftedRight?, if_pos (show y.toInt.toNat < 64 by omega), Option.bind_eq_bind,
      Option.bind_some, back, Option.pure_def, Word.ofInt?]
    have power : Int.pow 2 y.toInt.toNat = 2 ^ y.toInt.toNat := rfl
    rw [power]
    split
    next fits =>
      have exact := (Word.toInt_shiftedLeft x y.toInt.toNat).trans
        (Int.bmod_eq_of_le fits.1 (Int.lt_of_le_of_lt fits.2 (by decide)))
      rw [← exact, Int64.ofInt_toInt]
    next => rfl

theorem onWords?_shiftRight (x y : Int64) :
    onWords? shiftRight x y = some (intArithmetic .shiftRight x y) := by
  simp only [onWords?, intArithmetic, Word.shiftRight]
  split
  · rfl
  · have count : (if 64 ≤ min y.toInt.toNat 4294967295 then 63 else min y.toInt.toNat 4294967295) =
        min y.toInt.toNat 63 := by
      split <;> omega
    have power : Int.pow 2 (min y.toInt.toNat 63) = 2 ^ min y.toInt.toNat 63 := rfl
    have moved := Word.toInt_shiftedRight x (min y.toInt.toNat 63)
    rw [← Int.fdiv_eq_ediv_of_nonneg _ (by positivity)] at moved
    simp only [count, Word.shiftedRight?, if_pos (show min y.toInt.toNat 63 < 64 by omega),
      Option.bind_eq_bind, Option.bind_some, Option.pure_def, power, ← moved, Int64.ofInt_toInt]

theorem onWords?_eq (op : ExactOp) (x y : Int64) :
    op.onWords? x y = some (intArithmetic op.operator x y) := by
  cases op with
  | add | sub | mul => rfl
  | floorDiv => exact onWords?_floorDiv x y
  | mod => exact onWords?_mod x y
  | shiftLeft => exact onWords?_shiftLeft x y
  | shiftRight => exact onWords?_shiftRight x y

theorem value?_eq_none_iff (op : ExactOp) (x y : Int) :
    op.value? x y = none ↔
      (op = floorDiv ∨ op = mod) ∧ y = 0 ∨ (op = shiftLeft ∨ op = shiftRight) ∧ y < 0 := by
  cases op <;> simp [value?]

/-- What is not zero leaves the words when it is shifted too far. -/
theorem not_fits_shifted {x : Int} (nonzero : x ≠ 0) {count : Nat} (far : 64 ≤ count) :
    ¬ Word.Fits (x * 2 ^ count) := by
  have grows : (2 : Int) ^ 64 ≤ 2 ^ count := pow_le_pow_right₀ (by decide) far
  unfold Word.Fits Word.least Word.greatest
  rcases Int.lt_or_gt_of_ne nonzero with below | above
  · have : x * 2 ^ count ≤ -1 * 2 ^ count := Int.mul_le_mul_of_nonneg_right (by omega) (by omega)
    omega
  · have : 1 * 2 ^ count ≤ x * 2 ^ count := Int.mul_le_mul_of_nonneg_right (by omega) (by omega)
    omega

theorem ediv_clamped {x : Int} (word : Word.Fits x) (count : Nat) :
    x / 2 ^ min count 63 = x / 2 ^ count := by
  rcases Nat.le_total count 63 with near | far
  · rw [Nat.min_eq_left near]
  · have grows : (2 : Int) ^ 63 ≤ 2 ^ count := pow_le_pow_right₀ (by decide) far
    have sign (n : Int) (large : 2 ^ 63 ≤ n) : x / n = if x < 0 then -1 else 0 := by
      unfold Word.Fits Word.least Word.greatest at word
      split
      · exact (Int.ediv_eq_iff_of_pos (by omega)).mpr (by omega)
      · exact Int.ediv_eq_zero_of_lt (by omega) (by omega)
    rw [Nat.min_eq_right far, sign _ (Int.le_refl _), sign _ grows]

theorem intArithmetic_of_exact {op : ExactOp} {x y : Int64} {n : Int}
    (h : op.value? x.toInt y.toInt = some n) :
    intArithmetic op.operator x y = checked (Word.ofInt? n) := by
  cases op with
  | add | sub | mul =>
    obtain rfl := Option.some.inj h
    rfl
  | floorDiv =>
    simp only [value?, Word.toInt_eq_zero_iff, Option.ite_none_left_eq_some, Option.some.injEq] at h
    simp only [operator, intArithmetic, if_neg h.1, Word.floorDiv?, Word.fdiv_eq_floor, h.2]
  | mod =>
    simp only [value?, Word.toInt_eq_zero_iff, Option.ite_none_left_eq_some, Option.some.injEq] at h
    simp only [operator, intArithmetic, if_neg h.1, Word.floorMod?, Int.fmod_def, Word.fdiv_eq_floor]
    rw [Int.mul_comm, h.2]
  | shiftLeft =>
    simp only [value?, Option.ite_none_left_eq_some, Option.some.injEq] at h
    obtain ⟨nonneg, rfl⟩ := h
    simp only [operator, intArithmetic, if_neg nonneg, Word.shiftLeft?]
    split
    next zero => simp [zero, show Word.ofInt? 0 = some 0 by decide]
    next nonzero =>
      split
      next far =>
        rw [Word.ofInt?_eq_none_iff.mpr (not_fits_shifted (mt Word.toInt_eq_zero_iff.mp nonzero) far)]
      next => rfl
  | shiftRight =>
    simp only [value?, Option.ite_none_left_eq_some, Option.some.injEq] at h
    obtain ⟨nonneg, rfl⟩ := h
    have floor : ⌊(x.toInt / 2 ^ y.toInt.toNat : ℚ)⌋ = x.toInt / 2 ^ y.toInt.toNat := by
      rw [← Int.fdiv_eq_ediv_of_nonneg _ (by positivity), Word.fdiv_eq_floor]
      push_cast
      rfl
    have same : Int.fdiv x.toInt (Int.pow 2 (min y.toInt.toNat 63)) =
        x.toInt / 2 ^ y.toInt.toNat := by
      rw [← ediv_clamped (Word.fits_toInt x)]
      exact Int.fdiv_eq_ediv_of_nonneg _ (show (0 : Int) ≤ 2 ^ _ by positivity)
    have moved := Word.toInt_shiftedRight x (min y.toInt.toNat 63)
    rw [ediv_clamped (Word.fits_toInt x)] at moved
    simp only [operator, intArithmetic, if_neg nonneg, Word.shiftRight, same, floor]
    rw [← moved, Word.ofInt?_toInt, Int64.ofInt_toInt]
    rfl

end ExactOp

def Raises (answer : Except Error Value) (c : ErrorClass) : Prop :=
  ∃ e, answer = .error e ∧ e.errorClass? = some c

theorem raises_error_iff {e : Error} {c : ErrorClass} : Raises (.error e) c ↔ e.errorClass? = some c := by
  simp [Raises]

theorem not_raises_ok (v : Value) (c : ErrorClass) : ¬ Raises (.ok v) c := by
  simp [Raises]

theorem raises_checked_iff {n : Int} {c : ErrorClass} :
    Raises (checked (Word.ofInt? n)) c ↔ c = .overflowError ∧ ¬ Word.Fits n := by
  by_cases fits : Word.Fits n
  · rw [Word.ofInt?_of_fits fits]
    simp [checked, not_raises_ok, fits]
  · rw [Word.ofInt?_eq_none_iff.mpr fits]
    simp [checked, raises_error_iff, Error.errorClass?, fits, eq_comm]

structure ExactOp.Answers (op : ExactOp) (x y : Int64) : Prop where
  /-- The exact result, whenever it is a word. -/
  exact : ∀ n, op.value? x.toInt y.toInt = some n → Word.Fits n →
    ∃ w : Int64, w.toInt = n ∧ intArithmetic op.operator x y = .ok (.int w)
  overflow : Raises (intArithmetic op.operator x y) .overflowError ↔
    ∃ n, op.value? x.toInt y.toInt = some n ∧ ¬ Word.Fits n
  zeroDivision : Raises (intArithmetic op.operator x y) .zeroDivisionError ↔
    (op = .floorDiv ∨ op = .mod) ∧ y = 0
  negativeShift : Raises (intArithmetic op.operator x y) .valueError ↔
    (op = .shiftLeft ∨ op = .shiftRight) ∧ y.toInt < 0
  /-- The operations of the machine give the same, and none of them overflows unnoticed. -/
  words : op.onWords? x y = some (intArithmetic op.operator x y)

/-- What a quotient and a remainder that were both given are to each other. -/
structure DivisionLaw (x y q r : Int64) : Prop where
  whole : x.toInt = q.toInt * y.toInt + r.toInt
  small : |r.toInt| < |y.toInt|
  sign : if y.toInt < 0 then r.toInt ≤ 0 else 0 ≤ r.toInt

theorem ExactOp.answers (op : ExactOp) (x y : Int64) : op.Answers x y := by
  cases result : op.value? x.toInt y.toInt with
  | some n =>
    have answer := intArithmetic_of_exact result
    have defined := mt (value?_eq_none_iff op x.toInt y.toInt).mpr (by simp [result])
    rw [Word.toInt_eq_zero_iff, not_or] at defined
    refine ⟨?_, ?_, ?_, ?_, onWords?_eq op x y⟩
    · rintro m same fits
      obtain rfl := Option.some.inj (result.symm.trans same)
      refine ⟨Int64.ofInt n, Word.toInt_ofInt fits, ?_⟩
      rw [answer, Word.ofInt?_of_fits fits, checked]
    · rw [answer, raises_checked_iff]
      simp [result]
    · rw [answer, raises_checked_iff]
      simp [defined.1]
    · rw [answer, raises_checked_iff]
      simp [defined.2]
  | none =>
    refine ⟨by simp [result], ?_, ?_, ?_, onWords?_eq op x y⟩
    all_goals
      rw [value?_eq_none_iff, Word.toInt_eq_zero_iff] at result
      rcases result with ⟨rfl | rfl, outside⟩ | ⟨rfl | rfl, outside⟩
      all_goals
        simp [ExactOp.operator, intArithmetic, outside, raises_error_iff, Error.errorClass?, value?]

theorem divisionLaw {x y q r : Int64} (quotient : intArithmetic .floorDiv x y = .ok (.int q))
    (remainder : intArithmetic .mod x y = .ok (.int r)) : DivisionLaw x y q r := by
  have zero : y ≠ 0 := by
    rintro rfl
    simp [intArithmetic] at quotient
  have nonzero := mt Word.toInt_eq_zero_iff.mp zero
  have given {n : Option Int64} {w : Int64} (h : checked n = .ok (.int w)) : n = some w := by
    cases n with
    | none => simp [checked] at h
    | some m => simpa [checked] using h
  simp only [intArithmetic, if_neg zero] at quotient remainder
  have hq := Word.ofInt?_eq_some_iff.mp (given quotient)
  have hr := Word.ofInt?_eq_some_iff.mp (given remainder)
  have bounds := Word.fmod_bounds x.toInt nonzero
  rw [hr] at bounds
  refine ⟨?_, ?_, ?_⟩
  · rw [← hq, ← hr, Int.mul_comm]
    exact (Int.mul_fdiv_add_fmod x.toInt y.toInt).symm
  · split at bounds
    · rw [abs_of_nonpos bounds.2, abs_of_neg (by assumption)]
      omega
    · rw [abs_of_nonneg bounds.1, abs_of_nonneg (by omega)]
      exact bounds.2
  · split at bounds
    next negative => rw [if_pos negative]; exact bounds.2
    next positive => rw [if_neg positive]; exact bounds.1

/-- Integer arithmetic is exact, and it fails only where there is no exact result or none that fits. -/
theorem arithmetic_exact (x y : Int64) :
    (∀ op : ExactOp, op.Answers x y) ∧
    ∀ q r, intArithmetic .floorDiv x y = .ok (.int q) → intArithmetic .mod x y = .ok (.int r) →
      DivisionLaw x y q r :=
  ⟨fun op => op.answers x y, fun _ _ => divisionLaw⟩

end Number

end DynamicObjects
