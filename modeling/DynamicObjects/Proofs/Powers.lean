import DynamicObjects.Proofs.Arithmetic

/-!
Powers of machine words. Up to exponents of 32 bits a power is exact, and an overflow says that it is no
word. A larger exponent overflows whatever the base is; for every base with powers that grow this is
right, but -1, 0 and 1 have powers that are words at every exponent, and theirs are refused too.
-/
namespace DynamicObjects

namespace Word

theorem pow_parity {x : Int} (small : x.natAbs ≤ 1) (exponent : Nat) :
    x ^ (if exponent = 0 then 0 else 2 - exponent % 2) = x ^ exponent := by
  split
  next zero => rw [zero]
  next positive =>
    have cubed : x ^ 3 = x := by
      rcases (by omega : x = -1 ∨ x = 0 ∨ x = 1) with rfl | rfl | rfl <;> rfl
    have turns (k m : Nat) : x ^ (m + 1 + 2 * k) = x ^ (m + 1) := by
      induction k with
      | zero => rfl
      | succ k ih =>
        calc x ^ (m + 1 + 2 * (k + 1)) = x ^ (m + 2 * k) * x ^ 3 := by ring
          _ = x ^ (m + 1 + 2 * k) := by rw [cubed]; ring
          _ = x ^ (m + 1) := ih
    rcases Nat.mod_two_eq_zero_or_one exponent with even | odd
    · have whole : exponent = 1 + 1 + 2 * (exponent / 2 - 1) := by omega
      rw [even, Nat.sub_zero]
      conv_rhs => rw [whole, turns]
    · have whole : exponent = 0 + 1 + 2 * (exponent / 2) := by omega
      rw [odd]
      conv_rhs => rw [whole, turns]

theorem not_fits_pow {x : Int} (grows : 2 ≤ x.natAbs) {exponent : Nat} (far : 64 ≤ exponent) :
    ¬ Fits (x ^ exponent) := by
  have large : 2 ^ 64 ≤ (x ^ exponent).natAbs := by
    calc 2 ^ 64 ≤ 2 ^ exponent := Nat.pow_le_pow_right (by decide) far
      _ ≤ x.natAbs ^ exponent := Nat.pow_le_pow_left grows exponent
      _ = (x ^ exponent).natAbs := (Int.natAbs_pow x exponent).symm
  unfold Fits least greatest
  omega

theorem fits_pow {x : Int} (small : x.natAbs ≤ 1) (exponent : Nat) : Fits (x ^ exponent) := by
  have bounded : (x ^ exponent).natAbs ≤ 1 := by
    rw [Int.natAbs_pow]
    exact (Nat.pow_le_pow_left small exponent).trans_eq (one_pow exponent)
  unfold Fits least greatest
  omega

theorem power?_eq (x : Int64) (exponent : Nat) :
    power? x exponent = ofInt? (x.toInt ^ exponent) := by
  unfold power?
  split
  next small => exact congrArg ofInt? (pow_parity small exponent)
  next grows =>
    split
    next far => exact (ofInt?_eq_none_iff.mpr (not_fits_pow (by omega) far)).symm
    next => rfl

end Word

namespace Number

/-- What a power of two words is, when the exponent is not negative. -/
structure Powers (x y : Int64) : Prop where
  exact : ∀ w, intArithmetic .pow x y = .ok (.int w) ↔
    y.toInt ≤ exponentMax ∧ w.toInt = x.toInt ^ y.toInt.toNat
  overflow : Raises (intArithmetic .pow x y) .overflowError ↔
    exponentMax < y.toInt ∨ ¬ Word.Fits (x.toInt ^ y.toInt.toNat)
  /-- There is no third outcome. -/
  total : Raises (intArithmetic .pow x y) .overflowError ∨ ∃ w, intArithmetic .pow x y = .ok (.int w)
  /-- Beyond the largest exponent only the powers of -1, 0 and 1 are words. -/
  refused : exponentMax < y.toInt →
    (Word.Fits (x.toInt ^ y.toInt.toNat) ↔ x.toInt = -1 ∨ x.toInt = 0 ∨ x.toInt = 1)
  /-- Truth values are the integers 0 and 1 here, on both sides and from both sides. -/
  operator : ∀ a b : Value, a.asNumber? = some (.int x) → b.asNumber? = some (.int y) →
    forward .pow a b = intArithmetic .pow x y ∧ arithmetic .pow a b = intArithmetic .pow x y

theorem intPower_of_le {x y : Int64} (nonneg : 0 ≤ y.toInt) (near : y.toInt ≤ exponentMax) :
    intArithmetic .pow x y = checked (Word.ofInt? (x.toInt ^ y.toInt.toNat)) := by
  rw [intArithmetic, intPower, if_neg (by omega), if_pos near, Word.power?_eq]

theorem intPower_of_lt {x y : Int64} (far : exponentMax < y.toInt) :
    intArithmetic .pow x y = .error .intOverflow := by
  rw [intArithmetic, intPower, if_neg (by omega), if_neg (by omega)]

theorem checked_eq_ok_iff {n : Int} {w : Int64} :
    checked (Word.ofInt? n) = .ok (.int w) ↔ w.toInt = n := by
  rw [eq_comm (a := w.toInt), ← Word.ofInt?_eq_some_iff]
  cases Word.ofInt? n <;> simp [checked]

theorem arithmetic_of_ints (op : BinaryOp) {a b : Value} {x y : Int64}
    (left : a.asNumber? = some (.int x)) (right : b.asNumber? = some (.int y)) :
    arithmetic op a b = intArithmetic op x y := by
  simp only [arithmetic, left, right]

/-- Every power of words with an exponent that is not negative. -/
theorem powers_exact (x y : Int64) (nonneg : 0 ≤ y.toInt) : Powers x y := by
  have operator (a b : Value) (left : a.asNumber? = some (.int x)) (right : b.asNumber? = some (.int y)) :
      forward .pow a b = intArithmetic .pow x y ∧ arithmetic .pow a b = intArithmetic .pow x y :=
    ⟨arithmetic_of_ints .pow left right, arithmetic_of_ints .pow left right⟩
  have refused (far : exponentMax < y.toInt) :
      Word.Fits (x.toInt ^ y.toInt.toNat) ↔ x.toInt = -1 ∨ x.toInt = 0 ∨ x.toInt = 1 := by
    unfold exponentMax at far
    constructor
    · intro fits
      by_contra grows
      exact Word.not_fits_pow (by omega) (by omega) fits
    · intro small
      exact Word.fits_pow (by omega) _
  rcases Int.lt_or_le exponentMax y.toInt with far | near
  · refine ⟨fun w => ?_, ?_, .inl ?_, refused, operator⟩ <;> rw [intPower_of_lt far]
    · simp [far]
    · simp [far, raises_error_iff, Error.errorClass?]
    · exact raises_error_iff.mpr rfl
  · refine ⟨fun w => ?_, ?_, ?_, refused, operator⟩ <;> rw [intPower_of_le nonneg near]
    · simp [near, checked_eq_ok_iff]
    · simp [raises_checked_iff, Int.not_lt.mpr near]
    · by_cases fits : Word.Fits (x.toInt ^ y.toInt.toNat)
      · exact .inr ⟨_, checked_eq_ok_iff.mpr (Word.toInt_ofInt fits)⟩
      · exact .inl (raises_checked_iff.mpr ⟨rfl, fits⟩)

theorem powers_exact_minus_seven : (0 : Int) ≤ (22 : Int64).toInt ∧ Powers (-7) 22 :=
  ⟨by decide, powers_exact (-7) 22 (by decide)⟩

/-- One to the power of 2^32 is one, and it is refused. -/
theorem power_refused_of_one :
    Word.Fits ((1 : Int64).toInt ^ (4294967296 : Int64).toInt.toNat) ∧
      Raises (intArithmetic .pow 1 4294967296) .overflowError := by
  refine ⟨?_, _, rfl, rfl⟩
  rw [Int64.toInt_one, one_pow]
  decide

end Number

end DynamicObjects
