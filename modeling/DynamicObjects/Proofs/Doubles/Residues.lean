import Mathlib.Data.Sign.Basic
import Mathlib.Data.ZMod.Basic
import Mathlib.Tactic.NormNum
import Mathlib.Tactic.Positivity
import Mathlib.Tactic.Ring
import DynamicObjects.Proofs.Doubles.Reading
import DynamicObjects.Proofs.Equality.Codes

/-!
Hash codes of floating-point numbers as residues. Modulo `2^61 - 1` two is a unit of order 61 with the
inverse `2^60`, so a dyadic number has one residue however it is written, and turning the 61 bits of a
residue multiplies it by a power of two. Folding a fraction keeps its residue up to the powers of two
that the exponent loses, and the last turn puts the exponent back.
-/
namespace DynamicObjects

namespace HashCode

theorem natCast_wrap : ((2 ^ 61 : ℕ) : ZMod modulus) = 1 := by
  have wrap : 2 ^ 61 = modulus + 1 := rfl
  rw [wrap, Nat.cast_add, ZMod.natCast_self, zero_add, Nat.cast_one]

def two : (ZMod modulus)ˣ where
  val := 2
  inv := 2 ^ 60
  val_inv := by
    rw [← natCast_wrap]
    norm_num
  inv_val := by
    rw [← natCast_wrap]
    norm_num

/-- The residue of a power of two, whatever the sign of the exponent. -/
def weight (k : ℤ) : ZMod modulus := (two ^ k : (ZMod modulus)ˣ)

theorem weight_add (k l : ℤ) : weight (k + l) = weight k * weight l := by
  rw [weight, zpow_add]
  rfl

theorem natCast_two_pow (k : ℕ) : ((2 ^ k : ℕ) : ZMod modulus) = weight k := by
  rw [weight, zpow_natCast, Units.val_pow_eq_pow_val]
  exact Nat.cast_pow 2 k

theorem natCast_half_pow (k : ℕ) : (((2 ^ 60) ^ k : ℕ) : ZMod modulus) = weight (-k) := by
  rw [weight, zpow_neg, zpow_natCast, ← inv_pow, Units.val_pow_eq_pow_val]
  push_cast
  rfl

theorem weight_emod (k : ℤ) : weight (k % 61) = weight k := by
  have order : two ^ (61 : ℤ) = 1 := Units.ext ((natCast_two_pow 61).symm.trans natCast_wrap)
  rw [weight, weight, ← zpow_eq_zpow_emod k order]

/-- The residue of `n / 2^k` does not depend on how the number is written. -/
theorem residue_eq {n k n' k' : ℕ} (same : n * 2 ^ k' = n' * 2 ^ k) :
    n * (2 ^ 60) ^ k % modulus = n' * (2 ^ 60) ^ k' % modulus := by
  rw [← ZMod.natCast_eq_natCast_iff', Nat.cast_mul, Nat.cast_mul, natCast_half_pow, natCast_half_pow]
  have equal := congrArg (Nat.cast (R := ZMod modulus)) same
  rw [Nat.cast_mul, Nat.cast_mul, natCast_two_pow, natCast_two_pow] at equal
  calc n * weight (-k) = n * weight k' * weight (-k' - k) := by
        rw [mul_assoc, ← weight_add]
        congr 2
        ring
    _ = n' * weight (-k') := by
        rw [equal, mul_assoc, ← weight_add]
        congr 2
        ring

theorem turn_eq {acc s : ℕ} (reduced : acc < modulus) (short : s ≤ 61) :
    turn acc s = acc * 2 ^ s % modulus := by
  have whole : 2 ^ s * 2 ^ (61 - s) = modulus + 1 := by
    rw [← Nat.pow_add, Nat.add_sub_cancel' short]
    rfl
  show acc * 2 ^ s % 2 ^ 61 + acc / 2 ^ (61 - s) = _
  have top : (2 : ℕ) ^ 61 = 2 ^ s * 2 ^ (61 - s) := by rw [whole]; rfl
  have parts := Nat.div_add_mod acc (2 ^ (61 - s))
  have lowest := Nat.mod_lt acc (Nat.two_pow_pos (61 - s))
  rw [top, Nat.mul_comm acc, Nat.mul_mod_mul_left]
  have positive := Nat.two_pow_pos s
  generalize 2 ^ (61 - s) = b at *
  generalize 2 ^ s = a at *
  generalize acc / b = high at *
  generalize acc % b = low at *
  have split : a * acc = modulus * high + (a * low + high) := by
    rw [← parts, Nat.mul_add, ← Nat.mul_assoc, whole]
    ring
  have fits : high < a := by
    by_contra large
    have least : a * b ≤ high * b := Nat.mul_le_mul_right b (Nat.not_lt.mp large)
    rw [Nat.mul_comm high] at least
    omega
  rw [split, Nat.mul_add_mod, Nat.mod_eq_of_lt]
  rcases Nat.lt_or_ge (low + 1) b with small | full
  · have least : a * (low + 2) ≤ a * b := Nat.mul_le_mul_left a small
    rw [Nat.mul_add] at least
    omega
  · -- The lower bits are all set, so not all of the upper ones can be: there is only one such number.
    obtain rfl : b = low + 1 := by omega
    have unset : high + 1 ≠ a := by
      rintro rfl
      have all : (high + 1) * (low + 1) = (low + 1) * high + low + 1 := by ring
      omega
    rw [Nat.mul_add, Nat.mul_one] at whole
    omega

/-- A code and an exponent that `total` at the given exponent has become: for each place that the
exponent went down the number was doubled. The code counts multiples of `2^53`. -/
def Folded (total : ℕ) (exponent : ℤ) (result : ℕ × ℤ) : Prop :=
  ∃ j : ℕ, result.2 = exponent - (28 * j : ℕ) ∧ result.1 < modulus ∧
    result.1 * 2 ^ 53 ≡ total * 2 ^ (28 * j) [MOD modulus]

variable {acc fraction fuel total total' : ℕ} {exponent : ℤ} {result : ℕ × ℤ}

theorem Folded.refl (reduced : acc < modulus) (exponent : ℤ) :
    Folded (acc * 2 ^ 53 + 0) exponent (acc, exponent) :=
  ⟨0, by simp, reduced, by simp [Nat.ModEq]⟩

theorem Folded.shift (h : Folded total' (exponent - 28) result)
    (shifted : total' ≡ total * 2 ^ 28 [MOD modulus]) : Folded total exponent result := by
  obtain ⟨j, lowered, reduced, congruent⟩ := h
  refine ⟨j + 1, ?_, reduced, congruent.trans ?_⟩
  · rw [lowered]
    push_cast
    ring
  · have scaled := shifted.mul_right (2 ^ (28 * j))
    rwa [Nat.mul_assoc, ← Nat.pow_add, Nat.add_comm 28] at scaled

theorem exists_foldFraction_succ (reduced : acc < modulus) (below : fraction < 2 ^ 53)
    (rest : fraction ≠ 0) (exponent : ℤ) (fuel : ℕ) :
    ∃ next : ℕ, next < modulus ∧
      next ≡ acc * 2 ^ 28 + fraction * 2 ^ 28 / 2 ^ 53 [MOD modulus] ∧
      foldFraction acc fraction exponent (fuel + 1) =
        foldFraction next (fraction * 2 ^ 28 % 2 ^ 53) (exponent - 28) fuel := by
  have chunk : fraction * 2 ^ 28 / 2 ^ 53 < 2 ^ 28 := by
    rw [Nat.div_lt_iff_lt_mul (Nat.two_pow_pos 53), Nat.mul_comm]
    exact Nat.mul_lt_mul_of_pos_left below (Nat.two_pow_pos 28)
  have turned : turn acc 28 < modulus ∧ turn acc 28 ≡ acc * 2 ^ 28 [MOD modulus] := by
    rw [turn_eq reduced (by decide)]
    exact ⟨Nat.mod_lt _ (by decide), Nat.mod_modEq _ _⟩
  have sum := turned.2.add_right (fraction * 2 ^ 28 / 2 ^ 53)
  have wide : (2 : ℕ) ^ 28 < modulus := by decide
  refine ⟨if modulus ≤ turn acc 28 + fraction * 2 ^ 28 / 2 ^ 53 then
    turn acc 28 + fraction * 2 ^ 28 / 2 ^ 53 - modulus else
    turn acc 28 + fraction * 2 ^ 28 / 2 ^ 53, ?_, ?_, ?_⟩
  · split <;> omega
  · split
    next large =>
      refine Nat.ModEq.trans ?_ sum
      exact (Nat.mod_eq_sub_mod large).symm
    next => exact sum
  · rw [foldFraction, if_neg rest]
    rfl

theorem folded_foldFraction (reduced : acc < modulus) (below : fraction < 2 ^ 53)
    (ends : 2 ^ 53 ∣ fraction * 2 ^ (28 * fuel)) :
    Folded (acc * 2 ^ 53 + fraction) exponent (foldFraction acc fraction exponent fuel) := by
  induction fuel generalizing acc fraction exponent with
  | zero =>
    obtain rfl : fraction = 0 := Nat.eq_zero_of_dvd_of_lt (by simpa using ends) below
    exact .refl reduced exponent
  | succ fuel ih =>
    by_cases nothing : fraction = 0
    · rw [nothing, foldFraction, if_pos rfl]
      exact .refl reduced exponent
    obtain ⟨next, small, congruent, folded⟩ :=
      exists_foldFraction_succ reduced below nothing exponent fuel
    have left : 2 ^ 53 ∣ fraction * 2 ^ 28 % 2 ^ 53 * 2 ^ (28 * fuel) := by
      have modulo := (Nat.mod_modEq (fraction * 2 ^ 28) (2 ^ 53)).mul_right (2 ^ (28 * fuel))
      refine Nat.modEq_zero_iff_dvd.mp (modulo.trans (Nat.modEq_zero_iff_dvd.mpr ?_))
      rw [Nat.mul_assoc, ← Nat.pow_add, Nat.add_comm 28]
      exact ends
    rw [folded]
    refine (ih small (Nat.mod_lt _ (Nat.two_pow_pos 53)) left).shift ?_
    have parts := Nat.div_add_mod (fraction * 2 ^ 28) (2 ^ 53)
    calc next * 2 ^ 53 + fraction * 2 ^ 28 % 2 ^ 53
        ≡ (acc * 2 ^ 28 + fraction * 2 ^ 28 / 2 ^ 53) * 2 ^ 53 + fraction * 2 ^ 28 % 2 ^ 53
          [MOD modulus] := (congruent.mul_right _).add_right _
      _ = acc * 2 ^ 53 * 2 ^ 28 +
          (2 ^ 53 * (fraction * 2 ^ 28 / 2 ^ 53) + fraction * 2 ^ 28 % 2 ^ 53) := by ring
      _ = (acc * 2 ^ 53 + fraction) * 2 ^ 28 := by rw [parts, ← Nat.add_mul]

def residue (d : Double) : ℕ := d.units * (2 ^ 60) ^ Double.unitPlaces % modulus

theorem residue_lt (d : Double) : residue d < modulus := Nat.mod_lt _ (by decide)

theorem turn_folded {d : Double} {shift : ℕ}
    (h : Folded (d.mantissa * 2 ^ shift) (d.exponent - shift + 53) result) :
    turn result.1 (result.2 % 61).toNat = residue d := by
  obtain ⟨j, lowered, reduced, congruent⟩ := h
  have positive : 0 ≤ result.2 % 61 := Int.emod_nonneg _ (by decide)
  have short : result.2 % 61 < 61 := Int.emod_lt_of_pos _ (by decide)
  have exponent : d.exponent = (max d.exponentField 1 - 1 : ℕ) - Double.unitPlaces := by
    unfold Double.exponent Double.unitPlaces
    omega
  rw [turn_eq reduced (by omega), residue, Double.units, ← ZMod.natCast_eq_natCast_iff', Nat.cast_mul,
    Nat.cast_mul, Nat.cast_mul, natCast_half_pow, natCast_two_pow, natCast_two_pow,
    Int.toNat_of_nonneg positive, weight_emod, mul_assoc, ← weight_add]
  have equal := (ZMod.natCast_eq_natCast_iff _ _ _).mpr congruent
  rw [Nat.cast_mul, Nat.cast_mul, Nat.cast_mul, natCast_two_pow, natCast_two_pow, natCast_two_pow]
    at equal
  calc result.1 * weight result.2 = result.1 * weight (53 : ℕ) * weight (result.2 - 53) := by
        rw [mul_assoc, ← weight_add]
        congr 2
        push_cast
        ring
    _ = d.mantissa * weight ((max d.exponentField 1 - 1 : ℕ) + -Double.unitPlaces) := by
        rw [equal, mul_assoc, mul_assoc, ← weight_add, ← weight_add, lowered, exponent]
        congr 2
        ring

theorem ofFraction_eq {d : Double} (pos : d.mantissa ≠ 0) :
    ofFraction d = ofSigned (d.signed (residue d)) := by
  have lead : d.mantissa.log2 ≤ 52 := Nat.le_of_lt_succ ((Nat.log2_lt pos).mpr d.mantissa_lt)
  have below : d.mantissa * Nat.pow 2 (52 - d.mantissa.log2) < 2 ^ 53 := by
    have places : 2 ^ (d.mantissa.log2 + 1) * 2 ^ (52 - d.mantissa.log2) = 2 ^ 53 := by
      rw [← Nat.pow_add]
      congr 1
      omega
    rw [← places]
    exact Nat.mul_lt_mul_of_pos_right Nat.lt_log2_self (Nat.two_pow_pos _)
  have folded := @folded_foldFraction 0 _ 2 (d.exponent - (52 - d.mantissa.log2 : ℕ) + 53) (by decide)
    below (Dvd.dvd.mul_left (by decide) _)
  rw [Nat.zero_mul, Nat.zero_add] at folded
  simp only [ofFraction]
  rw [turn_folded folded]

def unreserved (n : ℤ) : ℤ := if n = -1 then -2 else n

theorem signed_ofSigned {n : ℤ} (small : n.natAbs < modulus) :
    (ofSigned n).signed = unreserved n := by
  have word : modulus = 2305843009213693951 := rfl
  rw [signed, ofSigned, Int64.toInt64_toUInt64, ← unreserved, Int64.toInt_ofInt_of_le]
  all_goals
    unfold unreserved
    split <;> omega

/-- Between the ends of the words nothing is left of a number when its integer part is taken off. -/
theorem ofInt_truncate {d : Double} (noFraction : d.hasFraction = false)
    (above : Double.minusTwoPow63.orderKey ≤ d.orderKey)
    (below : d.orderKey < Double.twoPow63.orderKey) :
    ofInt (Int64.ofInt d.truncate) = ofSigned (d.signed (residue d)) := by
  have places : (0 : ℤ) < 2 ^ Double.unitPlaces := Int.pow_pos (by decide)
  have value := (d.exact_eq_scaled_iff d.truncate).mpr ⟨rfl, noFraction⟩
  have fits : -2 ^ 63 ≤ d.truncate ∧ d.truncate < 2 ^ 63 := by
    have least : Double.minusTwoPow63.exact ≤ d.exact :=
      Int.not_lt.mp fun less => Int.not_lt.mpr above (Double.exact_lt_iff.mp less)
    have most := Double.exact_lt_iff.mpr below
    rw [value, Double.exact_minusTwoPow63, ← Int.neg_mul] at least
    rw [value, Double.exact_twoPow63] at most
    exact ⟨Int.le_of_mul_le_mul_right least places, Int.lt_of_mul_lt_mul_right most (Int.le_of_lt places)⟩
  have whole : residue d = d.whole % modulus := by
    have units := (d.units_eq_scaled_iff d.whole).mpr ⟨rfl, noFraction⟩
    have same := @residue_eq d.units Double.unitPlaces d.whole 0 (by rw [Nat.pow_zero, Nat.mul_one, units])
    rwa [Nat.pow_zero, Nat.mul_one] at same
  rw [ofInt, Int64.toInt_ofInt_of_le fits.1 fits.2, whole, Double.truncate_eq, Double.signed,
    Double.signed]
  refine congrArg ofSigned ?_
  split
  next =>
    by_cases zero : d.whole = 0
    · simp [zero]
    · have negative : -(d.whole : ℤ) < 0 := by omega
      rw [if_pos negative, Int.natAbs_neg, Int.natAbs_natCast, Int.natCast_mod]
  next =>
    have positive : ¬ (d.whole : ℤ) < 0 := by omega
    rw [if_neg positive, Int.natAbs_natCast, Int.natCast_mod]

theorem ofDouble_eq_residue {d : Double} (number : d.isNaN = false) (finite : d.isInfinite = false) :
    ofDouble d = ofSigned (d.signed (residue d)) := by
  rw [ofDouble, finite, number]
  simp only [Bool.false_eq_true, if_false]
  split
  next integral =>
    simp only [Bool.and_eq_true, Bool.not_eq_true', decide_eq_true_eq] at integral
    exact ofInt_truncate integral.1.1 integral.1.2 integral.2
  next other =>
    refine ofFraction_eq fun zero => other ?_
    have key : d.orderKey = 0 := by
      have nothing : d.magnitude = 0 := by
        have parts := d.magnitude_eq
        unfold Double.mantissa Double.leadWeight at *
        split at zero <;> simp_all
      simp [Double.orderKey, Double.signed, nothing]
    have between : Double.minusTwoPow63.orderKey ≤ 0 ∧ 0 < Double.twoPow63.orderKey := by decide
    simp [key, between, Double.hasFraction, zero]

end HashCode

namespace Double

open Extended HashCode

variable {d : Double} {q : ℚ}

theorem absolute_nonneg (d : Double) : 0 ≤ d.absolute := by
  rw [absolute_eq]
  positivity

theorem abs_value (d : Double) : |d.value| = d.units / 2 ^ unitPlaces := by
  rw [value, ← absolute_eq]
  split
  · rw [abs_neg, abs_of_nonneg d.absolute_nonneg]
  · exact abs_of_nonneg d.absolute_nonneg

theorem residue_eq_of_abs {n k : ℕ} (dyadic : |d.value| = n / 2 ^ k) :
    residue d = n * (2 ^ 60) ^ k % modulus := by
  rw [abs_value, div_eq_div_iff (by positivity) (by positivity)] at dyadic
  exact residue_eq (by exact_mod_cast dyadic)

theorem signed_residue (d : Double) : d.signed (residue d) = SignType.sign d.value * residue d := by
  by_cases zero : d.units = 0
  · simp [signed, residue, zero]
  have positive : 0 < d.absolute := by
    rw [absolute_eq]
    positivity
  rw [signed, value]
  split
  · rw [sign_neg (neg_neg_of_pos positive), SignType.coe_neg_one, neg_one_mul]
  · rw [sign_pos positive, SignType.coe_one, one_mul]

theorem signed_ofDouble {n k : ℕ} (read : d.reading = some (ofRat q)) (dyadic : |q| = n / 2 ^ k) :
    (ofDouble d).signed =
      unreserved (SignType.sign q * (n * (2 ^ 60) ^ k % modulus : ℕ)) := by
  obtain ⟨number, finite, rfl⟩ := reading_eq_ofRat read
  have small : (d.signed (residue d)).natAbs < modulus := by
    have reduced := residue_lt d
    unfold signed
    split <;> omega
  rw [ofDouble_eq_residue number finite, signed_ofSigned small, signed_residue,
    residue_eq_of_abs dyadic]

end Double

open Extended HashCode

/-- Floating-point numbers count as what their patterns stand for. An integer and such a number are
compared by their exact order, on either side, and are unordered only if there is no number. The code
of a finite number is its residue, with its sign, in whatever way the number is written as a dyadic one,
and the code of an integer if it is one. -/
theorem floats_exact (s : Store) (d : Double) :
    (∀ n : Int64,
      s.intrinsicCompare? (.int n) (.float d) = some (d.reading.map (cmp (ofRat n.toInt) ·)) ∧
      s.intrinsicCompare? (.float d) (.int n) = some (d.reading.map (cmp · (ofRat n.toInt)))) ∧
    (d.reading = none ↔ d.isNaN = true) ∧
    ∀ q : ℚ, d.reading = some (ofRat q) →
      (∃ n k : ℕ, |q| = n / 2 ^ k) ∧
      (∀ n k : ℕ, |q| = n / 2 ^ k → (ofDouble d).signed =
        unreserved (SignType.sign q * (n * (2 ^ 60) ^ k % modulus : ℕ))) ∧
      ∀ n : Int64, q = n.toInt → ofDouble d = ofInt n := by
  refine ⟨fun n => ⟨?_, ?_⟩, Double.reading_eq_none_iff, fun q read => ⟨?_, ?_, ?_⟩⟩
  · exact congrArg some (Double.compareInt?_eq n d)
  · show some ((Double.compareInt? n d).map Ordering.swap) = _
    rw [Double.compareInt?_eq, Option.map_map]
    exact congrArg (fun f => some (d.reading.map f)) (funext fun x => cmp_swap _ x)
  · obtain ⟨-, -, rfl⟩ := Double.reading_eq_ofRat read
    exact ⟨_, _, d.abs_value⟩
  · exact fun n k dyadic => Double.signed_ofDouble read dyadic
  · rintro n rfl
    refine ofDouble_eq_ofInt ?_
    rw [Double.compareInt?_eq, read, Option.map_some, cmp_self_eq_eq]

/-- The pattern of -2.5, compared with -2, and a pattern next to the integer 2^53 + 1, which has none. -/
theorem floats_exact_neighbours :
    (∃ d : Double, d.reading = some (ofRat (-5 / 2)) ∧
      (ofDouble d).signed = -1152921504606846978 ∧
      Store.empty.intrinsicCompare? (.int (-2)) (.float d) = some (some .gt)) ∧
    ∃ d : Double, d.reading = some (ofRat (2 ^ 53)) ∧ ofDouble d = ofInt 9007199254740992 ∧
      Store.empty.intrinsicCompare? (.int 9007199254740993) (.float d) = some (some .gt) := by
  have half : (⟨0xC004000000000000⟩ : Double).reading = some (ofRat (-5 / 2)) := by
    have sign : (⟨0xC004000000000000⟩ : Double).isNegative = true := by decide +kernel
    have exponent : (⟨0xC004000000000000⟩ : Double).exponentField = 1024 := by decide +kernel
    have fraction : (⟨0xC004000000000000⟩ : Double).fraction = 2 ^ 50 := by decide +kernel
    rw [Double.reading, Double.value, Double.absolute, sign, exponent, fraction]
    norm_num
  have even : (⟨0x4340000000000000⟩ : Double).reading = some (ofRat (2 ^ 53)) := by
    have sign : (⟨0x4340000000000000⟩ : Double).isNegative = false := by decide +kernel
    have exponent : (⟨0x4340000000000000⟩ : Double).exponentField = 1076 := by decide +kernel
    have fraction : (⟨0x4340000000000000⟩ : Double).fraction = 0 := by decide +kernel
    rw [Double.reading, Double.value, Double.absolute, sign, exponent, fraction]
    norm_num
  have small : (-2 : Int64).toInt = -2 := by decide
  have odd : (9007199254740993 : Int64).toInt = 2 ^ 53 + 1 := by decide
  have exact : (9007199254740992 : Int64).toInt = 2 ^ 53 := by decide
  refine ⟨⟨_, half, ?_, ?_⟩, _, even, ?_, ?_⟩
  · refine (((floats_exact .empty _).2.2 _ half).2.1 5 1 (by norm_num [abs_of_neg])).trans ?_
    rw [sign_neg (by norm_num)]
    decide +kernel
  · rw [((floats_exact .empty _).1 (-2)).1, half, Option.map_some, cmp_ofRat]
    exact congrArg (some ∘ some) ((cmp_eq_gt_iff _ _).mpr (by norm_num [small]))
  · exact ((floats_exact .empty _).2.2 _ even).2.2 9007199254740992 (by norm_num [exact])
  · rw [((floats_exact .empty _).1 9007199254740993).1, even, Option.map_some, cmp_ofRat]
    exact congrArg (some ∘ some) ((cmp_eq_gt_iff _ _).mpr (by norm_num [odd]))

end DynamicObjects
