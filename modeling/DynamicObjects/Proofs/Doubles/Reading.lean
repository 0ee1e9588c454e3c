import Mathlib.Algebra.Order.Field.Rat
import Mathlib.Algebra.Order.Ring.Rat
import Mathlib.Tactic.FieldSimp
import Mathlib.Tactic.Linarith
import Mathlib.Tactic.NormNum
import Mathlib.Tactic.Positivity
import DynamicObjects.Proofs.Numbers
import DynamicObjects.Store

/-!
What a pattern stands for: no number, an infinity, or the dyadic number that its sign, its exponent
and its fraction describe. Integers are compared with this number itself. A number between two integers
is truncated to the one that is nearer to zero, so its fraction decides only against that one, and by
its sign.
-/
namespace DynamicObjects

abbrev Extended := WithBot (WithTop ℚ)

namespace Extended

def ofRat (q : ℚ) : Extended := ((q : WithTop ℚ) : WithBot (WithTop ℚ))

theorem strictMono_ofRat : StrictMono ofRat := WithBot.coe_strictMono.comp WithTop.coe_strictMono

theorem cmp_ofRat (p q : ℚ) : cmp (ofRat p) (ofRat q) = cmp p q := strictMono_ofRat.cmp_map_eq p q

theorem cmp_ofRat_top (q : ℚ) : cmp (ofRat q) ⊤ = .lt :=
  (cmp_eq_lt_iff _ _).mpr (WithBot.coe_lt_coe.mpr (WithTop.coe_lt_top q))

theorem cmp_ofRat_bot (q : ℚ) : cmp (ofRat q) ⊥ = .gt :=
  (cmp_eq_gt_iff _ _).mpr (WithBot.bot_lt_coe _)

end Extended

namespace Double

open Extended

/-- The absolute value of a finite pattern. The lowest exponent goes without the implicit leading
bit. -/
def absolute (d : Double) : ℚ :=
  if d.exponentField = 0 then d.fraction / 2 ^ 52 * (2 : ℚ) ^ (-1022 : ℤ)
  else (1 + d.fraction / 2 ^ 52) * (2 : ℚ) ^ ((d.exponentField : ℤ) - 1023)

def value (d : Double) : ℚ := if d.isNegative then -d.absolute else d.absolute

/-- What a pattern stands for. The highest exponent is kept for the infinities and for what is no
number. -/
def reading (d : Double) : Option Extended :=
  if d.exponentField = 2047 then
    if d.fraction = 0 then some (if d.isNegative then ⊥ else ⊤) else none
  else some (ofRat d.value)

variable {d : Double}

theorem magnitude_lt (d : Double) : d.magnitude < signWeight := Nat.mod_lt _ (by decide)

theorem mantissa_lt (d : Double) : d.mantissa < 2 ^ 53 := by
  have low := fraction_lt d
  unfold mantissa leadWeight at *
  split <;> omega

theorem isNaN_iff : d.isNaN = true ↔ d.exponentField = 2047 ∧ d.fraction ≠ 0 := by
  have parts := magnitude_eq d
  have low := fraction_lt d
  have high := magnitude_lt d
  rw [isNaN, decide_eq_true_iff]
  simp only [infinityPattern, leadWeight, signWeight] at *
  omega

theorem isInfinite_iff : d.isInfinite = true ↔ d.exponentField = 2047 ∧ d.fraction = 0 := by
  have parts := magnitude_eq d
  have low := fraction_lt d
  have high := magnitude_lt d
  simp only [isInfinite, infinityPattern, beq_iff_eq, leadWeight, signWeight] at *
  omega

theorem reading_eq_none_iff : d.reading = none ↔ d.isNaN = true := by
  rw [isNaN_iff, reading]
  split
  next top => split <;> simp_all
  next => simp_all

theorem reading_of_isInfinite (infinite : d.isInfinite = true) :
    d.reading = some (if d.isNegative then ⊥ else ⊤) := by
  obtain ⟨top, whole⟩ := isInfinite_iff.mp infinite
  rw [reading, if_pos top, if_pos whole]

theorem reading_of_isFinite (number : ¬ d.isNaN = true) (finite : ¬ d.isInfinite = true) :
    d.reading = some (ofRat d.value) := by
  have top : d.exponentField ≠ 2047 := by
    rw [isNaN_iff] at number
    rw [isInfinite_iff] at finite
    tauto
  exact if_neg top

theorem reading_eq_ofRat {q : ℚ} (read : d.reading = some (ofRat q)) :
    d.isNaN = false ∧ d.isInfinite = false ∧ d.value = q := by
  by_cases number : d.isNaN = true
  · rw [reading_eq_none_iff.mpr number] at read
    cases read
  by_cases finite : d.isInfinite = true
  · rw [reading_of_isInfinite finite] at read
    have infinity := Option.some.inj read
    split at infinity
    · exact absurd infinity WithBot.bot_ne_coe
    · exact absurd (WithBot.coe_injective infinity) WithTop.top_ne_coe
  rw [reading_of_isFinite number finite] at read
  exact ⟨Bool.not_eq_true _ ▸ number, Bool.not_eq_true _ ▸ finite,
    strictMono_ofRat.injective (Option.some.inj read)⟩

theorem absolute_eq (d : Double) : d.absolute = (d.units : ℚ) / 2 ^ unitPlaces := by
  have two : (2 : ℚ) ≠ 0 := by decide
  unfold absolute
  split
  next zero =>
    have exponent : (-1022 : ℤ) = (52 : ℕ) - unitPlaces := rfl
    rw [units_of_subnormal zero, exponent, zpow_sub₀ two, zpow_natCast, zpow_natCast]
    field_simp
  next normal =>
    obtain ⟨k, succ⟩ := Nat.exists_eq_succ_of_ne_zero normal
    have exponent : ((k.succ : ℕ) : ℤ) - 1023 = k + (52 : ℕ) - unitPlaces := by
      rw [unitPlaces]
      omega
    rw [units_of_normal normal, succ, Nat.succ_sub_one, exponent, zpow_sub₀ two, zpow_add₀ two,
      zpow_natCast, zpow_natCast, zpow_natCast, leadWeight]
    push_cast
    field_simp
    norm_num

theorem value_eq (d : Double) : d.value = (d.exact : ℚ) / 2 ^ unitPlaces := by
  rw [value, absolute_eq, exact, signed]
  split
  · rw [Int.cast_neg, neg_div, Int.cast_natCast]
  · rw [Int.cast_natCast]

theorem whole_eq_div (d : Double) : d.whole = d.units / 2 ^ unitPlaces := by
  have shift : d.exponent = (max d.exponentField 1 : Nat) - 1075 := rfl
  unfold whole units
  split
  next big =>
    have split : max d.exponentField 1 - 1 = d.exponent.toNat + unitPlaces := by
      rw [shift, unitPlaces]
      omega
    rw [split, Nat.pow_add, ← Nat.mul_assoc, Nat.mul_div_cancel _ (Nat.two_pow_pos _)]
    rfl
  next small =>
    have split : unitPlaces = (-d.exponent).toNat + (max d.exponentField 1 - 1) := by
      rw [shift, unitPlaces]
      omega
    rw [split, Nat.pow_add, Nat.mul_div_mul_right _ _ (Nat.two_pow_pos _)]
    rfl

theorem exact_bounds (d : Double) :
    if d.isNegative then
      (d.truncate - 1) * 2 ^ unitPlaces < d.exact ∧ d.exact ≤ d.truncate * 2 ^ unitPlaces
    else
      d.truncate * 2 ^ unitPlaces ≤ d.exact ∧ d.exact < (d.truncate + 1) * 2 ^ unitPlaces := by
  have least : (d.whole : ℤ) * 2 ^ unitPlaces ≤ d.units := by
    rw [whole_eq_div]
    exact_mod_cast Nat.div_mul_le_self _ _
  have most : (d.units : ℤ) < (d.whole + 1) * 2 ^ unitPlaces := by
    rw [whole_eq_div]
    exact_mod_cast Nat.lt_mul_of_div_lt (Nat.lt_succ_self _) (Nat.two_pow_pos _)
  rw [truncate_eq, exact, signed, signed]
  split
  · constructor <;> linarith
  · exact ⟨least, most⟩

theorem order_of_truncate (n : ℤ) (d : Double) :
    (n < d.truncate → n * 2 ^ unitPlaces < d.exact) ∧
    (d.truncate < n → d.exact < n * 2 ^ unitPlaces) := by
  have places : (0 : ℤ) < 2 ^ unitPlaces := Int.pow_pos (by decide)
  have bounds := d.exact_bounds
  generalize (2 : ℤ) ^ unitPlaces = u at *
  constructor
  · intro less
    split at bounds
    · exact lt_of_le_of_lt (Int.mul_le_mul_of_nonneg_right (by omega) (le_of_lt places)) bounds.1
    · exact lt_of_lt_of_le (Int.mul_lt_mul_of_pos_right less places) bounds.1
  · intro greater
    split at bounds
    · exact lt_of_le_of_lt bounds.2 (Int.mul_lt_mul_of_pos_right greater places)
    · exact lt_of_lt_of_le bounds.2 (Int.mul_le_mul_of_nonneg_right (by omega) (le_of_lt places))

theorem order_of_hasFraction (fraction : d.hasFraction = true) :
    if d.isNegative then d.exact < d.truncate * 2 ^ unitPlaces
    else d.truncate * 2 ^ unitPlaces < d.exact := by
  have differs : d.exact ≠ d.truncate * 2 ^ unitPlaces := fun same =>
    Bool.noConfusion (((d.exact_eq_scaled_iff _).mp same).2.symm.trans fraction)
  have bounds := d.exact_bounds
  split at bounds
  next negative =>
    rw [if_pos negative]
    exact lt_of_le_of_ne bounds.2 differs
  next positive =>
    rw [if_neg positive]
    exact lt_of_le_of_ne bounds.1 differs.symm

theorem compareInt?_eq_cmp {n : Int64} (number : d.isNaN = false) :
    compareInt? n d = some (cmp (n.toInt * 2 ^ unitPlaces) d.exact) := by
  have places : (0 : ℤ) < 2 ^ unitPlaces := Int.pow_pos (by decide)
  suffices ∃ o, compareInt? n d = some o ∧ o.Compares (n.toInt * 2 ^ unitPlaces) d.exact by
    obtain ⟨o, compared, order⟩ := this
    rw [compared, order.cmp_eq]
  simp only [compareInt?, number, Bool.false_eq_true, if_false]
  split
  next above =>
    have least : twoPow63.exact ≤ d.exact :=
      Int.not_lt.mp fun less => Int.not_lt.mpr above (exact_lt_iff.mp less)
    rw [exact_twoPow63] at least
    exact ⟨.lt, rfl, lt_of_lt_of_le (Int.mul_lt_mul_of_pos_right (Int64.toInt_lt n) places) least⟩
  next =>
    split
    next below =>
      have less := exact_lt_iff.mpr below
      rw [exact_minusTwoPow63, ← Int.neg_mul] at less
      exact ⟨.gt, rfl, lt_of_lt_of_le less
        (Int.mul_le_mul_of_nonneg_right (Int64.le_toInt n) (le_of_lt places))⟩
    next =>
      rcases lt_trichotomy n.toInt d.truncate with less | same | greater
      · rw [compare_lt_iff_lt.mpr less]
        exact ⟨.lt, rfl, (order_of_truncate _ d).1 less⟩
      · rw [compare_eq_iff_eq.mpr same, same]
        refine ⟨_, rfl, ?_⟩
        cases fraction : d.hasFraction with
        | false => exact ((d.exact_eq_scaled_iff _).mpr ⟨rfl, fraction⟩).symm
        | true =>
          have order := order_of_hasFraction fraction
          cases sign : d.isNegative <;> rwa [sign] at order
      · rw [compare_gt_iff_gt.mpr greater]
        exact ⟨.gt, rfl, (order_of_truncate _ d).2 greater⟩

/-- Comparison with an integer finds the exact order, and none only where there is no number. -/
theorem compareInt?_eq (n : Int64) (d : Double) :
    compareInt? n d = d.reading.map (cmp (ofRat n.toInt)) := by
  by_cases number : d.isNaN = true
  · rw [reading_eq_none_iff.mpr number, compareInt?, if_pos number]
    rfl
  by_cases infinite : d.isInfinite = true
  · have magnitude : d.magnitude = infinityPattern := by simpa [isInfinite] using infinite
    have top : twoPow63.orderKey ≤ (infinityPattern : ℤ) := by decide
    have bottom : ¬ twoPow63.orderKey ≤ -(infinityPattern : ℤ) ∧
        -(infinityPattern : ℤ) < minusTwoPow63.orderKey := by decide
    rw [reading_of_isInfinite infinite, compareInt?, if_neg number]
    cases sign : d.isNegative with
    | false =>
      have key : d.orderKey = infinityPattern := by simp [orderKey, signed, sign, magnitude]
      rw [key, if_pos top]
      exact congrArg some (cmp_ofRat_top _).symm
    | true =>
      have key : d.orderKey = -infinityPattern := by simp [orderKey, signed, sign, magnitude]
      rw [key, if_neg bottom.1, if_pos bottom.2]
      exact congrArg some (cmp_ofRat_bot _).symm
  · have places : StrictMono fun z : ℤ => (z : ℚ) / 2 ^ unitPlaces := fun x y less =>
      div_lt_div_of_pos_right (Int.cast_lt.mpr less) (by positivity)
    have scale : (n.toInt : ℚ) = ((n.toInt * 2 ^ unitPlaces : ℤ) : ℚ) / 2 ^ unitPlaces := by
      push_cast
      field_simp
    rw [compareInt?_eq_cmp (Bool.not_eq_true _ ▸ number), reading_of_isFinite number infinite,
      Option.map_some, cmp_ofRat, value_eq, scale]
    exact congrArg some (places.cmp_map_eq _ _).symm

end Double

end DynamicObjects
