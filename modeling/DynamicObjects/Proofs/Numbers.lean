import DynamicObjects.Value
import Mathlib.Tactic.Ring

/-!
The exact values of numbers. Every pattern that is no NaN stands for an integer number of the smallest
positive number, and so does every integer; comparison finds two numbers equal exactly if these
integers are the same, so equality is an equivalence also across integers and floats.
-/
namespace DynamicObjects

namespace Double

/-- The absolute value, in units of the smallest positive number. Infinity is above all others. -/
def units (d : Double) : Nat := d.mantissa * 2 ^ (max d.exponentField 1 - 1)

theorem fraction_lt (d : Double) : d.fraction < leadWeight := Nat.mod_lt _ (by decide)

theorem magnitude_eq (d : Double) : d.exponentField * leadWeight + d.fraction = d.magnitude :=
  Nat.div_add_mod' _ _

theorem units_of_subnormal {d : Double} (h : d.exponentField = 0) : d.units = d.fraction := by
  simp [units, mantissa, h]

theorem units_of_normal {d : Double} (h : d.exponentField ≠ 0) :
    d.units = (leadWeight + d.fraction) * 2 ^ (d.exponentField - 1) := by
  have positive : max d.exponentField 1 = d.exponentField := by omega
  simp [units, mantissa, h, positive]

theorem units_lt_units {d e : Double} (less : d.magnitude < e.magnitude) : d.units < e.units := by
  have hd := magnitude_eq d
  have he := magnitude_eq e
  have fd := fraction_lt d
  have fe := fraction_lt e
  have exponents : d.exponentField ≤ e.exponentField := Nat.div_le_div_right (Nat.le_of_lt less)
  rcases Nat.eq_or_lt_of_le exponents with same | gap
  · have fractions : d.fraction < e.fraction := by
      rw [same] at hd
      omega
    by_cases zero : d.exponentField = 0
    · rw [units_of_subnormal zero, units_of_subnormal (same ▸ zero)]
      exact fractions
    · rw [units_of_normal zero, units_of_normal (same ▸ zero), same]
      exact Nat.mul_lt_mul_of_pos_right (by omega) (Nat.two_pow_pos _)
  · have above : e.exponentField ≠ 0 := by omega
    have floor : leadWeight * 2 ^ (e.exponentField - 1) ≤ e.units := by
      rw [units_of_normal above]
      exact Nat.mul_le_mul_right _ (Nat.le_add_right _ _)
    refine Nat.lt_of_lt_of_le ?_ floor
    by_cases zero : d.exponentField = 0
    · rw [units_of_subnormal zero]
      exact Nat.lt_of_lt_of_le fd (Nat.le_mul_of_pos_right _ (Nat.two_pow_pos _))
    · obtain ⟨k, succ⟩ := Nat.exists_eq_succ_of_ne_zero zero
      rw [units_of_normal zero, succ, Nat.succ_sub_one]
      calc (leadWeight + d.fraction) * 2 ^ k
          < (2 * leadWeight) * 2 ^ k :=
            Nat.mul_lt_mul_of_pos_right (by omega) (Nat.two_pow_pos _)
        _ = leadWeight * 2 ^ (k + 1) := by ring
        _ ≤ leadWeight * 2 ^ (e.exponentField - 1) :=
            Nat.mul_le_mul_left _ (Nat.pow_le_pow_right (by decide) (by omega))

theorem units_eq_units {d e : Double} (same : d.magnitude = e.magnitude) : d.units = e.units := by
  simp [units, mantissa, exponentField, fraction, same]

theorem units_lt_iff {d e : Double} : d.units < e.units ↔ d.magnitude < e.magnitude := by
  refine ⟨fun less => ?_, units_lt_units⟩
  rcases Nat.lt_trichotomy d.magnitude e.magnitude with h | h | h
  · exact h
  · exact absurd (units_eq_units h) (Nat.ne_of_lt less)
  · exact absurd (units_lt_units h) (Nat.lt_asymm less)

theorem units_pos_iff {d : Double} : 0 < d.units ↔ 0 < d.magnitude := by
  have zero : (⟨0⟩ : Double).units = 0 := by decide
  rw [← zero, units_lt_iff]
  rfl

def exact (d : Double) : Int := d.signed d.units

theorem exact_lt_iff {d e : Double} : d.exact < e.exact ↔ d.orderKey < e.orderKey := by
  have forward := @units_lt_iff d e
  have backward := @units_lt_iff e d
  have left := @units_pos_iff d
  have right := @units_pos_iff e
  simp only [exact, orderKey, signed]
  split <;> split <;> omega

theorem exact_eq_iff {d e : Double} : d.exact = e.exact ↔ d.orderKey = e.orderKey := by
  have forward := @exact_lt_iff d e
  have backward := @exact_lt_iff e d
  omega

/-- The exponent with which an integer is a number of units. -/
def unitPlaces : Nat := 1074

theorem exact_twoPow63 : twoPow63.exact = 2 ^ 63 * 2 ^ unitPlaces := by decide +kernel

theorem exact_minusTwoPow63 : minusTwoPow63.exact = -(2 ^ 63 * 2 ^ unitPlaces) := by decide +kernel

def whole (d : Double) : Nat :=
  if 0 ≤ d.exponent then d.mantissa * Nat.pow 2 d.exponent.toNat
  else d.mantissa / Nat.pow 2 (-d.exponent).toNat

theorem truncate_eq (d : Double) : d.truncate = d.signed d.whole := rfl

/-- The absolute value is an integer if and only if nothing is lost by truncation. -/
theorem units_eq_scaled_iff (d : Double) (n : Nat) :
    d.units = n * 2 ^ unitPlaces ↔ d.whole = n ∧ d.hasFraction = false := by
  have shift : d.exponent = (max d.exponentField 1 : Nat) - 1075 := rfl
  have places : 0 < 2 ^ unitPlaces := Nat.two_pow_pos _
  by_cases big : 0 ≤ d.exponent
  · have split : max d.exponentField 1 - 1 = d.exponent.toNat + unitPlaces := by
      rw [shift, unitPlaces]
      omega
    have noFraction : d.hasFraction = false := by simp [hasFraction, Int.not_lt.mpr big]
    have scaled : d.units = d.whole * 2 ^ unitPlaces := by
      rw [units, whole, if_pos big, split, Nat.pow_add, ← Nat.mul_assoc]
      rfl
    rw [scaled]
    exact ⟨fun same => ⟨Nat.eq_of_mul_eq_mul_right places same, noFraction⟩, fun h => by rw [h.1]⟩
  · let k := (-d.exponent).toNat
    have split : unitPlaces = max d.exponentField 1 - 1 + k := by
      simp only [k]
      rw [shift, unitPlaces]
      omega
    have scaled : d.units = n * 2 ^ unitPlaces ↔ d.mantissa = n * 2 ^ k := by
      rw [units, split, Nat.pow_add, Nat.mul_comm (2 ^ _), ← Nat.mul_assoc]
      exact ⟨Nat.eq_of_mul_eq_mul_right (Nat.two_pow_pos _), fun same => by rw [same]⟩
    have whole_eq : d.whole = d.mantissa / 2 ^ k := by
      rw [whole, if_neg big]
      rfl
    have fraction_iff : d.hasFraction = false ↔ d.mantissa % 2 ^ k = 0 := by
      have small : d.exponent < 0 := Int.not_le.mp big
      simp only [hasFraction, small, decide_true, Bool.true_and, bne_eq_false_iff_eq]
      exact Iff.rfl
    rw [scaled, whole_eq, fraction_iff]
    constructor
    · intro same
      rw [same]
      exact ⟨Nat.mul_div_cancel _ (Nat.two_pow_pos _), Nat.mul_mod_left _ _⟩
    · rintro ⟨rfl, rest⟩
      exact (Nat.div_mul_cancel (Nat.dvd_of_mod_eq_zero rest)).symm

theorem natCast_units_eq_scaled_iff (d : Double) (n : Int) :
    (d.units : Int) = n * 2 ^ unitPlaces ↔ (d.whole : Int) = n ∧ d.hasFraction = false := by
  cases n with
  | ofNat n =>
    have scaled := units_eq_scaled_iff d n
    rw [Int.ofNat_eq_natCast, Int.natCast_inj, ← scaled]
    norm_cast
  | negSucc n =>
    have negative : Int.negSucc n * 2 ^ unitPlaces < 0 :=
      Int.mul_neg_of_neg_of_pos (Int.negSucc_lt_zero n) (Int.pow_pos (by decide))
    constructor
    · intro same
      omega
    · rintro ⟨same, -⟩
      omega

/-- A number is an integer if and only if nothing is lost by truncation. -/
theorem exact_eq_scaled_iff (d : Double) (n : Int) :
    d.exact = n * 2 ^ unitPlaces ↔ d.truncate = n ∧ d.hasFraction = false := by
  rw [truncate_eq, exact, signed, signed]
  split
  · rw [Int.neg_eq_comm, ← Int.neg_mul, Eq.comm, natCast_units_eq_scaled_iff, Int.neg_eq_comm,
      Eq.comm (a := -n)]
  · exact natCast_units_eq_scaled_iff d n

/-- An integer and a number are equal exactly if they are so many units. -/
theorem compareInt?_eq_iff (n : Int64) (d : Double) :
    compareInt? n d = some .eq ↔ d.isNaN = false ∧ d.exact = n.toInt * 2 ^ unitPlaces := by
  have places : (0 : Int) < 2 ^ unitPlaces := Int.pow_pos (by decide)
  unfold compareInt?
  split
  next nan => simp [nan]
  next number =>
    rw [Bool.not_eq_true] at number
    simp only [number, true_and]
    split
    next above =>
      -- Beyond the largest integer: no integer has so many units.
      have least : twoPow63.exact ≤ d.exact :=
        Int.not_lt.mp fun less => Int.not_lt.mpr above (exact_lt_iff.mp less)
      have less : n.toInt * 2 ^ unitPlaces < 2 ^ 63 * 2 ^ unitPlaces :=
        Int.mul_lt_mul_of_pos_right (Int64.toInt_lt n) places
      rw [exact_twoPow63] at least
      simp only [Option.some.injEq, reduceCtorEq, false_iff]
      omega
    next =>
      split
      next below =>
        have less := exact_lt_iff.mpr below
        have least : -(2 ^ 63) * 2 ^ unitPlaces ≤ n.toInt * 2 ^ unitPlaces :=
          Int.mul_le_mul_of_nonneg_right (Int64.le_toInt n) (Int.le_of_lt places)
        rw [exact_minusTwoPow63, ← Int.neg_mul] at less
        simp only [Option.some.injEq, reduceCtorEq, false_iff]
        omega
      next =>
        rw [exact_eq_scaled_iff]
        split
        next same =>
          have same : n.toInt = d.truncate := by simpa using same
          cases d.hasFraction with
          | false => simp [same]
          | true => cases d.isNegative <;> simp
        next order other =>
          have differs : ¬ n.toInt = d.truncate := fun same => other (by simp [same])
          simp [differs, Ne.symm differs]

end Double

namespace Number

def value? : Number → Option Int
  | int n => some (n.toInt * 2 ^ Double.unitPlaces)
  | float d => if d.isNaN then none else some d.exact

theorem compare?_swap (x y : Number) : y.compare? x = (x.compare? y).map Ordering.swap := by
  have swap (a b : Int) : compare b a = (compare a b).swap := (Int.compare_swap a b).symm
  cases x with
  | int a =>
    cases y with
    | int b => simp [compare?, swap a.toInt]
    | float e => rfl
  | float d =>
    cases y with
    | int b =>
      simp only [compare?, Option.map_map]
      cases Double.compareInt? b d with
      | none => rfl
      | some o => cases o <;> rfl
    | float e =>
      simp only [compare?, Double.compare?, Bool.or_comm e.isNaN]
      split
      · rfl
      · simp [swap d.orderKey]

theorem compare?_eq_iff (x y : Number) :
    x.compare? y = some .eq ↔ ∃ v, x.value? = some v ∧ y.value? = some v := by
  have mixed (n : Int64) (d : Double) : Double.compareInt? n d = some .eq ↔
      ∃ v, (int n).value? = some v ∧ (float d).value? = some v := by
    rw [Double.compareInt?_eq_iff]
    cases nan : d.isNaN <;> simp [value?, nan, eq_comm]
  have same (a b : Int) : (∃ v, some a = some v ∧ some b = some v) ↔ a = b := by simp [eq_comm]
  cases x with
  | int a =>
    cases y with
    | int b =>
      have places : (2 : Int) ^ Double.unitPlaces ≠ 0 := Int.pow_ne_zero (by decide)
      simp only [compare?, value?, same, Int.mul_eq_mul_right_iff places]
      simp only [Option.some.injEq, compare_eq_iff_eq]
    | float e => exact mixed a e
  | float d =>
    cases y with
    | int b =>
      have swapped : (float d).compare? (int b) = some .eq ↔ Double.compareInt? b d = some .eq := by
        simp only [compare?]
        cases Double.compareInt? b d with
        | none => simp
        | some o => cases o <;> simp
      rw [swapped, mixed]
      exact exists_congr fun v => and_comm
    | float e =>
      simp only [compare?, Double.compare?, value?]
      cases nan : d.isNaN with
      | true => simp
      | false =>
        cases nan' : e.isNaN with
        | true => simp
        | false =>
          simp only [Bool.or_self, Bool.false_eq_true, if_false, same]
          simp only [Option.some.injEq, compare_eq_iff_eq, Double.exact_eq_iff]

/-- Numbers are equal if they have the same value or are the same, which matters for a NaN. -/
def Equal (x y : Number) : Prop := x = y ∨ x.compare? y = some .eq

theorem Equal.refl (x : Number) : x.Equal x := .inl rfl

theorem Equal.symm {x y : Number} (h : x.Equal y) : y.Equal x := by
  rcases h with rfl | same
  · exact .inl rfl
  · exact .inr (by rw [compare?_swap, same]; rfl)

theorem Equal.trans {x y z : Number} (first : x.Equal y) (second : y.Equal z) : x.Equal z := by
  rcases first with rfl | first
  · exact second
  · rcases second with rfl | second
    · exact .inr first
    · obtain ⟨v, left, middle⟩ := (compare?_eq_iff x y).mp first
      obtain ⟨v', middle', right⟩ := (compare?_eq_iff y z).mp second
      obtain rfl : v = v' := Option.some.inj (middle.symm.trans middle')
      exact .inr ((compare?_eq_iff x z).mpr ⟨v, left, right⟩)

end Number

end DynamicObjects
