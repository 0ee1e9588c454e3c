import Mathlib
import DynamicObjects.Double

/-!
Sizes as numbers. Rounding a positive size keeps a leading bit in the first of the 53 places and moves
the exponent by no more than the size is long. So the number is finite and not zero, and the quotient
of it by itself is exactly one, whatever was rounded off. (No smaller import than the whole library has
the lemmas about the patterns of machine numbers.)
-/
namespace DynamicObjects

open Float.Model UnpackedFloat

namespace Double

theorem mantissa_shiftRight (em : ExtendedMantissa) (k : Nat) :
    (em >>> k).mantissa = em.mantissa / 2 ^ k := by
  induction k with
  | zero =>
    rw [Nat.pow_zero, Nat.div_one]
    rfl
  | succ k ih =>
    rw [Nat.pow_succ, ← Nat.div_div_eq_div_mul, ← ih]
    rfl

theorem roundedMantissa_bounds (em : ExtendedMantissa) :
    em.mantissa ≤ em.roundedMantissa ∧ em.roundedMantissa ≤ em.mantissa + 1 := by
  obtain ⟨m, roundBit, stickyBit⟩ := em
  have even : m % 2 ≤ 1 := by omega
  cases roundBit <;> cases stickyBit <;>
    simp [ExtendedMantissa.roundedMantissa, ExtendedMantissa.accuracy, Accuracy.roundToNearestEven,
      even]

theorem targetExponent_binary64 (m : Nat) (e : Int) :
    Format.binary64.targetExponent (totalExponent m e) = max (m.log2 + e - 52) (-1074) := by
  simp only [Format.targetExponent, totalExponent, Format.mantissaBits, Format.minExponent]
  norm_num
  omega

/-- A number in normal form: the leading bit stands in the first of the 53 places. -/
def Normal (low high : Int) : UnpackedFloat → Prop
  | .finite _ m e _ => m.log2 = 52 ∧ low ≤ e ∧ e ≤ high
  | _ => False

/-- Where the mantissa fills its places, it is cut down to 53 of them; if the last of these is rounded
up all the way, one more place goes. -/
theorem normal_roundWithAccuracy (s : Sign) {m : Nat} {e : Int} (long : 52 ≤ m.log2)
    (low : -1074 ≤ e) :
    Normal e (e + m.log2 - 51) (roundWithAccuracy Format.binary64 s m e .exact) := by
  obtain ⟨k, places⟩ := Nat.exists_eq_add_of_le long
  have nonzero : m ≠ 0 := by
    rintro rfl
    simp at long
  have first : shiftToTargetExponent Format.binary64 m e .exact =
      (ExtendedMantissa.ofMantissaAndAccuracy m .exact >>> k, e + k) := by
    have shift : (Format.binary64.targetExponent (totalExponent m e) - e).toNat = k := by
      rw [targetExponent_binary64]
      omega
    simp only [shiftToTargetExponent, shiftToExponent, shift]
  obtain ⟨least, most⟩ :=
    roundedMantissa_bounds (ExtendedMantissa.ofMantissaAndAccuracy m .exact >>> k)
  rw [mantissa_shiftRight] at least most
  have atLeast : 2 ^ 52 ≤ m / 2 ^ k := by
    rw [Nat.le_div_iff_mul_le (Nat.two_pow_pos k), ← Nat.pow_add, ← places]
    exact Nat.log2_self_le nonzero
  have below : m / 2 ^ k < 2 ^ 53 := by
    rw [Nat.div_lt_iff_lt_mul (Nat.two_pow_pos k), ← Nat.pow_add]
    exact (Nat.log2_lt nonzero).mp (by omega)
  generalize rounded : (ExtendedMantissa.ofMantissaAndAccuracy m .exact >>> k).roundedMantissa = r
    at least most
  replace least : 2 ^ 52 ≤ r := Nat.le_trans atLeast least
  replace most : r ≤ 2 ^ 53 := Nat.le_trans most below
  simp only [roundWithAccuracy, first, rounded]
  rcases Nat.lt_or_eq_of_le most with short | carried
  · have lead : r.log2 = 52 := (Nat.log2_eq_iff (by omega)).mpr ⟨least, short⟩
    have second : shiftToTargetExponent Format.binary64 r (e + k) .exact =
        (⟨r, false, false⟩, e + k) := by
      have shift : (Format.binary64.targetExponent (totalExponent r (e + k)) - (e + k)).toNat = 0 := by
        rw [targetExponent_binary64, lead]
        omega
      simp only [shiftToTargetExponent, shiftToExponent, shift, Int.natCast_zero, Int.add_zero]
      rfl
    simp only [second]
    rw [dif_neg (by omega)]
    exact ⟨lead, by omega, by omega⟩
  · have second : shiftToTargetExponent Format.binary64 r (e + k) .exact =
        (⟨2 ^ 52, false, false⟩, e + k + 1) := by
      have shift : (Format.binary64.targetExponent (totalExponent r (e + k)) - (e + k)).toNat = 1 := by
        rw [targetExponent_binary64, carried, Nat.log2_two_pow]
        omega
      simp only [shiftToTargetExponent, shiftToExponent, shift]
      rw [carried]
      rfl
    simp only [second]
    rw [dif_neg (by decide)]
    exact ⟨Nat.log2_two_pow, by omega, by omega⟩

theorem normal_ofNat {n : Nat} (pos : 0 < n) (word : n < 2 ^ 64) :
    Normal (-1074) 971 (UnpackedFloat.ofNat Format.binary64 n) := by
  have length : n.log2 < 64 := (Nat.log2_lt (Nat.ne_of_gt pos)).mpr word
  have greater : compare (n : Int) 0 = .gt := compare_gt_iff_gt.mpr (by omega)
  have unrounded : UnpackedFloat.ofNat Format.binary64 n =
      roundWithAccuracy Format.binary64 .positive (n <<< (52 - n.log2))
        (0 - ((52 - n.log2 : Nat) : Int)) .exact := by
    have shift : (0 - Format.binary64.targetExponent (totalExponent n 0)).toNat = 52 - n.log2 := by
      rw [targetExponent_binary64]
      omega
    simp only [UnpackedFloat.ofNat, UnpackedFloat.ofInt, UnpackedFloat.normalize, greater,
      UnpackedFloat.round, Int.toNat_natCast, decreaseExponent, shift]
  have lead : (n <<< (52 - n.log2)).log2 = n.log2 + (52 - n.log2) := by
    have low := Nat.log2_self_le (Nat.ne_of_gt pos)
    have high := Nat.lt_log2_self (n := n)
    rw [Nat.shiftLeft_eq, Nat.log2_eq_iff (by positivity), Nat.pow_add, Nat.add_right_comm, Nat.pow_add]
    exact ⟨Nat.mul_le_mul_right _ low, Nat.mul_lt_mul_of_pos_right high (Nat.two_pow_pos _)⟩
  have normal := normal_roundWithAccuracy .positive (m := n <<< (52 - n.log2))
    (e := 0 - ((52 - n.log2 : Nat) : Int)) (by omega) (by omega)
  rw [← unrounded, lead] at normal
  cases exact : UnpackedFloat.ofNat Format.binary64 n with
  | finite s m e positive =>
    rw [exact] at normal
    obtain ⟨leading, low, high⟩ := normal
    exact ⟨leading, by omega, by omega⟩
  | infinity | notANumber | zero =>
    rw [exact] at normal
    exact normal

theorem Normal.unpack_pack {u : UnpackedFloat} (normal : Normal (-1074) 971 u) :
    (Float.Model.pack u).unpack = u := by
  match u with
  | .finite s m e pos =>
    obtain ⟨lead, low, high⟩ := normal
    obtain ⟨least, most⟩ := (Nat.log2_eq_iff (Nat.ne_of_gt pos)).mp lead
    have bias : (Format.binary64.exponentBias : Int) = 1023 := rfl
    have width : (Format.binary64.mantissaBitsWithoutImplicit : Int) = 52 := rfl
    have biased : (e + Format.binary64.exponentBias +
        Format.binary64.mantissaBitsWithoutImplicit).toNat = (e + 1075).toNat := by
      rw [bias, width, Int.add_assoc]
      rfl
    have packed : UnpackedFloat.pack Format.binary64 (.finite s m e pos) =
        packComponents Format.binary64 s (BitVec.ofNat 11 (e + 1075).toNat) (BitVec.ofNat 52 m) := by
      simp only [UnpackedFloat.pack, biased, lead]
      rw [if_neg (by omega), if_pos (by decide)]
    have field : (BitVec.ofNat 11 (e + 1075).toNat).toNat = (e + 1075).toNat :=
      Nat.mod_eq_of_lt (by omega)
    have notTop : BitVec.ofNat 11 (e + 1075).toNat ≠ -1#11 := by
      intro top
      rw [top] at field
      have value : (-1#11).toNat = 2047 := by decide
      omega
    have notBottom : BitVec.ofNat 11 (e + 1075).toNat ≠ 0#11 := by
      intro bottom
      rw [bottom] at field
      have value : (0#11).toNat = 0 := by decide
      omega
    have places : (1#1 ++ BitVec.ofNat 52 m).toNat = m := by
      rw [BitVec.toNat_append, ← Nat.shiftLeft_add_eq_or_of_lt (BitVec.isLt _), BitVec.toNat_ofNat,
        BitVec.toNat_ofNat, Nat.shiftLeft_eq]
      omega
    show UnpackedFloat.unpack Format.binary64 (UnpackedFloat.pack Format.binary64 _) = _
    rw [packed]
    simp only [UnpackedFloat.unpack, unpackExponent_packComponents, unpackMantissa_packComponents,
      unpackSign_packComponents, Sign.ofBitVec_toBitVec, notTop, notBottom, places, field, bias, width,
      if_false]
    congr 1
    omega

theorem ofBits_toBits (f : Float) : Float.ofBits f.toBits = f := by
  obtain ⟨bits, valid⟩ := f
  have same := pack_unpack_of_valid valid
  show Float.ofModel (Float.Model.pack (UnpackedFloat.unpack Format.binary64 bits.toBitVec)) = _
  simp only [Float.Model.pack, same]

theorem isNaN_ofFloat (f : Float) : (ofFloat f).isNaN = f.isNaN := by
  unfold ofFloat
  split
  next missing => rw [missing]; decide +kernel
  next number =>
    rw [Bool.eq_false_iff.mpr number]
    refine Bool.eq_false_iff.mpr fun missing => number ?_
    simp only [isNaN, magnitude, infinityPattern, signWeight] at missing
    obtain ⟨⟨⟨bits⟩, valid⟩⟩ := f
    replace missing : 0x7FF0000000000000 < bits.toNat % 0x8000000000000000 :=
      of_decide_eq_true missing
    have top : @unpackExponent Format.binary64 bits = -1#11 := by
      apply BitVec.eq_of_toNat_eq
      rw [unpackExponent_def, BitVec.extractLsb'_toNat, Nat.shiftRight_eq_div_pow]
      show bits.toNat / 2 ^ 52 % 2 ^ 11 = 2047
      omega
    have part : @unpackMantissa Format.binary64 bits ≠ 0#52 := by
      intro nothing
      have value := congrArg BitVec.toNat nothing
      rw [unpackMantissa_def, BitVec.extractLsb'_toNat, Nat.shiftRight_eq_div_pow] at value
      replace value : bits.toNat / 2 ^ 0 % 2 ^ 52 = 0 := value
      omega
    show (UnpackedFloat.unpack Format.binary64 bits).isNaN = true
    simp only [UnpackedFloat.unpack]
    rw [if_pos top, if_neg part]
    rfl

theorem toFloat_ofFloat {f : Float} (number : f.isNaN = false) : (ofFloat f).toFloat = f := by
  simp only [ofFloat, number, toFloat]
  exact ofBits_toBits f

/-- A finite number that is not zero, divided by itself, leaves no remainder. -/
theorem float_div_self {f : Float} {s : Sign} {m : Nat} {e : Int} {pos : 0 < m}
    (finite : f.toModel.unpack = .finite s m e pos) : f / f = Float.ofBits 0x3FF0000000000000 := by
  have whole : divCore Format.binary64 m e m e = (2 ^ 53, -53, .exact) := by
    have target : min (e - e) (Format.binary64.targetExponent
        (totalExponent m e - totalExponent m e)) = -53 := by
      rw [Int.sub_self, Int.sub_self]
      decide
    simp only [divCore, target]
    rw [Int.sub_self, show (0 - -53 : Int).toNat = 53 from rfl, Nat.shiftLeft_eq,
      Nat.mul_div_cancel_left _ pos, Nat.mul_mod_right]
    rfl
  have quotient : UnpackedFloat.div Format.binary64 f.toModel.unpack f.toModel.unpack =
      .finite .positive (2 ^ 52) (-52) (by decide) := by
    rw [finite]
    simp only [UnpackedFloat.div, whole]
    cases s <;> rfl
  show Float.ofModel (Float.Model.pack
    (UnpackedFloat.div Format.binary64 f.toModel.unpack f.toModel.unpack)) = _
  rw [quotient]
  decide +kernel

theorem ofNat_div_self {n : Nat} (pos : 0 < n) (word : n < 2 ^ 64) :
    (ofNat n).div (ofNat n) = one := by
  have value : (UInt64.ofNat n).toNat = n := Nat.mod_eq_of_lt word
  have normal := normal_ofNat pos word
  have exact : (UInt64.ofNat n).toFloat.toModel.unpack = UnpackedFloat.ofNat Format.binary64 n := by
    show (Float.Model.pack (UnpackedFloat.ofNat Format.binary64 (UInt64.ofNat n).toNat)).unpack = _
    rw [value, normal.unpack_pack]
  cases shape : UnpackedFloat.ofNat Format.binary64 n with
  | finite s m e positive =>
    have finite := exact.trans shape
    have number : (UInt64.ofNat n).toFloat.isNaN = false := by
      show (UInt64.ofNat n).toFloat.toModel.unpack.isNaN = false
      rw [finite]
      rfl
    have quotient : (ofNat n).div (ofNat n) = ofFloat (Float.ofBits 0x3FF0000000000000) := by
      simp only [div, lift, ofNat, isNaN_ofFloat, number, toFloat_ofFloat number,
        float_div_self finite, Bool.false_eq_true, if_false]
    rw [quotient]
    decide +kernel
  | infinity | notANumber | zero =>
    rw [shape] at normal
    exact normal.elim

end Double

end DynamicObjects
