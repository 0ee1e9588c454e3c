/-!
Binary floating-point numbers as 64-bit patterns. A finite number is read as `± mantissa · 2^exponent`
with integers only, and order, truncation and remainder are computed on that reading, exactly.
Rounded arithmetic is the machine's; what it does with a NaN is stated on the patterns.
-/
namespace DynamicObjects

structure Double where
  bits : UInt64
  deriving DecidableEq

namespace Double

def signWeight : Nat := 0x8000000000000000

/-- The weight of the lowest exponent bit in a pattern, which is also the implicit leading bit of a
mantissa. -/
def leadWeight : Nat := 0x0010000000000000

def isNegative (d : Double) : Bool := signWeight ≤ d.bits.toNat

def magnitude (d : Double) : Nat := d.bits.toNat % signWeight

def infinityPattern : Nat := 0x7FF0000000000000

def isNaN (d : Double) : Bool := infinityPattern < d.magnitude

def isInfinite (d : Double) : Bool := d.magnitude == infinityPattern

def isFinite (d : Double) : Bool := d.magnitude < infinityPattern

def isZero (d : Double) : Bool := d.magnitude == 0

def exponentField (d : Double) : Nat := d.magnitude / leadWeight

def fraction (d : Double) : Nat := d.magnitude % leadWeight

def mantissa (d : Double) : Nat :=
  if d.exponentField = 0 then d.fraction else leadWeight + d.fraction

def exponent (d : Double) : Int :=
  (max d.exponentField 1 : Nat) - 1075

def signed (d : Double) (n : Nat) : Int :=
  if d.isNegative then -(n : Int) else n

def truncate (d : Double) : Int :=
  d.signed (if 0 ≤ d.exponent then d.mantissa * Nat.pow 2 d.exponent.toNat
    else d.mantissa / Nat.pow 2 (-d.exponent).toNat)

def hasFraction (d : Double) : Bool :=
  d.exponent < 0 && d.mantissa % Nat.pow 2 (-d.exponent).toNat != 0

/-- Patterns of one sign are ordered as their numbers are, so this integer orders all numbers. -/
def orderKey (d : Double) : Int := d.signed d.magnitude

def compare? (a b : Double) : Option Ordering :=
  if a.isNaN || b.isNaN then none else some (compare a.orderKey b.orderKey)

def twoPow63 : Double := ⟨0x43E0000000000000⟩

def minusTwoPow63 : Double := ⟨0xC3E0000000000000⟩

/-- The order of a 64-bit integer and a number, without rounding the integer. -/
def compareInt? (n : Int64) (d : Double) : Option Ordering :=
  if d.isNaN then none
  else if twoPow63.orderKey ≤ d.orderKey then some .lt
  else if d.orderKey < minusTwoPow63.orderKey then some .gt
  else
    match compare n.toInt d.truncate with
    | .eq =>
      some (if !d.hasFraction then .eq else if d.isNegative then .gt else .lt)
    | other => some other

/-- A NaN that signals becomes quiet when it passes through an operation. -/
def quiet (d : Double) : Double := ⟨d.bits ||| 0x0008000000000000⟩

def undefined : Double := ⟨0xFFF8000000000000⟩

def ofFloat (f : Float) : Double :=
  if f.isNaN then undefined else ⟨f.toBits⟩

def toFloat (d : Double) : Float := Float.ofBits d.bits

/-- Runs a machine operation on numbers; the first NaN among the operands is the result. -/
def lift (f : Float → Float → Float) (a b : Double) : Double :=
  if a.isNaN then a.quiet
  else if b.isNaN then b.quiet
  else ofFloat (f a.toFloat b.toFloat)

def add : Double → Double → Double := lift (· + ·)

def sub : Double → Double → Double := lift (· - ·)

def mul : Double → Double → Double := lift (· * ·)

def div : Double → Double → Double := lift (· / ·)

def floor (d : Double) : Double :=
  if d.isNaN then d.quiet else ofFloat d.toFloat.floor

def neg (d : Double) : Double := ⟨d.bits ^^^ 0x8000000000000000⟩

def one : Double := ⟨0x3FF0000000000000⟩

def isSignalling (d : Double) : Bool := d.isNaN && d.quiet != d

def isOdd (d : Double) : Bool :=
  d.isFinite && !d.hasFraction && d.truncate.natAbs % 2 == 1

/-- A power in which one operand makes the other irrelevant: one, unless the other signals. -/
def oneUnless (other : Double) : Double :=
  if other.isSignalling then other.quiet else one

/-- Powers. The zeroth power of anything and any power of one are one. Otherwise the first NaN among
the operands is the result; as a base it is multiplied, so that an odd power takes the minus sign
off it. -/
def pow (a b : Double) : Double :=
  if b.isZero then oneUnless a
  else if a = one then oneUnless b
  else if a.isNaN then
    if a.isNegative && b.isOdd then a.quiet.neg else a.quiet
  else if b.isNaN then b.quiet
  else ofFloat (Float.pow a.toFloat b.toFloat)

def ofInt64 (n : Int64) : Double := ofFloat n.toFloat

def ofNat (n : Nat) : Double := ofFloat (UInt64.ofNat n).toFloat

/-- The number nearest to an integer whose absolute value is a size. -/
def ofInt (n : Int) : Double := ofFloat (if n < 0 then -(UInt64.ofNat n.natAbs).toFloat
  else (UInt64.ofNat n.natAbs).toFloat)

/-- The pattern of `± n · 2^scale` for an `n` that needs at most 53 bits at or above `2^-1074`. -/
def ofScaled (negative : Bool) (n : Nat) (scale : Int) : Double :=
  let magnitude : Nat :=
    if n = 0 then 0
    else
      -- the place of the leading bit fixes the exponent field
      let lead : Int := n.log2 + scale
      if lead < -1022 then n * Nat.pow 2 (scale + 1074).toNat
      else
        let shift : Int := 52 - n.log2
        let m := if 0 ≤ shift then n * Nat.pow 2 shift.toNat else n / Nat.pow 2 (-shift).toNat
        (lead + 1023).toNat * leadWeight + (m - leadWeight)
  ⟨UInt64.ofNat ((if negative then signWeight else 0) + magnitude)⟩

/-- The exact remainder of a division truncated towards zero; it has the sign of the dividend. -/
def remainder (a b : Double) : Double :=
  if a.isNaN then a.quiet
  else if b.isNaN then b.quiet
  else if a.isInfinite || b.isZero then undefined
  else if b.isInfinite then a
  else
    let scale := min a.exponent b.exponent
    let x := a.mantissa * Nat.pow 2 (a.exponent - scale).toNat
    let y := b.mantissa * Nat.pow 2 (b.exponent - scale).toNat
    ofScaled a.isNegative (x % y) scale

/-- The remainder moved to the side of the divisor: its sign is the divisor's. -/
def floorMod (a b : Double) : Double :=
  let r := a.remainder b
  if !r.isNaN && !r.isZero && !b.isNaN && r.isNegative != b.isNegative then r.add b else r

end Double

end DynamicObjects
