import DynamicObjects.Double

/-!
The shortest decimal of a binary number: the fewest digits that read back as the same number, and of
those the ones nearest to it. A number is compared with its two neighbours on the decimal grids of
one digit, two digits and so on; all comparisons are between natural numbers.
-/
namespace DynamicObjects.Double

/-- `digits · 10^exponent`, with no trailing zero unless the number is zero. -/
structure Decimal where
  digits : Nat
  exponent : Int
  deriving DecidableEq

/-- The numbers that round to a given one, as multiples of a common unit `numerator / denominator`.
The ends belong to it when the mantissa is even. -/
structure Interval where
  low : Nat
  value : Nat
  high : Nat
  numerator : Nat
  denominator : Nat
  closed : Bool

/-- Units are quarters of the last place; below a power of two the neighbour is half as far. -/
def interval (d : Double) : Interval :=
  let m := d.mantissa
  let scale := d.exponent - 2
  let gap := if d.fraction = 0 ∧ 1 < d.exponentField then 1 else 2
  { low := 4 * m - gap
    value := 4 * m
    high := 4 * m + 2
    numerator := if 0 ≤ scale then Nat.pow 2 scale.toNat else 1
    denominator := if scale < 0 then Nat.pow 2 (-scale).toNat else 1
    closed := m % 2 == 0 }

def Interval.contains (i : Interval) (n : Nat) (e : Int) : Bool :=
  let x := n * (if 0 ≤ e then Nat.pow 10 e.toNat else 1) * i.denominator
  let unit := i.numerator * (if e < 0 then Nat.pow 10 (-e).toNat else 1)
  let low := i.low * unit
  let high := i.high * unit
  if i.closed then low ≤ x && x ≤ high else low < x && x < high

def Interval.divide (i : Interval) (e : Int) : Nat × Nat × Nat :=
  let x := i.value * i.numerator * (if e < 0 then Nat.pow 10 (-e).toNat else 1)
  let unit := i.denominator * (if 0 ≤ e then Nat.pow 10 e.toNat else 1)
  (x / unit, x % unit, unit)

/-- The best of the two neighbours on the grid of `10^e`; a tie goes up. -/
def Interval.candidate? (i : Interval) (e : Int) : Option Nat :=
  let (below, rest, unit) := i.divide e
  let down := i.contains below e
  let up := i.contains (below + 1) e
  if up && (!down || unit ≤ 2 * rest) then some (below + 1)
  else if down then some below
  else none

def digitCount (n : Nat) : Nat := (Nat.toDigits 10 n).length

def leadingZeros (num den : Nat) : Nat → Nat
  | 0 => 0
  | fuel + 1 => if den ≤ num then 0 else leadingZeros (num * 10) den fuel + 1

def Interval.magnitude (i : Interval) : Int :=
  let (whole, rest, den) := i.divide 0
  if 0 < whole then digitCount whole else 1 - (leadingZeros rest den 400 : Int)

def stripZeros (n : Nat) (e : Int) : Nat → Decimal
  | 0 => ⟨n, e⟩
  | fuel + 1 => if n % 10 = 0 ∧ n ≠ 0 then stripZeros (n / 10) (e + 1) fuel else ⟨n, e⟩

/-- The first grid with a neighbour in the interval; seventeen digits always have one. -/
def Interval.search (i : Interval) (top : Int) : List Nat → Decimal
  | [] => ⟨0, 0⟩
  | n :: rest =>
    match i.candidate? (top - n) with
    | some digits => stripZeros digits (top - n) 20
    | none => i.search top rest

def shortest (d : Double) : Decimal :=
  if d.isZero then ⟨0, 0⟩
  else d.interval.search d.interval.magnitude ((List.range 17).map (· + 1))

end DynamicObjects.Double
