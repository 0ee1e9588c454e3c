import DynamicObjects.Double.Shortest

/-!
Numbers as text. All forms write the shortest digits; they differ in where the point goes, in
whether a whole number keeps a `.0`, and in whether an exponent is ever written.
-/
namespace DynamicObjects.Double

def zeros (n : Nat) : String := "".pushn '0' n

def Decimal.positional (x : Decimal) (places : Nat) : String :=
  let digits := toString x.digits
  if 0 ≤ x.exponent then
    let whole := if x.digits = 0 then "0" else digits ++ zeros x.exponent.toNat
    if places = 0 then whole else whole ++ "." ++ zeros places
  else
    let behind := (-x.exponent).toNat
    let padded := zeros (behind + 1 - digits.length) ++ digits
    let front := padded.length - behind
    (padded.take front).toString ++ "." ++ (padded.drop front).toString

def Decimal.scientific (x : Decimal) : String :=
  let digits := toString x.digits
  let exponent := x.exponent + (digits.length - 1 : Nat)
  let head := (digits.take 1).toString
  let tail := (digits.drop 1).toString
  let point := if tail.isEmpty then "" else "."
  s!"{head}{point}{tail}e{exponent}"

def signText (d : Double) : String := if d.isNegative then "-" else ""

/-- The text of a number that is not finite; `nan` is the spelling of a NaN. -/
def special? (d : Double) (nan : String) : Option String :=
  if d.isNaN then some nan
  else if d.isInfinite then some (d.signText ++ "inf")
  else none

def wholeLimit : Nat := 10000000000000000

/-- Whole numbers below `wholeLimit` end in `.0`; no number has an exponent. -/
def describe (d : Double) : String :=
  match d.special? "nan" with
  | some text => text
  | none =>
    let whole := !d.hasFraction && d.truncate.natAbs < wholeLimit
    d.signText ++ d.shortest.positional (if whole then 1 else 0)

/-- Numbers below 10^-4 and from 10^16 on have an exponent, and all others a point. -/
def debugText (d : Double) : String :=
  match d.special? "NaN" with
  | some text => text
  | none =>
    let x := d.shortest
    -- the power of ten just above the number
    let top := x.exponent + (toString x.digits).length
    if !d.isZero && (top ≤ -4 || 17 ≤ top) then d.signText ++ x.scientific
    else d.signText ++ x.positional 1

end DynamicObjects.Double
