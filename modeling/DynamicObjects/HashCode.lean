import DynamicObjects.Double

/-!
Hash codes of scalars and the mixing of element codes. Numbers are reduced modulo the Mersenne prime
`2^61 - 1`, so that equal integers and floats have equal codes; bytes and text share one keyed hash
over their bytes; a tuple depends on the order of its elements and a set does not. The code -1 is
reserved and becomes -2.
-/
namespace DynamicObjects

abbrev HashCode := UInt64

namespace HashCode

def signed (h : HashCode) : Int := h.toInt64.toInt

def ofSigned (n : Int) : HashCode :=
  (Int64.ofInt (if n = -1 then -2 else n)).toUInt64

def modulus : Nat := 2305843009213693951

def ofInt (n : Int64) : HashCode :=
  let remainder : Int := n.toInt.natAbs % modulus
  ofSigned (if n.toInt < 0 then -remainder else remainder)

/-- Turns a 61-bit number to the left, which multiplies it by a power of two modulo `modulus`. -/
def turn (acc shift : Nat) : Nat :=
  acc * Nat.pow 2 shift % Nat.pow 2 61 + acc / Nat.pow 2 (61 - shift)

/-- Adds the bits of a fraction of 53 places to the code, 28 at a time and from the top, until no
bit is left; two steps always suffice. -/
def foldFraction (acc : Nat) (fraction : Nat) (exponent : Int) : Nat → Nat × Int
  | 0 => (acc, exponent)
  | fuel + 1 =>
    if fraction = 0 then (acc, exponent)
    else
      let chunk := fraction * Nat.pow 2 28 / Nat.pow 2 53
      let sum := turn acc 28 + chunk
      let reduced := if modulus ≤ sum then sum - modulus else sum
      foldFraction reduced (fraction * Nat.pow 2 28 % Nat.pow 2 53) (exponent - 28) fuel

def infinityCode : Int := 314159

/-- The code of a number that is no 64-bit integer: its fraction is folded and then turned by the
exponent. -/
def ofFraction (d : Double) : HashCode :=
  -- the fraction scaled to 53 places, and the exponent that goes with it
  let shift := 52 - d.mantissa.log2
  let (acc, exponent) := foldFraction 0 (d.mantissa * Nat.pow 2 shift) (d.exponent - shift + 53) 2
  ofSigned (d.signed (turn acc (exponent % 61).toNat))

def ofDouble (d : Double) : HashCode :=
  if d.isInfinite then ofSigned (if d.isNegative then -infinityCode else infinityCode)
  else if d.isNaN then 0
  else if !d.hasFraction && Double.minusTwoPow63.orderKey ≤ d.orderKey
      && d.orderKey < Double.twoPow63.orderKey then
    ofInt (Int64.ofInt d.truncate)
  else ofFraction d

/-- The four words of the keyed hash, with the key zero. -/
structure Sip where
  a : UInt64
  b : UInt64
  c : UInt64
  d : UInt64

def rotate (x : UInt64) (n : UInt64) : UInt64 :=
  (x <<< n) ||| (x >>> (64 - n))

namespace Sip

def start : Sip :=
  ⟨0x736f6d6570736575, 0x646f72616e646f6d, 0x6c7967656e657261, 0x7465646279746573⟩

def round (s : Sip) : Sip :=
  let a := s.a + s.b
  let b := rotate s.b 13 ^^^ a
  let a := rotate a 32
  let c := s.c + s.d
  let d := rotate s.d 16 ^^^ c
  let a := a + d
  let d := rotate d 21 ^^^ a
  let c := c + b
  let b := rotate b 17 ^^^ c
  let c := rotate c 32
  ⟨a, b, c, d⟩

def absorb (s : Sip) (word : UInt64) : Sip :=
  let mixed := { s with d := s.d ^^^ word }.round
  { mixed with a := mixed.a ^^^ word }

def finish (s : Sip) : UInt64 :=
  let s := { s with c := s.c ^^^ 0xff }.round.round.round
  s.a ^^^ s.b ^^^ s.c ^^^ s.d

end Sip

def littleEndian : List UInt8 → UInt64
  | [] => 0
  | byte :: rest => byte.toUInt64 ||| (littleEndian rest <<< 8)

/-- Absorbs whole words; the last one holds what is left and, in its top byte, the length. -/
def sipWords (length : UInt64) (s : Sip) : List UInt8 → Sip
  | b0 :: b1 :: b2 :: b3 :: b4 :: b5 :: b6 :: b7 :: rest =>
    sipWords length (s.absorb (littleEndian [b0, b1, b2, b3, b4, b5, b6, b7])) rest
  | tail => s.absorb ((length <<< 56) ||| littleEndian tail)

def ofBytes (bytes : List UInt8) : HashCode :=
  if bytes.isEmpty then 0
  else ofSigned (signed (sipWords (UInt64.ofNat bytes.length) Sip.start bytes).finish)

def ofText (text : String) : HashCode :=
  ofBytes text.toUTF8.toList

def tuplePrime1 : UInt64 := 11400714785074694791

def tuplePrime2 : UInt64 := 14029467366897019727

def tuplePrime5 : UInt64 := 2870177450012600261

def tupleStep (acc element : UInt64) : UInt64 :=
  rotate (acc + element * tuplePrime2) 31 * tuplePrime1

def ofTuple (elements : List HashCode) : HashCode :=
  let acc := elements.foldl tupleStep tuplePrime5
    + (UInt64.ofNat elements.length ^^^ (tuplePrime5 ^^^ (3527539 : UInt64)))
  if acc = 0xFFFFFFFFFFFFFFFF then 1546275796 else acc

def shuffle (h : UInt64) : UInt64 :=
  ((h ^^^ (89869747 : UInt64)) ^^^ (h <<< (16 : UInt64))) * 3644798167

def ofSet (elements : List HashCode) : HashCode :=
  let mixed := elements.foldl (fun acc h => acc ^^^ shuffle h) (0 : UInt64)
  let mixed := mixed ^^^ ((UInt64.ofNat elements.length + 1) * 1927868237)
  let mixed := mixed ^^^ ((mixed >>> 11) ^^^ (mixed >>> 25))
  let mixed := mixed * 69069 + 907133923
  if mixed = 0xFFFFFFFFFFFFFFFF then 590923713 else mixed

end HashCode

end DynamicObjects
