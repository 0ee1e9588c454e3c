/-!
Byte strings and the classes of their bytes. A byte is a letter, a digit or a blank by its ASCII
meaning; bytes from 128 on are in no class.
-/
namespace DynamicObjects

abbrev Bytes := List UInt8

namespace Bytes

def isBlank (b : UInt8) : Bool := b == 32 || (9 ≤ b && b ≤ 13)

def isUpperLetter (b : UInt8) : Bool := 65 ≤ b && b ≤ 90

def isLowerLetter (b : UInt8) : Bool := 97 ≤ b && b ≤ 122

def isLetter (b : UInt8) : Bool := isUpperLetter b || isLowerLetter b

def isDigit (b : UInt8) : Bool := 48 ≤ b && b ≤ 57

def toLower (b : UInt8) : UInt8 := if isUpperLetter b then b + 32 else b

def toUpper (b : UInt8) : UInt8 := if isLowerLetter b then b - 32 else b

def allBytes : List UInt8 := (List.range 256).map UInt8.ofNat

def order : Bytes → Bytes → Ordering
  | [], [] => .eq
  | [], _ :: _ => .lt
  | _ :: _, [] => .gt
  | a :: s, b :: t => (compare a.toNat b.toNat).then (order s t)

/-- How often something may be done at most, when `most` is the request and a negative request sets
no limit; nothing is ever done more than `len + 1` times in `len` bytes. -/
def limit (most : Int) (len : Nat) : Nat :=
  if most < 0 then len + 1 else min most.toNat (len + 1)

def window (data : Bytes) (lo hi : Nat) : Bytes := (data.drop lo).take (hi - lo)

end Bytes

end DynamicObjects
