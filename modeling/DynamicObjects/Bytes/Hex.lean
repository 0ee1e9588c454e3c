import DynamicObjects.Bytes.Basic
import DynamicObjects.Error
import DynamicObjects.Text.Blank

/-!
Hexadecimal text. A byte is two lower-case digits; reading takes digits of either case, two by two,
with blanks around pairs but not inside them.
-/
namespace DynamicObjects.Bytes

def hexDigit (n : Nat) : Char :=
  if n < 10 then Char.ofNat (48 + n) else Char.ofNat (87 + n)

def hexPair (b : UInt8) : List Char := [hexDigit (b.toNat / 16), hexDigit (b.toNat % 16)]

def hexChars (sep : List Char) : Bytes → List Char
  | [] => []
  | [b] => hexPair b
  | b :: rest => hexPair b ++ sep ++ hexChars sep rest

def toHex (data : Bytes) (sep : String) : String := String.ofList (hexChars sep.toList data)

def hexValue? (c : Char) : Option Nat :=
  let n := c.toNat
  if 48 ≤ n ∧ n ≤ 57 then some (n - 48)
  else if 97 ≤ n ∧ n ≤ 102 then some (n - 87)
  else if 65 ≤ n ∧ n ≤ 70 then some (n - 55)
  else none

/-- Reads pairs of digits; `position` counts characters and is named by an error. -/
def ofHexChars (position : Nat) : List Char → Except Error Bytes
  | [] => .ok []
  | high :: rest =>
    if Text.isBlank high then ofHexChars (position + 1) rest
    else
      match hexValue? high, rest with
      | none, _ => .error (.hexDigitAt position)
      | some _, [] => .error .hexOddDigits
      | some h, low :: rest =>
        match hexValue? low with
        | none => .error (.hexDigitAt (position + 1))
        | some l => (ofHexChars (position + 2) rest).map (UInt8.ofNat (16 * h + l) :: ·)

def ofHex (text : String) : Except Error Bytes := ofHexChars 0 text.toList

end DynamicObjects.Bytes
