import DynamicObjects.Bytes.Basic

/-!
Reading UTF-8. Only shortest forms of characters are taken. A reading fails at the first byte of the
first sequence that is no character; the fault says whether the sequence is wrong or merely cut off
by the end of the data.
-/
namespace DynamicObjects.Utf8

structure Fault where
  position : Nat
  cutOff : Bool
  deriving DecidableEq

def encode (text : String) : Bytes := text.toUTF8.toList

def isContinuation (b : UInt8) : Bool := 0x80 ≤ b && b ≤ 0xBF

/-- The second bytes that may follow a first byte of a sequence of three. -/
def isSecondOfThree (b0 b1 : UInt8) : Bool :=
  if b0 = 0xE0 then 0xA0 ≤ b1 && b1 ≤ 0xBF
  else if b0 = 0xED then 0x80 ≤ b1 && b1 ≤ 0x9F
  else isContinuation b1

/-- The second bytes that may follow a first byte of a sequence of four. -/
def isSecondOfFour (b0 b1 : UInt8) : Bool :=
  if b0 = 0xF0 then 0x90 ≤ b1 && b1 ≤ 0xBF
  else if b0 = 0xF4 then 0x80 ≤ b1 && b1 ≤ 0x8F
  else isContinuation b1

def low6 (b : UInt8) : Nat := b.toNat % 64

/-- Puts a character in front of what the rest reads as. -/
def put (code : Nat) (rest : Except Fault (List Char)) : Except Fault (List Char) :=
  rest.map (Char.ofNat code :: ·)

def decodeFrom (position : Nat) : Bytes → Except Fault (List Char)
  | [] => .ok []
  | b0 :: rest =>
    let wrong : Except Fault (List Char) := .error ⟨position, false⟩
    let short : Except Fault (List Char) := .error ⟨position, true⟩
    if b0 < 0x80 then put b0.toNat (decodeFrom (position + 1) rest)
    else if 0xC2 ≤ b0 ∧ b0 ≤ 0xDF then
      match rest with
      | [] => short
      | b1 :: rest =>
        if isContinuation b1 then
          put (b0.toNat % 32 * 64 + low6 b1) (decodeFrom (position + 2) rest)
        else wrong
    else if 0xE0 ≤ b0 ∧ b0 ≤ 0xEF then
      match rest with
      | [] => short
      | [b1] => if isSecondOfThree b0 b1 then short else wrong
      | b1 :: b2 :: rest =>
        if isSecondOfThree b0 b1 && isContinuation b2 then
          put ((b0.toNat % 16 * 64 + low6 b1) * 64 + low6 b2) (decodeFrom (position + 3) rest)
        else wrong
    else if 0xF0 ≤ b0 ∧ b0 ≤ 0xF4 then
      match rest with
      | [] => short
      | [b1] => if isSecondOfFour b0 b1 then short else wrong
      | [b1, b2] => if isSecondOfFour b0 b1 && isContinuation b2 then short else wrong
      | b1 :: b2 :: b3 :: rest =>
        if isSecondOfFour b0 b1 && isContinuation b2 && isContinuation b3 then
          put (((b0.toNat % 8 * 64 + low6 b1) * 64 + low6 b2) * 64 + low6 b3)
            (decodeFrom (position + 4) rest)
        else wrong
    else wrong

def decode (data : Bytes) : Except Fault String := (decodeFrom 0 data).map String.ofList

end DynamicObjects.Utf8
