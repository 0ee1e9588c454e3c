import DynamicObjects.Bytes.Basic

/-!
Searching in a window of a byte string. Positions are positions in the whole string, and a window
whose ends are crossed or outside matches nothing, not even the empty needle.
-/
namespace DynamicObjects.Bytes

def findIn (needle : Bytes) : Bytes → Option Nat
  | [] => if needle.isEmpty then some 0 else none
  | b :: rest =>
    if needle.isPrefixOf (b :: rest) then some 0 else (findIn needle rest).map (· + 1)

def rfindIn (needle : Bytes) : Bytes → Option Nat
  | [] => if needle.isEmpty then some 0 else none
  | b :: rest =>
    match rfindIn needle rest with
    | some i => some (i + 1)
    | none => if needle.isPrefixOf (b :: rest) then some 0 else none

def countFrom (needle : Bytes) : Nat → Bytes → Nat
  | _, [] => 0
  | skip + 1, _ :: rest => countFrom needle skip rest
  | 0, b :: rest =>
    if needle.isPrefixOf (b :: rest) then countFrom needle (needle.length - 1) rest + 1
    else countFrom needle 0 rest

def countIn (needle hay : Bytes) : Nat :=
  if needle.isEmpty then hay.length + 1 else countFrom needle 0 hay

def validWindow (data : Bytes) (lo hi : Nat) : Bool := lo ≤ hi && hi ≤ data.length

def find (data needle : Bytes) (lo hi : Nat) : Option Nat :=
  if validWindow data lo hi then (findIn needle (data.window lo hi)).map (lo + ·) else none

def rfind (data needle : Bytes) (lo hi : Nat) : Option Nat :=
  if validWindow data lo hi then (rfindIn needle (data.window lo hi)).map (lo + ·) else none

def count (data needle : Bytes) (lo hi : Nat) : Nat :=
  if validWindow data lo hi then countIn needle (data.window lo hi) else 0

def startsWith (data affix : Bytes) (lo hi : Nat) : Bool :=
  validWindow data lo hi && affix.isPrefixOf (data.window lo hi)

def endsWith (data affix : Bytes) (lo hi : Nat) : Bool :=
  validWindow data lo hi && affix.isSuffixOf (data.window lo hi)

end DynamicObjects.Bytes
