import DynamicObjects.Arguments
import DynamicObjects.Codec
import DynamicObjects.Bytes.Search
import DynamicObjects.Bytes.Split
import DynamicObjects.Bytes.Shape
import DynamicObjects.Bytes.LetterCase
import DynamicObjects.Bytes.Hex

/-!
Byte strings and byte arrays. Both have the same methods for reading; a method gives a result of the
receiver's own kind.
-/
namespace DynamicObjects

inductive ByteSequence
  | string
  | array
  deriving DecidableEq

namespace ByteSequence

def kind : ByteSequence → Kind
  | string => .bytes
  | array => .byteArray

def make : ByteSequence → Bytes → Run Value
  | string, data => Run.newBytes data
  | array, data => Run.newByteArrayOf data

def byteOf (v : Value) : Except Error UInt8 := do
  let n := (← v.asIndex).toInt
  if 0 ≤ n ∧ n < 256 then .ok (UInt8.ofNat n.toNat) else .error .byteRange

def bytesLike? (v : Value) : Run (Option Bytes) := Run.readStore (·.bytesLike? v)

def expectBytesLike (v : Value) : Run Bytes := do
  match ← bytesLike? v with
  | some data => return data
  | none => Run.raise (.bytesLikeRequired v.kind.name)

/-- The bytes that a value is a source of: its own, so many zeros, or those of an iterable. -/
def bytesFrom (h : Hooks) (source : Value) : Run Bytes := do
  match ← bytesLike? source with
  | some data => return data
  | none =>
    match source with
    | .int n =>
      if n.toInt < 0 then Run.raise .negativeCount
      else return List.replicate n.toInt.toNat 0
    | .str .. => Run.raise .textWithoutEncoding
    | other =>
      let it ← Protocol.openIterator h other
      return (← Protocol.fold h (fun acc v => return (← byteOf v) :: acc) [] it).reverse

def receive (q : ByteSequence) (args : List Value) : Except Error (Value × List Value) := do
  let (v, rest) ← Arguments.split args
  if v.kind = q.kind then .ok (v, rest)
  else .error (.internal s!"{q.kind.name} slot called on {v.kind.name}")

def bytesNow (v : Value) : Run Bytes := return (← bytesLike? v).getD []

def slot (q : ByteSequence) (body : Bytes → List Value → Run Value) (args : List Value) :
    Run Value := do
  let (v, rest) ← q.receive args
  body (← bytesNow v) rest

/-- A window clamped to the bytes. A start beyond the end leaves no window at all, so that not even
the empty string is found there. -/
def searchRange (start stop : Option Int) (len : Nat) : Nat × Nat :=
  let (lo, hi) := Index.adjustRange start stop len
  match start with
  | some s => if (len : Int) < s then (len + 1, hi) else (lo, hi)
  | none => (lo, hi)

/-- What is searched for: bytes, or an integer that stands for one byte. -/
def needleOf (v : Value) : Run Bytes := do
  match ← bytesLike? v with
  | some data => return data
  | none => return [← byteOf v]

def searchArguments (data : Bytes) (name : String) (args : List Value) :
    Run (Bytes × Nat × Nat) := do
  let (sub, start, stop) ← Arguments.oneToThree name args
  let needle ← needleOf sub
  let start ← Arguments.optionalIndex start
  let stop ← Arguments.optionalIndex stop
  return (needle, searchRange start stop data.length)

def widthArguments (name : String) (args : List Value) : Run (Int × UInt8) := do
  let (width, fill) ← Arguments.oneOrTwo name args
  let fill ←
    match fill with
    | none => pure 32
    | some v =>
      match ← bytesLike? v with
      | some [b] => pure b
      | _ => Run.raise (.fillByte name)
  return ((← width.asIndex).toInt, fill)

/-- The bytes to strip, where `None` and nothing stand for blanks. -/
def stripArguments (name : String) (args : List Value) : Run (Option Bytes) := do
  match ← Arguments.atMostOne name args with
  | none | some .none => return none
  | some chars => return some (← expectBytesLike chars)

def splitArguments (name : String) (args : List Value) : Run (Option Bytes × Int) := do
  let (sep, most) ← Arguments.atMostTwo name args
  let sep ←
    match sep with
    | none | some .none => pure none
    | some v => do pure (some (← expectBytesLike v))
  return (sep, (← Arguments.optionalIndex most).getD (-1))

def position : Option Nat → Value
  | some i => .ofNat i
  | none => .int (-1)

def listOf (q : ByteSequence) (parts : List Bytes) : Run Value := do
  Run.newListOf (← parts.mapM q.make)

def tupleOf (q : ByteSequence) (parts : Bytes × Bytes × Bytes) : Run Value := do
  let (before, sep, after) := parts
  Run.newTuple (← [before, sep, after].mapM q.make)

end ByteSequence

end DynamicObjects
