import DynamicObjects.Bytes.Search
import DynamicObjects.Error

/-!
Cutting byte strings into parts: at a separator, at runs of blanks, at line ends, and in three at one
separator. Cuts are made from the left or from the right, and at most as often as asked.
-/
namespace DynamicObjects.Bytes

def trimLeft (p : UInt8 → Bool) (data : Bytes) : Bytes := data.dropWhile p

def trimRight (p : UInt8 → Bool) (data : Bytes) : Bytes := (data.reverse.dropWhile p).reverse

/-- The bytes that stripping removes: blanks, or the members of a given string. -/
def stripped (chars : Option Bytes) (b : UInt8) : Bool :=
  match chars with
  | none => isBlank b
  | some set => set.contains b

def lstrip (data : Bytes) (chars : Option Bytes) : Bytes := trimLeft (stripped chars) data

def rstrip (data : Bytes) (chars : Option Bytes) : Bytes := trimRight (stripped chars) data

def strip (data : Bytes) (chars : Option Bytes) : Bytes := rstrip (lstrip data chars) chars

def cutLeft (sep : Bytes) : Nat → Bytes → List Bytes
  | 0, data => [data]
  | most + 1, data =>
    match findIn sep data with
    | none => [data]
    | some i => data.take i :: cutLeft sep most (data.drop (i + sep.length))

/-- Cuts at the last separators, from the right; the last part comes first. Read backwards, these
are the first separators. -/
def cutRight (sep : Bytes) (most : Nat) (data : Bytes) : List Bytes :=
  (cutLeft sep.reverse most data.reverse).map List.reverse

/-- The first runs of other bytes, and then what follows them with its blanks. -/
def runsLeft : Nat → Bytes → List Bytes
  | most, data =>
    let rest := trimLeft isBlank data
    if rest.isEmpty then []
    else
      match most with
      | 0 => [rest]
      | most + 1 =>
        rest.takeWhile (!isBlank ·) :: runsLeft most (rest.dropWhile (!isBlank ·))

/-- The last runs of other bytes, the last one first, and then what precedes them. -/
def runsRight (most : Nat) (data : Bytes) : List Bytes :=
  (runsLeft most data.reverse).map List.reverse

def split (data : Bytes) (sep : Option Bytes) (most : Int) : Except Error (List Bytes) :=
  match sep with
  | none => .ok (runsLeft (limit most data.length) data)
  | some sep =>
    if sep.isEmpty then .error .emptySeparator
    else .ok (cutLeft sep (limit most data.length) data)

def rsplit (data : Bytes) (sep : Option Bytes) (most : Int) : Except Error (List Bytes) :=
  match sep with
  | none => .ok (runsRight (limit most data.length) data).reverse
  | some sep =>
    if sep.isEmpty then .error .emptySeparator
    else .ok (cutRight sep (limit most data.length) data).reverse

def finishedLine (keepEnds : Bool) (line ending : Bytes) : Bytes :=
  line.reverse ++ (if keepEnds then ending else [])

/-- Collects a line backwards; carriage return and line feed end it together. -/
def linesFrom (keepEnds : Bool) (line : Bytes) : Bytes → List Bytes
  | [] => if line.isEmpty then [] else [line.reverse]
  | 13 :: 10 :: rest => finishedLine keepEnds line [13, 10] :: linesFrom keepEnds [] rest
  | b :: rest =>
    if b == 10 || b == 13 then finishedLine keepEnds line [b] :: linesFrom keepEnds [] rest
    else linesFrom keepEnds (b :: line) rest

def splitLines (data : Bytes) (keepEnds : Bool) : List Bytes := linesFrom keepEnds [] data

def partition (data sep : Bytes) : Except Error (Bytes × Bytes × Bytes) :=
  if sep.isEmpty then .error .emptySeparator
  else
    match findIn sep data with
    | some i => .ok (data.take i, sep, data.drop (i + sep.length))
    | none => .ok (data, [], [])

def rpartition (data sep : Bytes) : Except Error (Bytes × Bytes × Bytes) :=
  if sep.isEmpty then .error .emptySeparator
  else
    match rfindIn sep data with
    | some i => .ok (data.take i, sep, data.drop (i + sep.length))
    | none => .ok ([], [], data)

def join (sep : Bytes) (parts : List Bytes) : Bytes := List.intercalate sep parts

def interleave (new : Bytes) : Nat → Bytes → Bytes
  | 0, data => data
  | _ + 1, [] => new
  | most + 1, b :: rest => new ++ b :: interleave new most rest

def replaceFrom (old new : Bytes) : Nat → Bytes → Bytes
  | 0, data => data
  | most + 1, data =>
    match findIn old data with
    | none => data
    | some i => data.take i ++ new ++ replaceFrom old new most (data.drop (i + old.length))

def replace (data old new : Bytes) (most : Int) : Bytes :=
  let most := limit most data.length
  if old.isEmpty then interleave new most data else replaceFrom old new most data

end DynamicObjects.Bytes
