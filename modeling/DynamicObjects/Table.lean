import DynamicObjects.HashCode
import Std.Data.TreeMap

/-!
Insertion-ordered hash tables. Entries stand in an array in the order of their insertion; removal
leaves a hole, and holes at the end are dropped at once. A separate index finds the positions of a
hash code. Before an insertion the holes are squeezed out when they outnumber the entries, which is
the only time, apart from clearing, that an entry moves; `layout` counts these events. The table
never compares keys: callers do, among the candidates of a hash code.
-/
namespace DynamicObjects

structure Entry (κ ν : Type) where
  hash : HashCode
  key : κ
  value : ν

/-- The positions of the entries under each hash code, in ascending order. -/
abbrev PositionIndex := Std.TreeMap HashCode (List Nat)

namespace PositionIndex

def positions (index : PositionIndex) (hash : HashCode) : List Nat := index.getD hash []

def add (index : PositionIndex) (hash : HashCode) (position : Nat) : PositionIndex :=
  index.insert hash (index.positions hash ++ [position])

def drop (index : PositionIndex) (hash : HashCode) (position : Nat) : PositionIndex :=
  index.insert hash ((index.positions hash).erase position)

end PositionIndex

structure Table (κ ν : Type) where
  index : PositionIndex
  entries : Array (Option (Entry κ ν))
  live : Nat
  /-- Counts how often entries moved. Fewer than `2^64` times are assumed, so the count never wraps. -/
  layout : Nat

namespace Table

variable {κ ν : Type}

def empty : Table κ ν := ⟨∅, #[], 0, 0⟩

def size (t : Table κ ν) : Nat := t.live

def entry? (t : Table κ ν) (position : Nat) : Option (Entry κ ν) :=
  (t.entries[position]?).join

def toList (t : Table κ ν) : List (Entry κ ν) := t.entries.toList.filterMap id

def keys (t : Table κ ν) : List κ := t.toList.map Entry.key

def values (t : Table κ ν) : List ν := t.toList.map Entry.value

def pairs (t : Table κ ν) : List (κ × ν) := t.toList.map fun e => (e.key, e.value)

def hashes (t : Table κ ν) : List HashCode := t.toList.map Entry.hash

def nextAmong (t : Table κ ν) (position : Nat) : Nat → Option (Nat × Entry κ ν)
  | 0 => none
  | count + 1 =>
    match t.entry? position with
    | some e => some (position, e)
    | none => t.nextAmong (position + 1) count

def nextFrom (t : Table κ ν) (position : Nat) : Option (Nat × Entry κ ν) :=
  t.nextAmong position (t.entries.size - position)

def lastBelow (t : Table κ ν) : Nat → Option (Nat × Entry κ ν)
  | 0 => none
  | position + 1 =>
    match t.entry? position with
    | some e => some (position, e)
    | none => t.lastBelow position

def last? (t : Table κ ν) : Option (Nat × Entry κ ν) := t.lastBelow t.entries.size

/-- Positions and keys of the entries under a hash code, among the positions that a search came upon. -/
def candidatesAmong (t : Table κ ν) (found : List Nat) (hash : HashCode) : List (Nat × κ) :=
  found.filterMap fun position =>
    ((t.entry? position).filter (·.hash == hash)).map fun e => (position, e.key)

/-- The first of these positions with an entry under the hash code whose key passes a test. -/
def findAmong? (t : Table κ ν) (found : List Nat) (hash : HashCode) (test : κ → Bool) : Option Nat :=
  found.find? fun position => (t.entry? position).any fun e => e.hash == hash && test e.key

def candidates (t : Table κ ν) (hash : HashCode) : List (Nat × κ) :=
  t.candidatesAmong (t.index.positions hash) hash

def find? (t : Table κ ν) (hash : HashCode) (test : κ → Bool) : Option Nat :=
  t.findAmong? (t.index.positions hash) hash test

def indexFrom (index : PositionIndex) (position : Nat) :
    List (Option (Entry κ ν)) → PositionIndex
  | [] => index
  | none :: rest => indexFrom index (position + 1) rest
  | some e :: rest => indexFrom (index.add e.hash position) (position + 1) rest

def compact (t : Table κ ν) : Table κ ν :=
  let entries := t.entries.filter (·.isSome)
  { t with entries, layout := t.layout + 1, index := indexFrom ∅ 0 entries.toList }

def needsCompaction (t : Table κ ν) : Bool :=
  8 ≤ t.entries.size && t.live < t.entries.size - t.live

def insertNew (t : Table κ ν) (hash : HashCode) (key : κ) (value : ν) : Table κ ν :=
  let t := if t.needsCompaction then t.compact else t
  { t with
    index := t.index.add hash t.entries.size
    entries := t.entries.push (some ⟨hash, key, value⟩)
    live := t.live + 1 }

def setValue (t : Table κ ν) (position : Nat) (value : ν) : Table κ ν :=
  match t.entry? position with
  | none => t
  | some e => { t with entries := t.entries.setIfInBounds position (some { e with value }) }

def remove (t : Table κ ν) (position : Nat) : Table κ ν :=
  match t.entry? position with
  | none => t
  | some e => { t with
      index := t.index.drop e.hash position
      entries := (t.entries.setIfInBounds position none).popWhile (·.isNone)
      live := t.live - 1 }

def clear (t : Table κ ν) : Table κ ν :=
  ⟨∅, #[], 0, if t.entries.isEmpty then t.layout else t.layout + 1⟩

theorem toList_empty : (empty : Table κ ν).toList = [] := rfl

theorem toList_clear (t : Table κ ν) : t.clear.toList = [] := rfl

theorem toList_compact (t : Table κ ν) : t.compact.toList = t.toList := by
  simp only [compact, toList, Array.toList_filter]
  induction t.entries.toList with
  | nil => rfl
  | cons slot rest ih =>
    cases slot with
    | none => exact ih
    | some entry => exact congrArg (entry :: ·) ih

theorem toList_insertNew (t : Table κ ν) (hash : HashCode) (key : κ) (value : ν) :
    (t.insertNew hash key value).toList = t.toList ++ [⟨hash, key, value⟩] := by
  have compacted : (if t.needsCompaction then t.compact else t).toList = t.toList := by
    split
    · exact toList_compact t
    · rfl
  rw [← compacted]
  simp [insertNew, toList]

end Table

end DynamicObjects
