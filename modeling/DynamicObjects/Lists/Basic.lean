import DynamicObjects.Protocol

/-!
Operations on lists. A list counts its changes; operations that let other code run look at the live
list again afterwards and never rely on what they saw before.
-/
namespace DynamicObjects.ListRef

def object (r : ListRef) : Run ListObject := Run.readStore (·.list r)

def buffer (r : ListRef) : Run (Buffer Value) := Run.readStore fun s => (s.list r).buffer

def size (r : ListRef) : Run Nat := Run.readStore fun s => (s.list r).buffer.size

def items (r : ListRef) : Run (List Value) := Run.readStore fun s => (s.list r).buffer.toList

def version (r : ListRef) : Run Nat := Run.readStore fun s => (s.list r).version

def write (r : ListRef) (buffer : Buffer Value) : Run Unit :=
  Run.modifyStore (·.modifyList r fun o => { o with buffer, version := o.version + 1 })

def update (r : ListRef) (f : Buffer Value → Buffer Value) : Run Unit :=
  Run.modifyStore (·.modifyList r fun o =>
    { o with buffer := f o.buffer, version := o.version + 1 })

/-- Tries to change the buffer; the attempt counts as a change even if it fails. -/
def tryUpdate (r : ListRef) (f : Buffer Value → Except Error (Buffer Value)) : Run Unit := do
  match f (← r.buffer) with
  | .ok buffer => r.write buffer
  | .error e =>
    r.update id
    Run.raise e

/-- A new list of the elements of an iterable. Lists and tuples know their number beforehand. -/
def ofIterable (h : Hooks) (iterable : Value) : Run Value :=
  match iterable with
  | .list _ | .tuple .. => do Run.newListOf (← Protocol.collect h iterable)
  | other => do Run.newList (Buffer.ofDrained (← Protocol.collect h other))

def item? (r : ListRef) (index : Int) : Run (Option Value) := do
  let items := (← r.buffer).items
  return (Index.normalize? index items.size).bind fun i => items[i]?

def get (r : ListRef) (index : Int) : Run Value := do
  match ← r.item? index with
  | some v => return v
  | none => Run.raise .listIndex

def set (r : ListRef) (index : Int) (v : Value) : Run Unit := do
  match Index.normalize? index (← r.size) with
  | some i => r.update fun b => { b with items := b.items.setIfInBounds i v }
  | none => Run.raise .listAssignmentIndex

def delete (r : ListRef) (index : Int) : Run Unit := do
  match Index.normalize? index (← r.size) with
  | some i => r.update (·.eraseAt i)
  | none => Run.raise .listAssignmentIndex

def getSlice (r : ListRef) (s : Slice) : Run Value := do
  let b ← r.buffer
  let p ← Run.ofExcept (s.indices b.size)
  Run.newList (b.copySlice p)

def setSlice (h : Hooks) (r : ListRef) (s : Slice) (iterable : Value) : Run Unit := do
  let values ← Protocol.collect h iterable
  let p ← Run.ofExcept (s.indices (← r.size))
  r.tryUpdate (·.assignSlice p values)

def deleteSlice (r : ListRef) (s : Slice) : Run Unit := do
  let p ← Run.ofExcept (s.indices (← r.size))
  r.update (·.deleteSlice p)

def append (r : ListRef) (v : Value) : Run Unit := r.update (·.push v)

def insert (r : ListRef) (index : Int) (v : Value) : Run Unit := do
  let i := Index.clampInsert index (← r.size)
  r.update (·.insertAt i v)

def extend (h : Hooks) (r : ListRef) (iterable : Value) : Run Unit := do
  let values ← Protocol.collect h iterable
  r.update (·.extend values)

def pop (r : ListRef) (index : Option Int) : Run Value := do
  let size ← r.size
  if size = 0 then Run.raise .popEmptyList
  else
    let index := index.getD (-1)
    match ← r.item? index with
    | some v =>
      r.delete index
      return v
    | none => Run.raise .popIndex

def clear (r : ListRef) : Run Unit := r.update Buffer.clear

def reverse (r : ListRef) : Run Unit := r.update Buffer.reverse

def trim (r : ListRef) : Run Unit :=
  Run.modifyStore (·.modifyList r fun o => { o with buffer := o.buffer.trim })

def copy (r : ListRef) : Run Value := do Run.newListOf (← r.items)

def repeatInPlace (r : ListRef) (count : Int) : Run Unit := r.tryUpdate (·.repeatInPlace count)

def repeated (r : ListRef) (count : Int) : Run Value := do
  Run.newList (← Run.ofExcept ((← r.buffer).repeated count))

def concat (r other : ListRef) : Run Value := do
  let left := (← r.buffer).items
  let right := (← other.buffer).items
  Run.newList (Buffer.concat left right)

/-- Looks at `count` places from `i` on for an equal item, as long as the list reaches so far. -/
def findFrom (h : Hooks) (r : ListRef) (v : Value) : Nat → Nat → Run (Option (Nat × Value))
  | 0, _ => return none
  | count + 1, i => do
    match (← r.buffer).items[i]? with
    | none => return none
    | some item =>
      if ← Protocol.equals h item v then return some (i, item)
      else findFrom h r v count (i + 1)

/-- The first equal item between two places of the list as it was when the search began. -/
def find (h : Hooks) (r : ListRef) (v : Value) (start : Nat) (stop : Option Nat) :
    Run (Option (Nat × Value)) := do
  let size ← r.size
  let stop := min (stop.getD size) size
  findFrom h r v (stop - start) start

def indexOf (h : Hooks) (r : ListRef) (v : Value) (start stop : Option Int) : Run Nat := do
  let (start, stop) := Index.adjustRange start stop (← r.size)
  match ← find h r v start (some stop) with
  | some (i, _) => return i
  | none => Run.raise .notInList

def contains (h : Hooks) (r : ListRef) (v : Value) : Run Bool :=
  return (← find h r v 0 none).isSome

def count (h : Hooks) (r : ListRef) (v : Value) : Run Nat :=
  Protocol.fold h (fun n item => return if ← Protocol.equals h item v then n + 1 else n) 0
    (.ofList r)

/-- Searches again as long as the place that was found has been given to another item. -/
def removeLoop (h : Hooks) (r : ListRef) (v : Value) : Nat → Run Unit
  | 0 => Run.outOfFuel
  | fuel + 1 => do
    match ← find h r v 0 none with
    | none => Run.raise .removeNotInList
    | some (i, found) =>
      let still := ((← r.buffer).items[i]?).any (·.isSame found)
      if still then r.update (·.eraseAt i) else removeLoop h r v fuel

def remove (h : Hooks) (r : ListRef) (v : Value) : Run Unit := removeLoop h r v h.fuel

def equals (h : Hooks) (r other : ListRef) : Run Bool := do
  if r = other then return true
  let left ← r.items
  let right ← other.items
  if left.length ≠ right.length then return false
  Run.nested (Protocol.equalElements h left right)

def compare (h : Hooks) (op : CompareOp) (r other : ListRef) : Run Bool := do
  match op with
  | .eq => equals h r other
  | .ne => return !(← equals h r other)
  | _ =>
    let left ← r.items
    let right ← other.items
    Run.nested (Protocol.compareElements h op left right)

def repr (h : Hooks) (r : ListRef) : Run String := do
  let o ← r.object
  Run.printing o.id "[...]" do
    let texts ← Protocol.reprAll h o.buffer.toList
    return "[" ++ ", ".intercalate texts ++ "]"

end DynamicObjects.ListRef
