import DynamicObjects.Slice

/-!
Growable buffers. A buffer is its items together with the room that was asked for and the number of
times room was asked for; the items never depend on the other two. Growth triples the length, with
a floor of ten, and the first small request gets four places.
-/
namespace DynamicObjects

/-- How many bytes one item takes, which bounds the length of a repetition. -/
class ItemSize (α : Type) where
  bytes : Nat

instance : ItemSize Int64 := ⟨8⟩

instance : ItemSize UInt8 := ⟨1⟩

namespace Growth

def initialCapacity : Nat := 4

def leastGrowth : Nat := 10

/-- Doubles `target` until it covers `need`; the largest size covers every need. -/
def doubleUntil (target need : Nat) : Nat :=
  if 0 < target ∧ target < need ∧ target < Word.sizeMax then
    doubleUntil (Word.satMul target 2) need
  else target
termination_by Word.sizeMax - target
decreasing_by
  unfold Word.satMul Word.sizeMax at *
  omega

def grown (len capacity need : Nat) : Nat :=
  if capacity = 0 ∧ need ≤ initialCapacity then initialCapacity
  else doubleUntil (max (Word.satMul len 3) leastGrowth) need

/-- Room for the concatenation of two sequences, as if the longer one grew. -/
def concatenated (a b : Nat) : Nat :=
  grown (max a b) (if 0 < max a b then 1 else 0) (Word.satAdd a b)

/-- Room for items that came one by one, in unknown number: four places, doubled while too few. -/
def doubled (len : Nat) : Nat := if len = 0 then 0 else doubleUntil initialCapacity len

end Growth

structure Buffer (α : Type) where
  items : Array α
  capacity : Nat
  reallocations : Nat
  deriving DecidableEq

namespace Buffer

variable {α : Type}

def empty : Buffer α := ⟨#[], 0, 0⟩

def withCapacity (capacity : Nat) : Buffer α := ⟨#[], capacity, 0⟩

/-- A buffer that holds exactly the given items, with no room to spare. -/
def ofArray (items : Array α) : Buffer α := ⟨items, items.size, 0⟩

def ofDrained (items : List α) : Buffer α := ⟨items.toArray, Growth.doubled items.length, 0⟩

def size (b : Buffer α) : Nat := b.items.size

def toList (b : Buffer α) : List α := b.items.toList

/-- Equal items and equal counters; the room to spare does not count. -/
def agrees [BEq α] (b other : Buffer α) : Bool :=
  b.items == other.items && b.reallocations == other.reallocations

def ensure (b : Buffer α) (need : Nat) : Buffer α :=
  if need ≤ b.capacity then b
  else { b with
    capacity := Growth.grown b.size b.capacity need
    reallocations := b.reallocations + 1 }

def push (b : Buffer α) (x : α) : Buffer α :=
  let b := b.ensure (b.size + 1)
  { b with items := b.items.push x }

/-- The last item and the rest; nothing when there is none. -/
def pop? (b : Buffer α) : Option (α × Buffer α) :=
  b.items.back?.map fun x => (x, { b with items := b.items.pop })

def eraseAt (b : Buffer α) (i : Nat) : Buffer α :=
  { b with items := b.items.eraseIdxIfInBounds i }

def popAt? (b : Buffer α) (i : Nat) : Option (α × Buffer α) :=
  b.items[i]?.map fun x => (x, b.eraseAt i)

def insertAt (b : Buffer α) (i : Nat) (x : α) : Buffer α :=
  let b := b.ensure (b.size + 1)
  { b with items := b.items.extract 0 i ++ #[x] ++ b.items.extract i b.size }

def replaceAt? (b : Buffer α) (i : Nat) (x : α) : Option (α × Buffer α) :=
  b.items[i]?.map fun old => (old, { b with items := b.items.setIfInBounds i x })

def extend (b : Buffer α) (xs : List α) : Buffer α :=
  xs.foldl push (b.ensure (b.size + xs.length))

def ofSized (xs : List α) : Buffer α :=
  empty.extend xs

def clear (b : Buffer α) : Buffer α :=
  { b with items := #[] }

def reverse (b : Buffer α) : Buffer α :=
  { b with items := b.items.reverse }

def trim (b : Buffer α) : Buffer α :=
  if b.size < b.capacity then
    { b with capacity := b.size, reallocations := b.reallocations + 1 }
  else b

/-- What is left when the items are taken out: no items, no room, the same counter. -/
def detached (b : Buffer α) : Buffer α :=
  { b with items := #[], capacity := 0 }

def dropEvery (step : Nat) : Nat → List α → List α
  | 0, xs => xs
  | _ + 1, [] => []
  | count + 1, _ :: rest => rest.take (step - 1) ++ dropEvery step count (rest.drop (step - 1))

def deleteSlice (b : Buffer α) (p : Progression) : Buffer α :=
  if p.count = 0 then b
  else
    let (first, step) := p.ascending
    let xs := b.toList
    { b with items := (xs.take first ++ dropEvery step p.count (xs.drop first)).toArray }

def select (xs : Array α) (p : Progression) : List α :=
  if p.isContiguous then (xs.extract p.start.toNat (p.start.toNat + p.count)).toList
  else p.positions.filterMap fun i => xs[i]?

def copySlice (b : Buffer α) (p : Progression) : Buffer α :=
  ofArray (select b.items p).toArray

def writeAt (xs : Array α) (positions : List Nat) (values : List α) : Array α :=
  (positions.zip values).foldl (fun xs (i, v) => xs.setIfInBounds i v) xs

def assignSlice (b : Buffer α) (p : Progression) (values : List α) : Except Error (Buffer α) :=
  if p.isContiguous then
    let start := p.start.toNat
    let stop := start + p.count
    let grown := if values.length = p.count then b else b.ensure (b.size - p.count + values.length)
    .ok { grown with
      items := b.items.extract 0 start ++ values.toArray ++ b.items.extract stop b.size }
  else if values.length ≠ p.count then
    .error (.extendedSliceSize values.length p.count)
  else .ok { b with items := writeAt b.items p.positions values }

/-- Copies the items behind themselves, doubling the block, until there are `target` of them. -/
def extendTo (items : Array α) (target : Nat) : Array α :=
  if 0 < items.size ∧ items.size < target then
    extendTo (items ++ items.extract 0 (target - items.size)) target
  else items
termination_by target - items.size
decreasing_by
  rw [Array.size_append, Array.size_extract]
  omega

/-- Copies of some items in a row. Room for all of them is asked for before the first is copied. -/
def copies (xs : List α) (count : Nat) : List α :=
  (count.repeat (· ++ xs.toArray) (Array.emptyWithCapacity (xs.length * count))).toList

/-- The length of a repetition, if so many items can be held. -/
def repeatLength (α : Type) [ItemSize α] (unit count : Nat) : Except Error Nat :=
  if unit * count ≤ Word.allocationMax / max (ItemSize.bytes α) 1 then .ok (unit * count)
  else .error .repeatOverflow

def repeatInPlace [ItemSize α] (b : Buffer α) (count : Int) : Except Error (Buffer α) :=
  if count ≤ 0 then .ok b.clear
  else
    match repeatLength α b.size count.toNat with
    | .error e => .error e
    | .ok target =>
      if b.size = 0 ∨ count = 1 then .ok b
      else .ok { b.ensure target with items := extendTo b.items target }

def repeated [ItemSize α] (b : Buffer α) (count : Int) : Except Error (Buffer α) :=
  match repeatLength α b.size count.toNat with
  | .error e => .error e
  | .ok target =>
    let room : Buffer α := withCapacity (Growth.grown b.size b.size target)
    if target = 0 then .ok room
    else ({ room with items := b.items } : Buffer α).repeatInPlace count

def concat (left right : Array α) : Buffer α :=
  ⟨left ++ right, Growth.concatenated left.size right.size, 0⟩

@[simp] theorem items_ensure (b : Buffer α) (need : Nat) : (b.ensure need).items = b.items := by
  unfold ensure
  split <;> rfl

@[simp] theorem toList_push (b : Buffer α) (x : α) : (b.push x).toList = b.toList ++ [x] := by
  simp [push, toList]

@[simp] theorem items_trim (b : Buffer α) : b.trim.items = b.items := by
  unfold trim
  split <;> rfl

theorem toList_extend (b : Buffer α) (xs : List α) : (b.extend xs).toList = b.toList ++ xs := by
  have general : ∀ (xs : List α) (b : Buffer α), (xs.foldl push b).toList = b.toList ++ xs := by
    intro xs
    induction xs with
    | nil => intro b; simp
    | cons x xs ih => intro b; simp [ih]
  rw [extend, general]
  simp [toList]

theorem items_concat (left right : Array α) : (concat left right).items = left ++ right := rfl

end Buffer

end DynamicObjects
