import DynamicObjects.ByteSequences.Methods

/-!
Byte arrays: byte sequences that can change. A source of bytes is read to its end before the array
is touched, so an array can be extended by itself.
-/
namespace DynamicObjects.ByteArrayRef

def buffer (r : ByteArrayRef) : Run (Buffer UInt8) :=
  Run.readStore fun s => (s.byteArray r).buffer

def size (r : ByteArrayRef) : Run Nat := return (← r.buffer).size

def bytes (r : ByteArrayRef) : Run Bytes := return (← r.buffer).toList

def update (r : ByteArrayRef) (f : Buffer UInt8 → Buffer UInt8) : Run Unit :=
  Run.modifyStore (·.modifyByteArray r fun o => { o with buffer := f o.buffer })

def tryUpdate (r : ByteArrayRef) (f : Buffer UInt8 → Except Error (Buffer UInt8)) :
    Run Unit := do
  let b ← Run.ofExcept (f (← r.buffer))
  r.update fun _ => b

def place (r : ByteArrayRef) (index : Int) : Run Nat := do
  match Index.normalize? index (← r.size) with
  | some i => return i
  | none => Run.raise .byteArrayIndex

def item? (r : ByteArrayRef) (index : Int) : Run (Option UInt8) := do
  let items := (← r.buffer).items
  return (Index.normalize? index items.size).bind fun i => items[i]?

def get (r : ByteArrayRef) (index : Int) : Run UInt8 := do
  match ← r.item? index with
  | some b => return b
  | none => Run.raise .byteArrayIndex

def set (r : ByteArrayRef) (index : Int) (byte : UInt8) : Run Unit := do
  let i ← r.place index
  r.update fun b => { b with items := b.items.setIfInBounds i byte }

def delete (r : ByteArrayRef) (index : Int) : Run Unit := do
  let i ← r.place index
  r.update (·.eraseAt i)

def getSlice (r : ByteArrayRef) (s : Slice) : Run Value := do
  let b ← r.buffer
  Run.newByteArray (b.copySlice (← Run.ofExcept (s.indices b.size)))

def setSlice (h : Hooks) (r : ByteArrayRef) (s : Slice) (source : Value) : Run Unit := do
  let data ←
    match source with
    | .int _ | .bool _ => Run.raise .sliceSourceType
    | other => ByteSequence.bytesFrom h other
  let p ← Run.ofExcept (s.indices (← r.size))
  r.tryUpdate (·.assignSlice p data)

def deleteSlice (r : ByteArrayRef) (s : Slice) : Run Unit := do
  let p ← Run.ofExcept (s.indices (← r.size))
  r.update (·.deleteSlice p)

def append (r : ByteArrayRef) (byte : UInt8) : Run Unit := r.update (·.push byte)

def extend (h : Hooks) (r : ByteArrayRef) (source : Value) : Run Unit := do
  let data ←
    match source with
    | .str .. => Run.raise .extendText
    | .int _ | .bool _ => Run.raise (.extendNumber source.kind.name)
    | other => ByteSequence.bytesFrom h other
  r.update (·.extend data)

def insert (r : ByteArrayRef) (index : Int) (byte : UInt8) : Run Unit := do
  let i := Index.clampInsert index (← r.size)
  r.update (·.insertAt i byte)

def pop (r : ByteArrayRef) (index : Option Int) : Run UInt8 := do
  let size ← r.size
  if size = 0 then Run.raise .popEmptyByteArray
  else
    let index := index.getD (-1)
    match ← r.item? index with
    | some byte =>
      r.delete index
      return byte
    | none => Run.raise .popIndex

def remove (r : ByteArrayRef) (byte : UInt8) : Run Unit := do
  match (← r.bytes).idxOf? byte with
  | some i => r.update (·.eraseAt i)
  | none => Run.raise .notInByteArray

def reverse (r : ByteArrayRef) : Run Unit := r.update Buffer.reverse

def clear (r : ByteArrayRef) : Run Unit := r.update Buffer.clear

def copy (r : ByteArrayRef) : Run Value := do Run.newByteArrayOf (← r.bytes)

def repeated (r : ByteArrayRef) (count : Int) : Run Value := do
  Run.newByteArray (← Run.ofExcept ((← r.buffer).repeated count))

def repeatInPlace (r : ByteArrayRef) (count : Int) : Run Unit :=
  r.tryUpdate (·.repeatInPlace count)

def concat (r other : ByteArrayRef) : Run Value := do
  let left := (← r.buffer).items
  let right := (← other.buffer).items
  Run.newByteArray (Buffer.concat left right)

def receive (args : List Value) : Except Error (ByteArrayRef × List Value) := do
  match ← Arguments.split args with
  | (.byteArray r, rest) => .ok (r, rest)
  | (other, _) => .error (.internal s!"bytearray slot called on {other.kind.name}")

def slot (body : ByteArrayRef → List Value → Run Value) (args : List Value) : Run Value := do
  let (r, rest) ← receive args
  body r rest

def getItemSlot : Slot := fun _ => slot fun r args => do
  match ← Arguments.one "__getitem__" args with
  | .slice s => r.getSlice s
  | key =>
    match key.asInt? with
    | some i => return .ofNat (← r.get i.toInt).toNat
    | none => Run.raise (.badIndexType Kind.byteArray.name key.kind.name)

def lenSlot : Slot := fun _ => slot fun r args => do
  Arguments.none "__len__" args
  return .ofNat (← r.size)

def setItemSlot : Slot := fun h => slot fun r args => do
  let (key, v) ← Arguments.two "__setitem__" args
  match key with
  | .slice s => setSlice h r s v
  | key =>
    match key.asInt? with
    | some i => r.set i.toInt (← ByteSequence.byteOf v)
    | none => Run.raise (.badIndexType Kind.byteArray.name key.kind.name)
  return .none

def delItemSlot : Slot := fun _ => slot fun r args => do
  match ← Arguments.one "__delitem__" args with
  | .slice s => r.deleteSlice s
  | key =>
    match key.asInt? with
    | some i => r.delete i.toInt
    | none => Run.raise (.badIndexType Kind.byteArray.name key.kind.name)
  return .none

def addSlot : Slot := fun _ => slot fun r args => do
  match ← Arguments.one "__add__" args with
  | .byteArray other => r.concat other
  | .bytes _ data => Run.newByteArrayOf ((← r.bytes) ++ data)
  | _ => return .notImplemented

def mulSlot : Slot := fun _ => slot fun r args => do
  match (← Arguments.one "__mul__" args).asInt? with
  | some n => r.repeated n.toInt
  | none => return .notImplemented

def inPlaceAddSlot : Slot := fun h => slot fun r args => do
  extend h r (← Arguments.one "__iadd__" args)
  return .byteArray r

def inPlaceMulSlot : Slot := fun _ => slot fun r args => do
  match (← Arguments.one "__imul__" args).asInt? with
  | some n =>
    r.repeatInPlace n.toInt
    return .byteArray r
  | none => return .notImplemented

def appendMethod : Slot := fun _ => slot fun r args => do
  r.append (← ByteSequence.byteOf (← Arguments.one "append" args))
  return .none

def extendMethod : Slot := fun h => slot fun r args => do
  extend h r (← Arguments.one "extend" args)
  return .none

def insertMethod : Slot := fun _ => slot fun r args => do
  let (index, v) ← Arguments.two "insert" args
  let index ← index.asIndex
  r.insert index.toInt (← ByteSequence.byteOf v)
  return .none

def popMethod : Slot := fun _ => slot fun r args => do
  let b ← r.pop (← Arguments.optionalIndex (← Arguments.atMostOne "pop" args))
  return .ofNat b.toNat

def removeMethod : Slot := fun _ => slot fun r args => do
  r.remove (← ByteSequence.byteOf (← Arguments.one "remove" args))
  return .none

def reverseMethod : Slot := fun _ => slot fun r args => do
  Arguments.none "reverse" args
  r.reverse
  return .none

def clearMethod : Slot := fun _ => slot fun r args => do
  Arguments.none "clear" args
  r.clear
  return .none

def copyMethod : Slot := fun _ => slot fun r args => do
  Arguments.none "copy" args
  r.copy

def method? : String → Option Slot
  | "append" => some appendMethod
  | "extend" => some extendMethod
  | "insert" => some insertMethod
  | "pop" => some popMethod
  | "remove" => some removeMethod
  | "reverse" => some reverseMethod
  | "clear" => some clearMethod
  | "copy" => some copyMethod
  | "__getitem__" => some getItemSlot
  | "__len__" => some lenSlot
  | "__setitem__" => some setItemSlot
  | "__delitem__" => some delItemSlot
  | name => ByteSequence.array.readingMethod? name

def operation? : Operation → Option Slot
  | .getItem => some getItemSlot
  | .len => some lenSlot
  | .setItem => some setItemSlot
  | .delItem => some delItemSlot
  | .hash => some unhashableSlot
  | .binary .add => some addSlot
  | .binary .mul | .reflectedBinary .mul => some mulSlot
  | .inPlace .add => some inPlaceAddSlot
  | .inPlace .mul => some inPlaceMulSlot
  | .invokeMember name => method? name
  | op => ByteSequence.array.readingOperation? op

end DynamicObjects.ByteArrayRef
