import DynamicObjects.Lists.Sort
import DynamicObjects.Arguments

/-!
The operations and methods of lists.
-/
namespace DynamicObjects.ListRef

def receive (args : List Value) : Except Error (ListRef × List Value) := do
  match ← Arguments.split args with
  | (.list r, rest) => .ok (r, rest)
  | (other, _) => .error (.internal s!"list slot called on {other.kind.name}")

def slot (body : ListRef → List Value → Run Value) (args : List Value) : Run Value := do
  let (r, rest) ← receive args
  body r rest

def getItemSlot : Slot := fun _ => slot fun r args => do
  match ← Arguments.one "__getitem__" args with
  | .slice s => r.getSlice s
  | key =>
    match key.asInt? with
    | some i => r.get i.toInt
    | none => Run.raise (.badIndexType Kind.list.name key.kind.name)

def setItemSlot : Slot := fun h => slot fun r args => do
  let (key, v) ← Arguments.two "__setitem__" args
  match key with
  | .slice s => setSlice h r s v
  | key =>
    match key.asInt? with
    | some i => r.set i.toInt v
    | none => Run.raise (.badIndexType Kind.list.name key.kind.name)
  return .none

def delItemSlot : Slot := fun _ => slot fun r args => do
  match ← Arguments.one "__delitem__" args with
  | .slice s => r.deleteSlice s
  | key =>
    match key.asInt? with
    | some i => r.delete i.toInt
    | none => Run.raise (.badIndexType Kind.list.name key.kind.name)
  return .none

def lenSlot : Slot := fun _ => slot fun r args => do
  Arguments.none "__len__" args
  return .ofNat (← r.size)

def containsSlot : Slot := fun h => slot fun r args => do
  return .bool (← contains h r (← Arguments.one "__contains__" args))

def reprSlot : Slot := fun h => slot fun r _ => do Run.newText (← repr h r)

def compareSlot (op : CompareOp) : Slot := fun h => slot fun r args => do
  match ← Arguments.one op.slotName args with
  | .list other => return .bool (← compare h op r other)
  | _ => return .notImplemented

def addSlot : Slot := fun _ => slot fun r args => do
  match ← Arguments.one "__add__" args with
  | .list other => r.concat other
  | _ => return .notImplemented

def mulSlot : Slot := fun _ => slot fun r args => do
  match (← Arguments.one "__mul__" args).asInt? with
  | some n => r.repeated n.toInt
  | none => return .notImplemented

def inPlaceAddSlot : Slot := fun h => slot fun r args => do
  extend h r (← Arguments.one "__iadd__" args)
  return .list r

def inPlaceMulSlot : Slot := fun _ => slot fun r args => do
  match (← Arguments.one "__imul__" args).asInt? with
  | some n =>
    r.repeatInPlace n.toInt
    return .list r
  | none => return .notImplemented

def appendMethod : Slot := fun _ => slot fun r args => do
  r.append (← Arguments.one "append" args)
  return .none

def extendMethod : Slot := fun h => slot fun r args => do
  extend h r (← Arguments.one "extend" args)
  return .none

def insertMethod : Slot := fun _ => slot fun r args => do
  let (index, v) ← Arguments.two "insert" args
  r.insert (← index.asIndex).toInt v
  return .none

def popMethod : Slot := fun _ => slot fun r args => do
  r.pop (← Arguments.optionalIndex (← Arguments.atMostOne "pop" args))

def removeMethod : Slot := fun h => slot fun r args => do
  remove h r (← Arguments.one "remove" args)
  return .none

def indexMethod : Slot := fun h => slot fun r args => do
  let (v, start, stop) ← Arguments.oneToThree "index" args
  let start ← Arguments.optionalIndex start
  let stop ← Arguments.optionalIndex stop
  return .ofNat (← indexOf h r v start stop)

def countMethod : Slot := fun h => slot fun r args => do
  return .ofNat (← count h r (← Arguments.one "count" args))

def clearMethod : Slot := fun _ => slot fun r args => do
  Arguments.none "clear" args
  r.clear
  return .none

def copyMethod : Slot := fun _ => slot fun r args => do
  Arguments.none "copy" args
  r.copy

def reverseMethod : Slot := fun _ => slot fun r args => do
  Arguments.none "reverse" args
  r.reverse
  return .none

def sortMethod : Slot := fun h => slot fun r args => do
  let (key, backwards) ← Arguments.atMostTwo "sort" args
  let keyFunction :=
    match key with
    | some .none => none
    | other => other
  let backwards ←
    match backwards with
    | some flag => Protocol.truthy h flag
    | none => pure false
  sort h r keyFunction backwards
  return .none

def method? : String → Option Slot
  | "append" => some appendMethod
  | "extend" => some extendMethod
  | "insert" => some insertMethod
  | "pop" => some popMethod
  | "remove" => some removeMethod
  | "index" => some indexMethod
  | "count" => some countMethod
  | "clear" => some clearMethod
  | "copy" => some copyMethod
  | "reverse" => some reverseMethod
  | "sort" => some sortMethod
  | "__getitem__" => some getItemSlot
  | "__setitem__" => some setItemSlot
  | "__delitem__" => some delItemSlot
  | "__len__" => some lenSlot
  | "__contains__" => some containsSlot
  | "__repr__" => some reprSlot
  | _ => none

def operation? : Operation → Option Slot
  | .getItem => some getItemSlot
  | .setItem => some setItemSlot
  | .delItem => some delItemSlot
  | .len => some lenSlot
  | .contains => some containsSlot
  | .hash => some unhashableSlot
  | .repr => some reprSlot
  | .compare op => some (compareSlot op)
  | .binary .add => some addSlot
  | .binary .mul | .reflectedBinary .mul => some mulSlot
  | .inPlace .add => some inPlaceAddSlot
  | .inPlace .mul => some inPlaceMulSlot
  | .invokeMember name => method? name
  | _ => none

end DynamicObjects.ListRef
