import DynamicObjects.Dicts.Basic
import DynamicObjects.Arguments

/-!
The operations and methods of dictionaries.
-/
namespace DynamicObjects.DictRef

def receive (args : List Value) : Except Error (DictRef × List Value) := do
  match ← Arguments.split args with
  | (.dict r, rest) => .ok (r, rest)
  | (other, _) => .error (.internal s!"dict slot called on {other.kind.name}")

def slot (body : DictRef → List Value → Run Value) (args : List Value) : Run Value := do
  let (r, rest) ← receive args
  body r rest

def getItemSlot : Slot := fun h => slot fun r args => do
  getItem h r (← Arguments.one "__getitem__" args)

def setItemSlot : Slot := fun h => slot fun r args => do
  let (key, value) ← Arguments.two "__setitem__" args
  set h r key value
  return .none

def delItemSlot : Slot := fun h => slot fun r args => do
  delete h r (← Arguments.one "__delitem__" args)
  return .none

def lenSlot : Slot := fun _ => slot fun r args => do
  Arguments.none "__len__" args
  return .ofNat (← r.size)

def containsSlot : Slot := fun h => slot fun r args => do
  return .bool (← contains h r (← Arguments.one "__contains__" args))

def reprSlot : Slot := fun h => slot fun r _ => do Run.newText (← repr h r)

def compareSlot (op : CompareOp) : Slot := fun h => slot fun r args => do
  match op, ← Arguments.one op.slotName args with
  | .eq, .dict other => return .bool (← equals h r other)
  | .ne, .dict other => return .bool (!(← equals h r other))
  | _, _ => return .notImplemented

def orSlot : Slot := fun h => slot fun r args => do
  match ← Arguments.one "__or__" args with
  | .dict other =>
    let merged ← r.copy
    update h merged (.dict other)
    return .dict merged
  | _ => return .notImplemented

def inPlaceOrSlot : Slot := fun h => slot fun r args => do
  update h r (← Arguments.one "__ior__" args)
  return .dict r

def getMethod : Slot := fun h => slot fun r args => do
  let (key, default) ← Arguments.oneOrTwo "get" args
  return (← get? h r key).getD (default.getD .none)

def keysMethod : Slot := fun _ => slot fun r args => do
  Arguments.none "keys" args
  return .dictKeys r

def valuesMethod : Slot := fun _ => slot fun r args => do
  Arguments.none "values" args
  return .dictValues r

def itemsMethod : Slot := fun _ => slot fun r args => do
  Arguments.none "items" args
  return .dictItems r

def popMethod : Slot := fun h => slot fun r args => do
  let (key, default) ← Arguments.oneOrTwo "pop" args
  pop h r key default

def popItemMethod : Slot := fun _ => slot fun r args => do
  Arguments.none "popitem" args
  let (key, value) ← r.popItem
  Run.newTuple [key, value]

def setDefaultMethod : Slot := fun h => slot fun r args => do
  let (key, default) ← Arguments.oneOrTwo "setdefault" args
  setDefault h r key (default.getD .none)

def updateMethod : Slot := fun h => slot fun r args => do
  match ← Arguments.atMostOne "update" args with
  | some source => update h r source
  | none => pure ()
  return .none

def clearMethod : Slot := fun _ => slot fun r args => do
  Arguments.none "clear" args
  r.clear
  return .none

def copyMethod : Slot := fun _ => slot fun r args => do
  Arguments.none "copy" args
  return .dict (← r.copy)

/-- The receiver only selects the kind of the result. -/
def fromKeysMethod : Slot := fun h => slot fun _ args => do
  let (iterable, value) ← Arguments.oneOrTwo "fromkeys" args
  return .dict (← fromKeys h iterable (value.getD .none))

def method? : String → Option Slot
  | "get" => some getMethod
  | "keys" => some keysMethod
  | "values" => some valuesMethod
  | "items" => some itemsMethod
  | "pop" => some popMethod
  | "popitem" => some popItemMethod
  | "setdefault" => some setDefaultMethod
  | "update" => some updateMethod
  | "clear" => some clearMethod
  | "copy" => some copyMethod
  | "fromkeys" => some fromKeysMethod
  | "__getitem__" => some getItemSlot
  | "__setitem__" => some setItemSlot
  | "__delitem__" => some delItemSlot
  | "__len__" => some lenSlot
  | "__contains__" => some containsSlot
  | "__repr__" => some reprSlot
  | _ => none

def operation? : Operation → Option Slot
  | .getItem => some getItemSlot
  | .setItem => some setItemSlot
  | .delItem => some delItemSlot
  | .len => some lenSlot
  | .contains => some containsSlot
  | .hash => some unhashableSlot
  | .repr => some reprSlot
  | .compare op => some (compareSlot op)
  | .binary .or => some orSlot
  | .inPlace .or => some inPlaceOrSlot
  | .invokeMember name => method? name
  | _ => none

end DynamicObjects.DictRef
