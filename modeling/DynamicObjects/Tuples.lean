import DynamicObjects.Arguments

/-!
The operations and methods of tuples.
-/
namespace DynamicObjects.Tuple

def receive (args : List Value) : Except Error (List Value × List Value) := do
  match ← Arguments.split args with
  | (.tuple _ items, rest) => .ok (items, rest)
  | (other, _) => .error (.internal s!"tuple slot called on {other.kind.name}")

def slot (body : List Value → List Value → Run Value) (args : List Value) : Run Value := do
  let (items, rest) ← receive args
  body items rest

def countEqual (h : Hooks) (needle : Value) : List Value → Run Nat
  | [] => return 0
  | v :: rest => do
    let found ← Protocol.equals h v needle
    return (← countEqual h needle rest) + (if found then 1 else 0)

def indexFrom (h : Hooks) (needle : Value) (position : Nat) : List Value → Run (Option Nat)
  | [] => return none
  | v :: rest => do
    if ← Protocol.equals h v needle then return some position
    else indexFrom h needle (position + 1) rest

def compare (h : Hooks) (op : CompareOp) (items other : List Value) : Run Bool :=
  Run.nested (Protocol.compareElements h op items other)

def repeated (items : List Value) (count : Int) : Except Error (List Value) :=
  if items.isEmpty then .ok []
  else if Word.sizeMax < items.length * count.toNat then .error .repeatOverflow
  else .ok (Buffer.copies items count.toNat)

def text (texts : List String) : String :=
  match texts with
  | [one] => "(" ++ one ++ ",)"
  | texts => "(" ++ ", ".intercalate texts ++ ")"

def getItemSlot : Slot := fun _ => slot fun items args => do
  match ← Arguments.one "__getitem__" args with
  | .slice s =>
    let p ← s.indices items.length
    Run.newTuple (Buffer.select items.toArray p)
  | key =>
    match key.asInt? with
    | none => Run.raise (.badIndexType Kind.tuple.name key.kind.name)
    | some i =>
      match (Index.normalize? i.toInt items.length).bind fun i => items[i]? with
      | some v => return v
      | none => Run.raise .tupleIndex

def lenSlot : Slot := fun _ => slot fun items args => do
  Arguments.none "__len__" args
  return .ofNat items.length

def containsSlot : Slot := fun h => slot fun items args => do
  return .bool (← Protocol.containsElement h (← Arguments.one "__contains__" args) items)

def reprSlot : Slot := fun h => slot fun items _ => do
  Run.newText (← Run.nested do return text (← Protocol.reprAll h items))

def compareSlot (op : CompareOp) : Slot := fun h => slot fun items args => do
  match ← Arguments.one op.slotName args with
  | .tuple _ other => return .bool (← compare h op items other)
  | _ => return .notImplemented

def addSlot : Slot := fun _ => slot fun items args => do
  match ← Arguments.one "__add__" args with
  | .tuple _ other => Run.newTuple (items ++ other)
  | _ => return .notImplemented

def mulSlot : Slot := fun _ => slot fun items args => do
  match (← Arguments.one "__mul__" args).asInt? with
  | some n => Run.newTuple (← repeated items n.toInt)
  | none => return .notImplemented

def countMethod : Slot := fun h => slot fun items args => do
  return .ofNat (← countEqual h (← Arguments.one "count" args) items)

def indexMethod : Slot := fun h => slot fun items args => do
  let (needle, start, stop) ← Arguments.oneToThree "index" args
  let start ← Arguments.optionalIndex start
  let stop ← Arguments.optionalIndex stop
  let (lo, hi) := Index.adjustRange start stop items.length
  match ← indexFrom h needle lo ((items.take hi).drop lo) with
  | some i => return .ofNat i
  | none => Run.raise .notInTuple

def method? : String → Option Slot
  | "count" => some countMethod
  | "index" => some indexMethod
  | "__len__" => some lenSlot
  | "__getitem__" => some getItemSlot
  | "__contains__" => some containsSlot
  | _ => none

def operation? : Operation → Option Slot
  | .getItem => some getItemSlot
  | .len => some lenSlot
  | .contains => some containsSlot
  | .repr => some reprSlot
  | .compare op => some (compareSlot op)
  | .binary .add => some addSlot
  | .binary .mul | .reflectedBinary .mul => some mulSlot
  | .invokeMember name => method? name
  | _ => none

end DynamicObjects.Tuple
