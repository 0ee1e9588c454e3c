import DynamicObjects.Sets.Slots

/-!
Views of a dictionary: its keys, its values and its items, always as they are now. Keys and items act
as sets and combine with any iterable; values do not.
-/
namespace DynamicObjects.DictView

def dict? : Value → Option DictRef
  | .dictKeys r | .dictValues r | .dictItems r => some r
  | _ => none

def dict (v : Value) : Except Error DictRef :=
  match dict? v with
  | some r => .ok r
  | none => .error (.internal s!"dict view slot called on {v.kind.name}")

def elements (v : Value) : Run (List Value) :=
  match v with
  | .dictKeys r => r.keys
  | .dictValues r => r.values
  | .dictItems r => r.itemTuples
  | _ => return []

def receiveSet (h : Hooks) (v : Value) : Run SetTable :=
  match v with
  | .dictKeys _ | .dictItems _ => do SetTable.ofValues h (← elements v)
  | other => Run.raise (.internal s!"set-like view slot called on {other.kind.name}")

/-- An item is there when its key is and has an equal value. -/
def containsItem (h : Hooks) (r : DictRef) (item : Value) : Run Bool := do
  match item with
  | .tuple _ [key, value] =>
    match ← DictRef.get? h r key with
    | some current =>
      if current.isSame value then return true else Protocol.equals h current value
    | none => return false
  | _ => return false

def lenSlot : Slot := fun _ args => do
  let (view, rest) ← Arguments.split args
  Arguments.none "__len__" rest
  let r ← dict view
  return .ofNat (← r.size)

def containsSlot : Slot := fun h args => do
  let (view, rest) ← Arguments.split args
  let item ← Arguments.one "__contains__" rest
  match view with
  | .dictKeys r => return .bool (← DictRef.contains h r item)
  | .dictValues r => return .bool (← Protocol.containsElement h item (← r.values))
  | .dictItems r => return .bool (← containsItem h r item)
  | other => Run.raise (.internal s!"dict view slot called on {other.kind.name}")

def reprSlot : Slot := fun h args => do
  let (view, _) ← Arguments.split args
  let r ← dict view
  let items ← elements view
  let name := view.kind.name
  let text ← Run.printing (← r.object).id (name ++ "(...)") do
    let texts ← Protocol.reprAll h items
    return name ++ "([" ++ ", ".intercalate texts ++ "])"
  Run.newText text

def compareSlot (op : CompareOp) : Slot := fun h args => do
  let (view, rest) ← Arguments.split args
  match ← SetTable.snapshot? h (← Arguments.one op.slotName rest) with
  | some other => return .bool (← SetTable.compare h op (← receiveSet h view) other)
  | none => return .notImplemented

/-- The other operand of a set operator: what acts as a set, or else the elements of an iterable. -/
def operandSet? (h : Hooks) (operand : Value) : Run (Option SetTable) := do
  match ← SetTable.snapshot? h operand with
  | some t => return some t
  | none =>
    match ← (Protocol.openIterator h operand).attempt with
    | .ok it => return some (← SetTable.ofValues h (← Protocol.drain h it))
    | .error _ => return none

/-- A set operator; `backwards` puts the view on the right. -/
def operatorSlot (op : BinaryOp) (backwards : Bool) : Slot := fun h args => do
  let (view, rest) ← Arguments.split args
  let operand ← Arguments.one op.slotName rest
  match ← operandSet? h operand with
  | none => return .notImplemented
  | some other =>
    let mine ← receiveSet h view
    let result ←
      if backwards then SetTable.algebra h op other mine else SetTable.algebra h op mine other
    SetTable.newOrDecline result

def isDisjointMethod : Slot := fun h args => do
  let (view, rest) ← Arguments.split args
  let other ← SetTable.ofIterable h (← Arguments.one "isdisjoint" rest)
  let mine ← receiveSet h view
  return .bool (← SetTable.isDisjoint h mine other)

def method? : String → Option Slot
  | "__len__" => some lenSlot
  | "__contains__" => some containsSlot
  | "__repr__" => some reprSlot
  | _ => none

def setMethod? : String → Option Slot
  | "isdisjoint" => some isDisjointMethod
  | name => method? name

def setOperation? : Operation → Option Slot
  | .len => some lenSlot
  | .contains => some containsSlot
  | .hash => some unhashableSlot
  | .repr => some reprSlot
  | .compare op => some (compareSlot op)
  | .binary op => if SetTable.isSetOperator op then some (operatorSlot op false) else none
  | .reflectedBinary op => if SetTable.isSetOperator op then some (operatorSlot op true) else none
  | .invokeMember name => setMethod? name
  | _ => none

def valuesOperation? : Operation → Option Slot
  | .len => some lenSlot
  | .contains => some containsSlot
  | .repr => some reprSlot
  | .invokeMember name => method? name
  | _ => none

end DynamicObjects.DictView
