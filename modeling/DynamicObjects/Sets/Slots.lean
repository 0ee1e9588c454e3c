import DynamicObjects.Sets.Snapshot
import DynamicObjects.Arguments

/-!
The operations and methods of frozen sets. Operators take sets only; the named methods take any
iterable.
-/
namespace DynamicObjects.SetTable

def receive (args : List Value) : Except Error ((Identity × SetTable) × List Value) := do
  match ← Arguments.split args with
  | (.frozenSet id t, rest) => .ok ((id, t), rest)
  | (other, _) => .error (.internal s!"frozenset slot called on {other.kind.name}")

def slot (body : Identity → SetTable → List Value → Run Value) (args : List Value) :
    Run Value := do
  let ((id, t), rest) ← receive args
  body id t rest

def newOrDecline : Option SetTable → Run Value
  | some t => Run.newFrozenSet t
  | none => return .notImplemented

def lenSlot : Slot := fun _ => slot fun _ t args => do
  Arguments.none "__len__" args
  return .ofNat t.size

def containsSlot : Slot := fun h => slot fun _ t args => do
  return .bool (← contains h t (← Arguments.one "__contains__" args))

def hashSlot : Slot := fun _ => slot fun _ t _ =>
  return .int (HashCode.ofSet t.hashes).toInt64

def reprSlot : Slot := fun h => slot fun id t _ => do Run.newText (← repr h id t)

def compareSlot (op : CompareOp) : Slot := fun h => slot fun _ t args => do
  match ← snapshot? h (← Arguments.one op.slotName args) with
  | some other => return .bool (← compare h op t other)
  | none => return .notImplemented

def operatorSlot (op : BinaryOp) : Slot := fun h => slot fun _ t args => do
  match ← Arguments.one op.slotName args with
  | .frozenSet _ other => newOrDecline (← algebra h op t other)
  | _ => return .notImplemented

def algebraMethod (name : String) (op : BinaryOp) : Slot := fun h => slot fun _ t args => do
  let other ← ofIterable h (← Arguments.one name args)
  newOrDecline (← algebra h op t other)

def testMethod (name : String) (test : Hooks → SetTable → SetTable → Run Bool) : Slot :=
  fun h => slot fun _ t args => do
    let other ← ofIterable h (← Arguments.one name args)
    return .bool (← test h t other)

/-- A set never changes, so it is its own copy. -/
def copyMethod : Slot := fun _ => slot fun id t args => do
  Arguments.none "copy" args
  return .frozenSet id t

def method? : String → Option Slot
  | "union" => some (algebraMethod "union" .or)
  | "intersection" => some (algebraMethod "intersection" .and)
  | "difference" => some (algebraMethod "difference" .sub)
  | "symmetric_difference" => some (algebraMethod "symmetric_difference" .xor)
  | "issubset" => some (testMethod "issubset" isSubset)
  | "issuperset" => some (testMethod "issuperset" fun h t other => isSubset h other t)
  | "isdisjoint" => some (testMethod "isdisjoint" isDisjoint)
  | "copy" => some copyMethod
  | "__len__" => some lenSlot
  | "__contains__" => some containsSlot
  | "__hash__" => some hashSlot
  | "__repr__" => some reprSlot
  | _ => none

def isSetOperator : BinaryOp → Bool
  | .or | .and | .xor | .sub => true
  | _ => false

def operation? : Operation → Option Slot
  | .len => some lenSlot
  | .contains => some containsSlot
  | .hash => some hashSlot
  | .repr => some reprSlot
  | .compare op => some (compareSlot op)
  | .binary op => if isSetOperator op then some (operatorSlot op) else none
  | .invokeMember name => method? name
  | _ => none

end DynamicObjects.SetTable
