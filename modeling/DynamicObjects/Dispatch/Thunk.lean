import DynamicObjects.Value
import DynamicObjects.Dispatch.Registry

/-!
Prepared calls, tracers and the classes that programs define.
-/
namespace DynamicObjects

inductive TraceEvent
  | resolved (op typeName : String) (hit : Bool)
  | called (op typeName : String) (depth : Nat)
  | returned (op : String) (depth : Nat)
  | invalidated (version walked : Nat)
  deriving DecidableEq

/-- Who is told about dispatch: nobody, the log, or the recorder of a given number. -/
inductive Tracer
  | silent
  | log
  | recording (number : Nat)
  deriving DecidableEq

/-- What a prepared call runs: the slot of a built-in kind, a class slot, which is invoked, a
member, which is the answer, or nothing. -/
inductive Target
  | builtin
  | slot (callable : Value)
  | member (value : Value)
  | missing

structure Thunk where
  id : Nat
  op : Operation
  key : TypeKey
  typeName : String
  target : Target
  version : Nat
  limited : Bool
  tracer : Option Tracer

namespace Thunk

def isMissing (t : Thunk) : Bool :=
  match t.target with
  | .missing => true
  | _ => false

/-- The answer of a call that has nothing to run: operators decline, all else is an error. -/
def missing (t : Thunk) : Except Error Value :=
  let name := t.typeName
  match t.op with
  | .binary _ | .reflectedBinary _ | .inPlace _ | .compare _ | .unary _ => .ok .notImplemented
  | .getMember member | .invokeMember member => .error (.noAttribute name member)
  | .getItem => .error (.notSubscriptable name)
  | .setItem => .error (.noItemAssignment name)
  | .delItem => .error (.noItemDeletion name)
  | .len => .error (.noLength name)
  | .call => .error (.notCallable name)
  | .hash => .error (.unhashable name)
  | .contains => .error (.notSearchable name)
  | .truth | .repr => .error (.noSlot name t.op.slotName)

end Thunk

/-- A place in a program that remembers the last call it prepared. -/
structure Site where
  op : Operation
  entry : Option (TypeKey × Thunk)
  stale : Bool
  recomputes : Nat
  /-- How many names and running calls hold on to the site. -/
  holders : Nat

namespace Site

def outdated (s : Site) : Site := { s with stale := true }

/-- A site with a new call at hand; only a call that takes the place of another is counted. -/
def install (key : TypeKey) (thunk : Thunk) (s : Site) : Site :=
  { s with
    recomputes := s.recomputes + (if s.entry.isSome then 1 else 0)
    entry := some (key, thunk)
    stale := false }

end Site

structure ClassInfo where
  name : Option String
  slots : List (String × Value)

/-- The classes by number, and the slot lookups made so far, the latest first. A model that is not
connected knows no slots and no names. -/
structure ClassModel where
  classes : Array ClassInfo
  lookups : List String
  connected : Bool

/-- Changes the value of a name in an association list, or adds the name at the end. -/
def assign {α : Type} (name : String) (value : α) : List (String × α) → List (String × α)
  | [] => [(name, value)]
  | (key, old) :: rest =>
    if key = name then (name, value) :: rest else (key, old) :: assign name value rest

namespace ClassModel

def empty : ClassModel := ⟨#[], [], true⟩

def slot? (m : ClassModel) (number : Nat) (name : String) : Option Value :=
  if m.connected then (m.classes[number]?).bind (·.slots.lookup name) else none

def className (m : ClassModel) (number : Nat) : String :=
  if m.connected then ((m.classes[number]?).bind (·.name)).getD (defaultClassName number)
  else defaultClassName number

def resolveSlot (m : ClassModel) (number : Nat) (name : String) : Option Value × ClassModel :=
  (m.slot? number name,
    if m.connected then { m with lookups := s!"{number}.{name}" :: m.lookups } else m)

def setSlot (m : ClassModel) (number : Nat) (name : String) (value : Value) : ClassModel :=
  { m with
    classes := m.classes.modify number fun c => { c with slots := assign name value c.slots } }

def eraseSlot (m : ClassModel) (number : Nat) (name : String) : ClassModel :=
  { m with
    classes := m.classes.modify number fun c =>
      { c with slots := c.slots.filter fun (key, _) => key != name } }

end ClassModel

end DynamicObjects
