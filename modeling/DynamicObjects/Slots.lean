import DynamicObjects.Lists.Slots
import DynamicObjects.Dicts.Slots
import DynamicObjects.Dicts.Views
import DynamicObjects.ByteSequences.Arrays
import DynamicObjects.Numbers
import DynamicObjects.Tuples
import DynamicObjects.Texts

/-!
The operations of every built-in kind. A kind implements an operation exactly when it has a slot for
it here.
-/
namespace DynamicObjects.Kind

def describeSlot : Slot := fun _ args =>
  match args with
  | .slice s :: _ => Run.newText s.describe
  | .native _ name _ :: _ => Run.newText ("<built-in function " ++ name ++ ">")
  | other :: _ => Run.raise (.internal s!"repr slot called on {other.kind.name}")
  | [] => Run.raise (.internal "repr slot called without a receiver")

def callSlot : Slot := fun h args => do
  let (v, rest) ← Arguments.split args
  match v with
  | .native .. => h.invoke v rest
  | other => Run.raise (.notCallable other.kind.name)

def sliceOperation? : Operation → Option Slot
  | .repr => some describeSlot
  | .hash => some unhashableSlot
  | _ => none

def functionOperation? : Operation → Option Slot
  | .call => some callSlot
  | .repr => some describeSlot
  | _ => none

def slot? : Kind → Operation → Option Slot
  | list => ListRef.operation?
  | bytes => ByteSequence.stringOperation?
  | byteArray => ByteArrayRef.operation?
  | dict => DictRef.operation?
  | dictKeys | dictItems => DictView.setOperation?
  | dictValues => DictView.valuesOperation?
  | frozenSet => SetTable.operation?
  | bool | int | float => Number.operation?
  | tuple => Tuple.operation?
  | str => Text.operation?
  | slice => sliceOperation?
  | builtinFunction => functionOperation?
  | noneType | notImplementedType | object => fun _ => none

def hasSlot (k : Kind) (op : Operation) : Bool := (k.slot? op).isSome

end DynamicObjects.Kind
