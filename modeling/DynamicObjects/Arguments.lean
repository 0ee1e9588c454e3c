import DynamicObjects.Protocol

/-!
Counting arguments. A slot gets its receiver and its arguments in one list; these functions take
lists apart and word the complaints about their length.
-/
namespace DynamicObjects

instance : MonadLift (Except Error) Run := ⟨Run.ofExcept⟩

namespace Arguments

def split : List Value → Except Error (Value × List Value)
  | [] => .error (.internal "slot called without a receiver")
  | v :: rest => .ok (v, rest)

def none (name : String) : List Value → Except Error Unit
  | [] => .ok ()
  | args => .error (.takesNoArguments name args.length)

def one (name : String) : List Value → Except Error Value
  | [a] => .ok a
  | args => .error (.argumentCount name 1 args.length)

def two (name : String) : List Value → Except Error (Value × Value)
  | [a, b] => .ok (a, b)
  | args => .error (.argumentCount name 2 args.length)

def atMostOne (name : String) : List Value → Except Error (Option Value)
  | [] => .ok .none
  | [a] => .ok (some a)
  | args => .error (.tooManyArguments name 1 args.length)

def oneOrTwo (name : String) : List Value → Except Error (Value × Option Value)
  | [] => .error (.tooFewArguments name 1 0)
  | [a] => .ok (a, .none)
  | [a, b] => .ok (a, some b)
  | args => .error (.tooManyArguments name 2 args.length)

def atMostTwo (name : String) : List Value → Except Error (Option Value × Option Value)
  | [] => .ok (.none, .none)
  | [a] => .ok (some a, .none)
  | [a, b] => .ok (some a, some b)
  | args => .error (.tooManyArguments name 2 args.length)

def oneToThree (name : String) :
    List Value → Except Error (Value × Option Value × Option Value)
  | [] => .error (.tooFewArguments name 1 0)
  | [a] => .ok (a, .none, .none)
  | [a, b] => .ok (a, some b, .none)
  | [a, b, c] => .ok (a, some b, some c)
  | args => .error (.tooManyArguments name 3 args.length)

/-- An index that may be left out, also by passing the value `None`. -/
def optionalIndex : Option Value → Except Error (Option Int)
  | .none | some .none => .ok .none
  | some v => v.asIndex.map fun n => some n.toInt

end Arguments

abbrev Slot := Hooks → List Value → Run Value

def unhashableSlot : Slot := fun _ args => do
  Run.raise (.unhashable (← Run.typeName (Protocol.receiver args)))

end DynamicObjects
