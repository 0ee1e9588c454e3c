import DynamicObjects.Sets.Basic
import DynamicObjects.Dicts.Basic

/-!
Values that act as sets: sets themselves, and the keys and items of a dictionary as they are now.
-/
namespace DynamicObjects.SetTable

/-- The set that a value stands for; nothing for a value that does not act as a set. -/
def snapshot? (h : Hooks) (v : Value) : Run (Option SetTable) :=
  match v with
  | .frozenSet _ t => return some t
  | .dictKeys r => do return some (← ofValues h (← r.keys))
  | .dictItems r => do return some (← ofValues h (← r.itemTuples))
  | _ => return none

end DynamicObjects.SetTable
