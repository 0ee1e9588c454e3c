import DynamicObjects.Lists.Basic
import DynamicObjects.MergeSort

/-!
Sorting a list in place. Keys are computed while the list is untouched. Then the contents are taken
out, so that comparisons see an empty list, and put back sorted, or as they were if anything failed.
A change of the list made by other code in either phase makes the sort fail.
-/
namespace DynamicObjects.ListRef

/-- Calls the key function on each item and checks after each call that the list is unchanged. -/
def keysOf (h : Hooks) (r : ListRef) (keyFunction : Value) (version : Nat) :
    List Value → Run (List Value)
  | [] => return []
  | item :: rest => do
    let key ← h.invoke keyFunction [item]
    if (← r.version) ≠ version then Run.raise .mutatedDeterminingKeys
    else return key :: (← keysOf h r keyFunction version rest)

def computeKeys (h : Hooks) (r : ListRef) (keyFunction : Value) : Run (List Value × Nat) := do
  let version ← r.version
  let keys ← keysOf h r keyFunction version (← r.items)
  return (keys, version)

/-- A comparison that fails when the list has changed since `version`. -/
def guardedLess (h : Hooks) (r : ListRef) (version : Nat) (a b : Value) : Run Bool := do
  let less ← Protocol.lessThan h a b
  if (← r.version) = version then return less else Run.raise .mutatedDuringSort

/-- Takes the contents out; the list is empty afterwards, and this counts as a change. -/
def detach (r : ListRef) : Run (Buffer Value) := do
  let detached ← r.buffer
  r.update Buffer.detached
  return detached

def arrange (items : Array Value) (order : List Nat) : Array Value :=
  (order.filterMap fun i => items[i]?).toArray

def sortDetached (h : Hooks) (r : ListRef) (detached : Buffer Value) (keys : Array Value)
    (backwards : Bool) : Run Unit := do
  let version ← r.version
  let sorted ← (MergeSort.sortKeys keys backwards (guardedLess h r version)).attempt
  let mutated := (← r.version) ≠ version
  match sorted with
  | .ok order =>
    if mutated then
      r.write detached
      Run.raise .mutatedDuringSort
    else r.write (Buffer.ofArray (arrange detached.items order))
  | .error e =>
    r.write detached
    Run.raise e

def sort (h : Hooks) (r : ListRef) (keyFunction : Option Value) (backwards : Bool) : Run Unit := do
  match keyFunction with
  | none =>
    let detached ← r.detach
    sortDetached h r detached detached.items backwards
  | some f =>
    let (keys, version) ← computeKeys h r f
    if (← r.version) ≠ version then Run.raise .mutatedDeterminingKeys
    else
      let detached ← r.detach
      sortDetached h r detached keys.toArray backwards

end DynamicObjects.ListRef
