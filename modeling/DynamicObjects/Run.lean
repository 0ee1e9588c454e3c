import DynamicObjects.Iterator
import DynamicObjects.Dispatch.Dispatcher

/-!
Computations on the whole state. A run ends with a value, with an error, or with its fuel used up;
the state that it leaves is there in every case, since what was done before an error stays done.
-/
namespace DynamicObjects

/-- The variables, iterators, prepared calls and sites that a program has given names to. -/
structure Session where
  globals : List (String × Value) := []
  /-- The local variables of the functions that are running, the innermost first. -/
  frames : List (List (String × Value)) := []
  iterators : List (String × Iterator) := []
  thunks : List (String × Thunk) := []
  sites : List (String × Nat) := []
  /-- The recorder that was installed last, and how many of its events were taken from it. -/
  recorder : Option (Nat × Nat) := none

structure World where
  store : Store
  dispatcher : Dispatcher
  /-- How many depth-limited calls are open. -/
  depth : Nat := 0
  /-- How many levels of nested data are being followed. -/
  dataDepth : Nat := 0
  /-- The containers that are being printed, the innermost first. -/
  printing : List Identity := []
  session : Session := {}

inductive Outcome (α : Type)
  | ok (a : α)
  | error (e : Error)
  | outOfFuel

def Run (α : Type) : Type := World → Outcome α × World

namespace Run

variable {α β : Type}

@[inline] def pure (a : α) : Run α := fun w => (.ok a, w)

@[inline] def bind (x : Run α) (f : α → Run β) : Run β := fun w =>
  match x w with
  | (.ok a, w) => f a w
  | (.error e, w) => (.error e, w)
  | (.outOfFuel, w) => (.outOfFuel, w)

instance : Monad Run where
  pure := Run.pure
  bind := Run.bind

@[inline] def raise (e : Error) : Run α := fun w => (.error e, w)

@[inline] def outOfFuel : Run α := fun w => (.outOfFuel, w)

@[inline] def ofExcept : Except Error α → Run α
  | .ok a => Run.pure a
  | .error e => raise e

@[inline] def read (f : World → α) : Run α := fun w => (.ok (f w), w)

@[inline] def modify (f : World → World) : Run Unit := fun w => (.ok (), f w)

@[inline] def change (f : World → α × World) : Run α := fun w =>
  let (a, w) := f w
  (.ok a, w)

/-- Runs `x` and then, however it ended, the change `f`. -/
@[inline] def andThen (x : Run α) (f : World → World) : Run α := fun w =>
  match x w with
  | (outcome, w) => (outcome, f w)

@[inline] def attempt (x : Run α) : Run (Except Error α) := fun w =>
  match x w with
  | (.ok a, w) => (.ok (.ok a), w)
  | (.error e, w) => (.ok (.error e), w)
  | (.outOfFuel, w) => (.outOfFuel, w)

@[simp] theorem pure_apply (a : α) (w : World) : (Pure.pure a : Run α) w = (.ok a, w) := rfl

theorem bind_ok {x : Run α} {f : α → Run β} {w w' : World} {a : α} (h : x w = (.ok a, w')) :
    (x >>= f) w = f a w' := by
  show Run.bind x f w = _
  simp only [Run.bind, h]

theorem bind_error {x : Run α} {f : α → Run β} {w w' : World} {e : Error}
    (h : x w = (.error e, w')) : (x >>= f) w = (.error e, w') := by
  show Run.bind x f w = _
  simp only [Run.bind, h]

theorem bind_outOfFuel {x : Run α} {f : α → Run β} {w w' : World}
    (h : x w = (.outOfFuel, w')) : (x >>= f) w = (.outOfFuel, w') := by
  show Run.bind x f w = _
  simp only [Run.bind, h]

@[inline] def readStore (f : Store → α) : Run α := read fun w => f w.store

@[inline] def modifyStore (f : Store → Store) : Run Unit :=
  modify fun w => { w with store := f w.store }

@[inline] def changeStore (f : Store → α × Store) : Run α :=
  change fun w =>
    let (a, store) := f w.store
    (a, { w with store })

def fresh : Run Identity := changeStore Store.fresh

def newText (text : String) : Run Value := return .str (← fresh) text

def newTuple (items : List Value) : Run Value := return .tuple (← fresh) items

/-- Byte strings of at most one byte are always the same objects. -/
def newBytes (data : Bytes) : Run Value :=
  match data with
  | [] => return .bytes 0 []
  | [b] => return .bytes (b.toNat + 1) [b]
  | data => return .bytes (← fresh) data

def newList (buffer : Buffer Value) : Run Value :=
  return .list (← changeStore (·.addList buffer))

def newListOf (items : List Value) : Run Value := newList (Buffer.ofArray items.toArray)

def newDict (table : Table Value Value) : Run Value :=
  return .dict (← changeStore (·.addDict table))

def newByteArray (buffer : Buffer UInt8) : Run Value :=
  return .byteArray (← changeStore (·.addByteArray buffer))

def newByteArrayOf (data : Bytes) : Run Value := newByteArray (Buffer.ofArray data.toArray)

def newFrozenSet (table : SetTable) : Run Value := return .frozenSet (← fresh) table

def newObject (number : Nat) (payload : Value) : Run Value :=
  return .object (← fresh) number payload

@[inline] def readDispatcher (f : Dispatcher → α) : Run α := read fun w => f w.dispatcher

@[inline] def modifyDispatcher (f : Dispatcher → Dispatcher) : Run Unit :=
  modify fun w => { w with dispatcher := f w.dispatcher }

@[inline] def changeDispatcher (f : Dispatcher → α × Dispatcher) : Run α :=
  change fun w =>
    let (a, dispatcher) := f w.dispatcher
    (a, { w with dispatcher })

def typeName (v : Value) : Run String := readDispatcher (·.typeName v.typeKey)

def nested (x : Run α) : Run α := fun w =>
  if dataDepthLimit ≤ w.dataDepth then (.error .recursionLimit, w)
  else
    andThen x (fun w => { w with dataDepth := w.dataDepth - 1 })
      { w with dataDepth := w.dataDepth + 1 }

/-- Prints a container one level down, unless it is being printed already: then `again` is its text
and no level is used. -/
def printing (id : Identity) (again : String) (x : Run String) : Run String := fun w =>
  if w.printing.contains id then (.ok again, w)
  else
    nested (fun w =>
      andThen x (fun w => { w with printing := w.printing.erase id })
        { w with printing := id :: w.printing }) w

/-- Runs a call that counts against the limit; nothing is checked when there is no limit now. -/
def limited (x : Nat → Run α) : Run α := fun w =>
  let current := w.depth
  let exceeded : Bool :=
    match w.dispatcher.policy.recursionLimit with
    | some limit => limit ≤ current
    | none => false
  if exceeded then (.error .recursionLimit, w)
  else andThen (x (current + 1)) (fun w => { w with depth := current }) { w with depth := current + 1 }

end Run

end DynamicObjects
