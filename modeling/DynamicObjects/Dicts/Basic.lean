import DynamicObjects.Protocol

/-!
Operations on dictionaries. Hashing and comparing keys may run other code, which may change the very
dictionary that is being searched. A search therefore compares the candidates that it saw and counts
only if the version is the same afterwards; otherwise it starts over.
-/
namespace DynamicObjects.DictRef

def object (r : DictRef) : Run DictObject := Run.readStore (·.dict r)

def table (r : DictRef) : Run (Table Value Value) := Run.readStore fun s => (s.dict r).table

def version (r : DictRef) : Run Nat := Run.readStore fun s => (s.dict r).version

def size (r : DictRef) : Run Nat := return (← r.table).size

def keys (r : DictRef) : Run (List Value) := return (← r.table).keys

def values (r : DictRef) : Run (List Value) := return (← r.table).values

def pairs (r : DictRef) : Run (List (Value × Value)) := return (← r.table).pairs

def itemTuples (r : DictRef) : Run (List Value) := do
  (← r.pairs).mapM fun (key, value) => Run.newTuple [key, value]

def entry? (r : DictRef) (position : Nat) : Run (Option (Entry Value Value)) :=
  Run.readStore fun s => (s.dict r).table.entry? position

def modify (r : DictRef) (f : Table Value Value → Table Value Value) : Run Unit :=
  Run.modifyStore (·.modifyDict r fun o =>
    { o with table := f o.table, version := o.version + 1 })

def findCandidate (h : Hooks) (key : Value) : List (Nat × Value) → Run (Option Nat)
  | [] => return none
  | (position, candidate) :: rest => do
    if candidate.isSame key then return some position
    else if ← Protocol.equals h candidate key then return some position
    else findCandidate h key rest

/-- One search. What it found counts only if the dictionary is at the same version afterwards. -/
def lookupOnce (h : Hooks) (r : DictRef) (key : Value) (hash : HashCode) :
    Run (Option (Option Nat)) := do
  let o ← r.object
  let found ← findCandidate h key (o.table.candidates hash)
  return if (← r.version) = o.version then some found else none

/-- Searches again, so many times at most, while other code keeps changing the dictionary. -/
def lookupLoop (h : Hooks) (r : DictRef) (key : Value) (hash : HashCode) : Nat → Run (Option Nat)
  | 0 => do
    match ← lookupOnce h r key hash with
    | some found => return found
    | none => Run.outOfFuel
  | retries + 1 => do
    match ← lookupOnce h r key hash with
    | some found => return found
    | none => lookupLoop h r key hash retries

def lookup (h : Hooks) (r : DictRef) (key : Value) (hash : HashCode) : Run (Option Nat) :=
  lookupLoop h r key hash h.fuel

def get? (h : Hooks) (r : DictRef) (key : Value) : Run (Option Value) := do
  let hash ← Protocol.hash h key
  match ← lookup h r key hash with
  | some position => return (← r.entry? position).map Entry.value
  | none => return none

def raiseMissing {α : Type} (h : Hooks) (key : Value) : Run α := do
  Run.raise (.keyMissing (← Protocol.repr h key))

def getItem (h : Hooks) (r : DictRef) (key : Value) : Run Value := do
  match ← get? h r key with
  | some v => return v
  | none => raiseMissing h key

def contains (h : Hooks) (r : DictRef) (key : Value) : Run Bool := do
  let hash ← Protocol.hash h key
  return (← lookup h r key hash).isSome

/-- Gives a key a value; an equal key that is present keeps its place and stays the key. -/
def set (h : Hooks) (r : DictRef) (key value : Value) : Run Unit := do
  let hash ← Protocol.hash h key
  match ← lookup h r key hash with
  | some position => r.modify (·.setValue position value)
  | none => r.modify (·.insertNew hash key value)

def setAll (h : Hooks) (r : DictRef) : List (Value × Value) → Run Unit
  | [] => return ()
  | (key, value) :: rest => do
    set h r key value
    setAll h r rest

def take? (h : Hooks) (r : DictRef) (key : Value) : Run (Option Value) := do
  let hash ← Protocol.hash h key
  match ← lookup h r key hash with
  | none => return none
  | some position =>
    let entry ← r.entry? position
    r.modify (·.remove position)
    return entry.map Entry.value

def delete (h : Hooks) (r : DictRef) (key : Value) : Run Unit := do
  match ← take? h r key with
  | some _ => return ()
  | none => raiseMissing h key

def pop (h : Hooks) (r : DictRef) (key : Value) (default : Option Value) : Run Value := do
  match ← take? h r key, default with
  | some v, _ => return v
  | none, some v => return v
  | none, none => raiseMissing h key

def setDefault (h : Hooks) (r : DictRef) (key default : Value) : Run Value := do
  let hash ← Protocol.hash h key
  match ← lookup h r key hash with
  | some position => return ((← r.entry? position).map Entry.value).getD .none
  | none =>
    r.modify (·.insertNew hash key default)
    return default

/-- Removes the entry that was added last. The attempt counts as a change even if it fails. -/
def popItem (r : DictRef) : Run (Value × Value) := do
  match ← Run.readStore fun s => (s.dict r).table.last? with
  | some (position, entry) =>
    r.modify (·.remove position)
    return (entry.key, entry.value)
  | none =>
    r.modify id
    Run.raise .popitemEmpty

def clear (r : DictRef) : Run Unit := r.modify Table.clear

def copy (r : DictRef) : Run DictRef := do
  let table ← r.table
  Run.changeStore (·.addDict table)

def new : Run DictRef := Run.changeStore (·.addDict .empty)

/-- Reads one element of an update sequence as a key and a value. -/
def pairOf (h : Hooks) (index : Nat) (element : Value) : Run (Value × Value) := do
  match ← (Protocol.openIterator h element).attempt with
  | .error _ => Run.raise (.updateElementType index)
  | .ok it =>
    match ← Protocol.drain h it with
    | [key, value] => return (key, value)
    | items => Run.raise (.updateElementLength index items.length)

def pairsOf (h : Hooks) (source : Value) : Run (List (Value × Value)) := do
  let it ← Protocol.openIterator h source
  let step (acc : Nat × List (Value × Value)) (element : Value) := do
    return (acc.1 + 1, (← pairOf h acc.1 element) :: acc.2)
  return (← Protocol.fold h step (0, []) it).2.reverse

/-- Sets all entries of a dictionary or of an iterable of pairs, which is read before anything is
written. -/
def update (h : Hooks) (r : DictRef) (source : Value) : Run Unit := do
  let entries ←
    match source with
    | .dict other => other.pairs
    | other => pairsOf h other
  setAll h r entries

def ofPairs (h : Hooks) (entries : List (Value × Value)) : Run DictRef := do
  let r ← new
  setAll h r entries
  return r

def ofValue (h : Hooks) (source : Value) : Run DictRef := do
  let r ← new
  update h r source
  return r

def fromKeys (h : Hooks) (iterable value : Value) : Run DictRef := do
  let r ← new
  let it ← Protocol.openIterator h iterable
  Protocol.fold h (fun _ key => set h r key value) () it
  return r

def agrees (h : Hooks) (r : DictRef) : List (Value × Value) → Run Bool
  | [] => return true
  | (key, value) :: rest => do
    match ← get? h r key with
    | none => return false
    | some theirs => if ← Protocol.equals h value theirs then agrees h r rest else return false

def equals (h : Hooks) (r other : DictRef) : Run Bool := do
  if r = other then return true
  let entries ← r.pairs
  if entries.length ≠ (← other.size) then return false
  Run.nested (agrees h other entries)

def entryTexts (h : Hooks) : List (Value × Value) → Run (List String)
  | [] => return []
  | (key, value) :: rest => do
    let left ← Protocol.repr h key
    let right ← Protocol.repr h value
    return (left ++ ": " ++ right) :: (← entryTexts h rest)

def repr (h : Hooks) (r : DictRef) : Run String := do
  let o ← r.object
  Run.printing o.id "\x7b...\x7d" do
    let texts ← entryTexts h o.table.pairs
    return "\x7b" ++ ", ".intercalate texts ++ "\x7d"

end DynamicObjects.DictRef
