import DynamicObjects.Protocol

/-!
Sets of hashable values in the order of their insertion. A set is built once and never changes, so
its comparisons may run other code without any check afterwards.
-/
namespace DynamicObjects.SetTable

/-- Whether an element, of the given hash code, is among the candidates. -/
def matchesAny (h : Hooks) (v : Value) : List (Nat × Value) → Run Bool
  | [] => return false
  | (_, candidate) :: rest => do
    if candidate.isSame v then return true
    else if ← Protocol.equals h candidate v then return true
    else matchesAny h v rest

def containsHashed (h : Hooks) (t : SetTable) (hash : HashCode) (v : Value) : Run Bool :=
  matchesAny h v (t.candidates hash)

def contains (h : Hooks) (t : SetTable) (v : Value) : Run Bool := do
  containsHashed h t (← Protocol.hash h v) v

def insertHashed (h : Hooks) (t : SetTable) (hash : HashCode) (v : Value) : Run SetTable := do
  if ← containsHashed h t hash v then return t else return t.insertNew hash v ()

def insert (h : Hooks) (t : SetTable) (v : Value) : Run SetTable := do
  insertHashed h t (← Protocol.hash h v) v

def insertAll (h : Hooks) (t : SetTable) : List Value → Run SetTable
  | [] => return t
  | v :: rest => do insertAll h (← insert h t v) rest

def ofValues (h : Hooks) (values : List Value) : Run SetTable := insertAll h .empty values

def ofIterable (h : Hooks) (iterable : Value) : Run SetTable := do
  Protocol.fold h (insert h) .empty (← Protocol.openIterator h iterable)

/-- The set elements of entries whose membership in `other` is `keep`, added to `t`. -/
def addFiltered (h : Hooks) (other : SetTable) (keep : Bool) (t : SetTable) :
    List (Entry Value Unit) → Run SetTable
  | [] => return t
  | e :: rest => do
    if (← containsHashed h other e.hash e.key) = keep then
      addFiltered h other keep (← insertHashed h t e.hash e.key) rest
    else addFiltered h other keep t rest

def filtered (h : Hooks) (t other : SetTable) (keep : Bool) : Run SetTable :=
  addFiltered h other keep .empty t.toList

def addEntries (h : Hooks) (t : SetTable) : List (Entry Value Unit) → Run SetTable
  | [] => return t
  | e :: rest => do addEntries h (← insertHashed h t e.hash e.key) rest

def union (h : Hooks) (t other : SetTable) : Run SetTable := addEntries h t other.toList

def intersection (h : Hooks) (t other : SetTable) : Run SetTable :=
  if t.size ≤ other.size then filtered h t other true else filtered h other t true

def difference (h : Hooks) (t other : SetTable) : Run SetTable := filtered h t other false

def symmetricDifference (h : Hooks) (t other : SetTable) : Run SetTable := do
  addFiltered h t false (← filtered h t other false) other.toList

/-- The operators of sets; other operators have no meaning for them. -/
def algebra (h : Hooks) (op : BinaryOp) (t other : SetTable) : Run (Option SetTable) :=
  match op with
  | .or => return some (← union h t other)
  | .and => return some (← intersection h t other)
  | .xor => return some (← symmetricDifference h t other)
  | .sub => return some (← difference h t other)
  | _ => return none

def containsAll (h : Hooks) (t : SetTable) : List (Entry Value Unit) → Run Bool
  | [] => return true
  | e :: rest => do
    if ← containsHashed h t e.hash e.key then containsAll h t rest else return false

def containsNone (h : Hooks) (t : SetTable) : List (Entry Value Unit) → Run Bool
  | [] => return true
  | e :: rest => do
    if ← containsHashed h t e.hash e.key then return false else containsNone h t rest

def isSubset (h : Hooks) (t other : SetTable) : Run Bool :=
  if other.size < t.size then return false else containsAll h other t.toList

def isDisjoint (h : Hooks) (t other : SetTable) : Run Bool :=
  if t.size ≤ other.size then containsNone h other t.toList else containsNone h t other.toList

def compare (h : Hooks) (op : CompareOp) (t other : SetTable) : Run Bool :=
  match op with
  | .eq => if t.size = other.size then isSubset h t other else return false
  | .ne => if t.size = other.size then return !(← isSubset h t other) else return true
  | .le => isSubset h t other
  | .lt => if t.size < other.size then isSubset h t other else return false
  | .ge => isSubset h other t
  | .gt => if other.size < t.size then isSubset h other t else return false

def repr (h : Hooks) (id : Identity) (t : SetTable) : Run String :=
  if t.size = 0 then return "frozenset()"
  else Run.printing id "frozenset(...)" do
    let texts ← Protocol.reprAll h t.keys
    return "frozenset(\x7b" ++ ", ".intercalate texts ++ "\x7d)"

end DynamicObjects.SetTable
