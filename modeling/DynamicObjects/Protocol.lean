import DynamicObjects.Run
import DynamicObjects.Double.Text
import DynamicObjects.Text.Quoted

/-!
What every value can be asked for: its hash code, its truth, equality and order with another value,
its text, its elements, and any operation at all. Most answers are looked up: the operation is
resolved on the type key of the receiver and the prepared call is run.

Running a built-in slot, invoking a callable and enumerating an object lead back here. They come in
as `Hooks`, so that everything in this file is a definition without recursion through itself; the
hooks of depth `n + 1` are made from those of depth `n` elsewhere.
-/
namespace DynamicObjects

structure Hooks where
  /-- How often a loop that depends on other code may go round. -/
  fuel : Nat
  /-- Whether a built-in kind implements an operation. -/
  hasSlot : Kind → Operation → Bool
  builtin : Kind → Operation → List Value → Run Value
  invoke : Value → List Value → Run Value
  /-- The elements that an object enumerates. -/
  enumerate : Value → Run (List Value)

namespace Value

def isNotImplemented : Value → Bool
  | notImplemented => true
  | _ => false

end Value

namespace Protocol

variable (h : Hooks)

def resolve (op : Operation) (key : TypeKey) : Run Thunk :=
  Run.changeDispatcher (·.resolve h.hasSlot op key)

def runTarget (t : Thunk) (args : List Value) : Run Value :=
  match t.target, t.key with
  | .builtin, .builtin kind => h.builtin kind t.op args
  | .builtin, .userClass _ => Run.raise (.internal "built-in slot on a class")
  | .slot callable, _ => h.invoke callable args
  | .member value, _ => return value
  | .missing, _ => Run.ofExcept t.missing

def traced (t : Thunk) (depth : Nat) (x : Run Value) : Run Value :=
  match t.tracer with
  | none => x
  | some tracer => fun w =>
    let slot := t.op.slotName
    x.andThen
      (fun w => { w with dispatcher := w.dispatcher.tell tracer (.returned slot (depth - 1)) })
      { w with dispatcher := w.dispatcher.tell tracer (.called slot t.typeName depth) }

def callThunk (t : Thunk) (args : List Value) : Run Value :=
  if t.limited then Run.limited fun depth => traced t depth (runTarget h t args)
  else fun w => traced t w.depth (runTarget h t args) w

def receiver (args : List Value) : Value := args.headD .none

def callSlot (op : Operation) (args : List Value) : Run Value := do
  callThunk h (← resolve h op (receiver args).typeKey) args

def textElements (text : String) : Run (List Value) :=
  text.toList.mapM fun c => Run.newText (String.singleton c)

def openIterator (v : Value) : Run Iterator :=
  match v with
  | .list r => return .ofList r
  | .tuple _ items => return .elements items
  | .str _ text => return .elements (← textElements text)
  | .bytes _ data => return .elements (data.map fun b => .int (Int64.ofNat b.toNat))
  | .byteArray r => return .ofByteArray r
  | .dict r | .dictKeys r => Run.readStore fun s => .ofDict s r .keys
  | .dictValues r => Run.readStore fun s => .ofDict s r .values
  | .dictItems r => Run.readStore fun s => .ofDict s r .items
  | .frozenSet _ t => return .elements t.keys
  | .object .. => return .enumerated (← h.enumerate v)
  | other => do Run.raise (.notIterable (← Run.typeName other))

def dictPart (part : DictPart) (e : Entry Value Value) : Run Value :=
  match part with
  | .keys => return e.key
  | .values => return e.value
  | .items => Run.newTuple [e.key, e.value]

/-- One step of an iterator: an element, the end, or an error, and the iterator after it. -/
def step (it : Iterator) : Run (Except Error (Option Value) × Iterator) :=
  match it with
  | .elements [] => return (.ok none, it)
  | .elements (v :: rest) => return (.ok (some v), .elements rest)
  | .list r cursor => Run.readStore fun s =>
    match (s.list r).buffer.items[cursor]? with
    | some v => (.ok (some v), .list r (cursor + 1))
    | none => (.ok none, it)
  | .listBackwards r cursor => Run.readStore fun s =>
    let items := (s.list r).buffer.items
    match min cursor items.size with
    | 0 => (.ok none, .listBackwards r 0)
    | before + 1 => (.ok items[before]?, .listBackwards r before)
  | .byteArray r cursor => Run.readStore fun s =>
    match (s.byteArray r).buffer.items[cursor]? with
    | some b => (.ok (some (.int (Int64.ofNat b.toNat))), .byteArray r (cursor + 1))
    | none => (.ok none, it)
  | .dict _ _ _ _ _ true => return (.ok none, it)
  | .dict r part position size layout false => do
    match ← Run.readStore fun s => (s.dict r).table.step position size layout with
    | .error e => return (.error e, .dict r part position size layout true)
    | .ok none => return (.ok none, .dict r part position size layout true)
    | .ok (some (found, e)) =>
      return (.ok (some (← dictPart part e)), .dict r part (found + 1) size layout false)
  | .enumerated [] => return (.ok none, it)
  | .enumerated (v :: rest) =>
    match v with
    | .native .. => do
      let result ← (h.invoke v []).attempt
      return (result.map some, .enumerated rest)
    | other => return (.ok (some other), .enumerated rest)

/-- Feeds the elements of an iterator to `f`, one by one, until `f` has an answer. -/
def search {α β : Type} (f : α → Value → Run (α ⊕ β)) : Nat → α → Iterator → Run (α ⊕ β)
  | 0, _, _ => Run.outOfFuel
  | fuel + 1, acc, it => do
    let (result, it) ← step h it
    match ← Run.ofExcept result with
    | none => return .inl acc
    | some v =>
      match ← f acc v with
      | .inl acc => search f fuel acc it
      | .inr answer => return .inr answer

def fold {α : Type} (f : α → Value → Run α) (acc : α) (it : Iterator) : Run α := do
  match ← search h (β := Empty) (fun acc v => return .inl (← f acc v)) h.fuel acc it with
  | .inl acc => return acc
  | .inr answer => nomatch answer

def drain (it : Iterator) : Run (List Value) := do
  return (← fold h (fun acc v => return v :: acc) [] it).reverse

def collect (v : Value) : Run (List Value) :=
  match v with
  | .list r => Run.readStore fun s => (s.list r).buffer.toList
  | .tuple _ items => return items
  | other => do drain h (← openIterator h other)

def len (v : Value) : Run Nat := do
  match ← callSlot h .len [v] with
  | .int n => if 0 ≤ n.toInt then return n.toInt.toNat else Run.raise .negativeLength
  | other => Run.raise (.notInteger (← Run.typeName other))

/-- An object is true unless its class says otherwise, by a truth slot or by a length of zero. -/
def objectTruthy (v : Value) : Run Bool := do
  let truth ← resolve h .truth v.typeKey
  if truth.isMissing then
    let length ← resolve h .len v.typeKey
    if length.isMissing then return true else return (← len h v) != 0
  else
    match ← callThunk h truth [v] with
    | .bool b => return b
    | other => Run.raise (.truthNotBool (← Run.typeName other))

def truthy (v : Value) : Run Bool :=
  match v with
  | .none => return false
  | .notImplemented | .slice _ | .native .. => return true
  | .bool b => return b
  | .int n => return n != 0
  | .float d => return !d.isZero
  | .str _ text => return !text.isEmpty
  | .bytes _ data => return !data.isEmpty
  | .byteArray r => Run.readStore fun s => (s.byteArray r).buffer.size != 0
  | .tuple _ items => return !items.isEmpty
  | .list r => Run.readStore fun s => (s.list r).buffer.size != 0
  | .dict r | .dictKeys r | .dictValues r | .dictItems r =>
    Run.readStore fun s => (s.dict r).table.size != 0
  | .frozenSet _ t => return t.size != 0
  | .object .. => objectTruthy h v

def noneHash : HashCode := 0xFCA86420

def notImplementedHash : HashCode := 0x7E57AB1E

/-- Codes of identities start far above those of the integers that programs use as keys. -/
def identityCode (id : Identity) : HashCode := 0x80000000000 + UInt64.ofNat id

def identityHash (v : Value) : Run HashCode :=
  Run.readStore fun s => ((s.identity? v).map identityCode).getD 0

def slotHash (v : Value) : Run HashCode := do
  let thunk ← resolve h .hash v.typeKey
  if thunk.isMissing then identityHash v
  else
    match ← callThunk h thunk [v] with
    | .int n => return HashCode.ofInt n
    | .bool b => return HashCode.ofInt (Word.ofBool b)
    | _ => Run.raise .hashNotInteger

mutual

def hash : Value → Run HashCode
  | .none => return noneHash
  | .notImplemented => return notImplementedHash
  | .bool b => return HashCode.ofInt (Word.ofBool b)
  | .int n => return HashCode.ofInt n
  | .float d => return HashCode.ofDouble d
  | .str _ text => return HashCode.ofText text
  | .bytes _ data => return HashCode.ofBytes data
  | .tuple _ items => Run.nested do return HashCode.ofTuple (← hashAll items)
  | .frozenSet _ t => return HashCode.ofSet t.hashes
  | other => slotHash h other

def hashAll : List Value → Run (List HashCode)
  | [] => return []
  | v :: rest => do
    let code ← hash v
    return code :: (← hashAll rest)

end

/-- Comparison where no type is asked. A NaN is unequal to everything and in no order. -/
def intrinsicAnswer (op : CompareOp) : Option Ordering → Bool
  | some order => op.holds order
  | none => op == .ne

def compare (op : CompareOp) (a b : Value) : Run Value := do
  match ← Run.readStore (·.intrinsicCompare? a b) with
  | some order => return .bool (intrinsicAnswer op order)
  | none =>
    let forward ← callSlot h (.compare op) [a, b]
    if !forward.isNotImplemented then return forward
    let reflected ← callSlot h (.compare op.reflected) [b, a]
    if !reflected.isNotImplemented then return reflected
    match op with
    | .eq => return .bool (a.isSame b)
    | .ne => return .bool (!a.isSame b)
    | _ => Run.raise (.notOrdered op.symbol (← Run.typeName a) (← Run.typeName b))

def compareBool (op : CompareOp) (a b : Value) : Run Bool := do
  match ← compare h op a b with
  | .bool b => return b
  | other => truthy h other

def lessThan (a b : Value) : Run Bool := compareBool h .lt a b

/-- Equality as containers see it: one and the same object is always equal to itself. -/
def equals (a b : Value) : Run Bool := do
  if a.isSame b then return true
  match ← Run.readStore (·.intrinsicEq? a b) with
  | some answer => return answer
  | none => compareBool h .eq a b

/-- The elements of two sequences, decided by the first pair that is not equal. -/
def compareElements (op : CompareOp) : List Value → List Value → Run Bool
  | [], [] => return op.holds .eq
  | [], _ :: _ => return op.holds .lt
  | _ :: _, [] => return op.holds .gt
  | a :: as, b :: bs => do
    if ← equals h a b then compareElements op as bs
    else
      match op with
      | .eq => return false
      | .ne => return true
      | _ => compareBool h op a b

def equalElements : List Value → List Value → Run Bool
  | a :: as, b :: bs => do if ← equals h a b then equalElements as bs else return false
  | _, _ => return true

def containsElement (needle : Value) : List Value → Run Bool
  | [] => return false
  | v :: rest => do if ← equals h v needle then return true else containsElement needle rest

/-- The receiver's own slot first, then, for another type, the reflected slot of the other operand. -/
def binaryDispatch (op : BinaryOp) (a b : Value) : Run (Option Value) := do
  let forward ← callSlot h (.binary op) [a, b]
  if !forward.isNotImplemented then return some forward
  if a.typeKey = b.typeKey then return none
  let reflected ← callSlot h (.reflectedBinary op) [b, a]
  return if reflected.isNotImplemented then none else some reflected

def binary (op : BinaryOp) (a b : Value) : Run Value := do
  match ← binaryDispatch h op a b with
  | some v => return v
  | none => Run.raise (.unsupportedOperands op.symbol (← Run.typeName a) (← Run.typeName b))

def inPlace (op : BinaryOp) (a b : Value) : Run Value := do
  let result ← callSlot h (.inPlace op) [a, b]
  if !result.isNotImplemented then return result
  match ← binaryDispatch h op a b with
  | some v => return v
  | none => Run.raise (.unsupportedOperands op.inPlaceSymbol (← Run.typeName a) (← Run.typeName b))

def unary (op : UnaryOp) (a : Value) : Run Value := do
  let result ← callSlot h (.unary op) [a]
  if result.isNotImplemented then Run.raise (.badOperand op.symbol (← Run.typeName a))
  else return result

def getItem (container key : Value) : Run Value := callSlot h .getItem [container, key]

def setItem (container key value : Value) : Run Unit := do
  let _ ← callSlot h .setItem [container, key, value]

def delItem (container key : Value) : Run Unit := do
  let _ ← callSlot h .delItem [container, key]

def containsByIteration (container item : Value) : Run Bool := do
  let it ← openIterator h container
  let test (_ : Unit) (v : Value) : Run (Unit ⊕ Unit) :=
    return if ← equals h v item then .inr () else .inl ()
  match ← search h test h.fuel () it with
  | .inl _ => return false
  | .inr _ => return true

def contains (container item : Value) : Run Bool := do
  let thunk ← resolve h .contains container.typeKey
  if thunk.isMissing then containsByIteration h container item
  else truthy h (← callThunk h thunk [container, item])

def callMethod (v : Value) (name : String) (args : List Value) : Run Value :=
  callSlot h (.invokeMember name) (v :: args)

def getMember (v : Value) (name : String) : Run Value := callSlot h (.getMember name) [v]

def expectText (v : Value) : Run String := do
  match v with
  | .str _ text => return text
  | other => Run.raise (.reprNotText (← Run.typeName other))

def defaultRepr (v : Value) : Run String := do
  let name ← Run.typeName v
  let code ← identityHash v
  return "<" ++ name ++ " object at 0x" ++ String.ofList (Nat.toDigits 16 code.toNat) ++ ">"

def repr (v : Value) : Run String :=
  match v with
  | .none => return "None"
  | .notImplemented => return "NotImplemented"
  | .bool b => return if b then "True" else "False"
  | .int n => return toString n.toInt
  | .float d => return d.describe
  | .str _ text => return Text.quoted text
  | .bytes _ data => return Bytes.quoted data
  | .object .. => do
    let thunk ← resolve h .repr v.typeKey
    if thunk.isMissing then defaultRepr v else expectText (← callThunk h thunk [v])
  | other => do expectText (← callSlot h .repr [other])

def reprAll : List Value → Run (List String)
  | [] => return []
  | v :: rest => do
    let text ← repr h v
    return text :: (← reprAll rest)

end Protocol

end DynamicObjects
