import DynamicObjects.Script.Verbs

/-!
Evaluation of expressions and steps. Both follow the shape of the program; only a call of a function
leads from one program text to another, and that goes through the hooks, whose depth decreases.
-/
namespace DynamicObjects.Script

def Wrapper.wrap (h : Hooks) (w : Wrapper) (v : Value) : Run Value :=
  match w with
  | .list => Run.newListOf [v]
  | .tuple => Run.newTuple [v]
  | .dict => do return .dict (← DictRef.ofPairs h [(.int 0, v)])

def Wrapper.wrapTimes (h : Hooks) (w : Wrapper) : Nat → Value → Run Value
  | 0, v => return v
  | count + 1, v => do w.wrapTimes h count (← w.wrap h v)

/-- The integers from `start` up to, but not including, `stop`. -/
def integers (start stop : Int64) : List Value :=
  (List.range (stop.toInt - start.toInt).toNat).map fun i => .int (start + Int64.ofNat i)

mutual

def Expr.evaluate (h : Hooks) : Expr → Run Value
  | .none => return .none
  | .notImplemented => return .notImplemented
  | .bool b => return .bool b
  | .int n => return .int n
  | .float d => return .float d
  | .str text => Run.newText text
  | .bytes data => Run.newBytes data
  | .byteArray data => Run.newByteArrayOf data
  | .tuple items => do Run.newTuple (← evaluateAll h items)
  | .list items => do Run.newListOf (← evaluateAll h items)
  | .dict pairs => do return .dict (← DictRef.ofPairs h (← evaluatePairs h pairs))
  | .frozenSet items => do Run.newFrozenSet (← SetTable.ofValues h (← evaluateAll h items))
  | .slice s => return .slice s
  | .object number payload => do Run.newObject number (← payload.evaluate h)
  | .var name => readVariable name
  | .range start stop => Run.newListOf (integers start stop)
  | .nest wrapper count inner => do wrapper.wrapTimes h count (← inner.evaluate h)
  | .function name body => do return .native (← Run.fresh) name body

def evaluateAll (h : Hooks) : List Expr → Run (List Value)
  | [] => return []
  | e :: rest => do
    let v ← e.evaluate h
    return v :: (← evaluateAll h rest)

def evaluatePairs (h : Hooks) : List (Expr × Expr) → Run (List (Value × Value))
  | [] => return []
  | (key, value) :: rest => do
    let k ← key.evaluate h
    let v ← value.evaluate h
    return (k, v) :: (← evaluatePairs h rest)

end

/-- Stores a value under the target of a step; a report is not stored. -/
def store (target : Option String) (answer : Answer) : Run Answer := do
  match target, answer with
  | some name, .value v => setVariable name v
  | _, _ => pure ()
  return answer

/-- Finds what a step calls and calls it with the arguments that `operands` gives. A site is held
while the arguments are made and while it is called. -/
def Callee.call (h : Hooks) (callee : Callee) (operands : Run (List Value)) : Run Value :=
  match callee with
  | .thunk name => do
    let t ← Script.thunk name
    Protocol.callThunk h t (← operands)
  | .site name => withSite name fun number => do runSite h number (← operands)

/-- Runs a body for each number below `count`, with the number in the variable `i`. -/
def countUp (body : Run Unit) (count : Nat) : Nat → Run Unit
  | 0 => return ()
  | remaining + 1 => do
    setVariable "i" (.ofNat (count - (remaining + 1)))
    body
    countUp body count remaining

mutual

def Step.run (h : Hooks) : Step → Run Answer
  | .act verb operands target => do
    let args ← evaluateAll h operands
    store target (← verb.run h args)
  | .call callee operands target => do
    store target (.value (← callee.call h (evaluateAll h operands)))
  | .branch condition yes no target => do
    let v ← condition.evaluate h
    if ← Protocol.truthy h v then store target (.value (← runSteps h .none yes))
    else store target (.value (← runSteps h .none no))
  | .loop count body target => do
    countUp (do let _ ← runSteps h .none body) count count
    store target (.value .none)

/-- Runs steps in order and gives the value of the last one, or `last` if there is none. -/
def runSteps (h : Hooks) (last : Value) : List Step → Run Value
  | [] => return last
  | step :: rest => do
    let answer ← step.run h
    runSteps h answer.toValue rest

end

/-- Functions run their body; nothing else can be invoked. -/
def invoke (h : Hooks) (callable : Value) (args : List Value) : Run Value :=
  match callable with
  | .native _ _ body => withFrame args (runSteps h .none body)
  | other => Run.raise (.notCallable other.kind.name)

def enumerate (h : Hooks) (v : Value) : Run (List Value) := do
  let slot ←
    match v with
    | .object _ number _ => Run.readDispatcher (·.model.slot? number "__iter__")
    | _ => pure none
  match slot with
  | some callable => do Protocol.collect h (← invoke h callable [v])
  | none => Run.raise (.notIterable v.kind.name)

/-- The hooks with `depth` calls left. A loop may go round as often. -/
def hooks : Nat → Hooks
  | 0 =>
    { fuel := 0
      hasSlot := Kind.hasSlot
      builtin := fun _ _ _ => Run.outOfFuel
      invoke := fun _ _ => Run.outOfFuel
      enumerate := fun _ => Run.outOfFuel }
  | depth + 1 =>
    { fuel := depth + 1
      hasSlot := Kind.hasSlot
      builtin := fun kind op args =>
        match kind.slot? op with
        | some slot => slot (hooks depth) args
        | none => Run.raise (.internal "no such slot")
      invoke := fun callable args => invoke (hooks depth) callable args
      enumerate := fun v => enumerate (hooks depth) v }

end DynamicObjects.Script
