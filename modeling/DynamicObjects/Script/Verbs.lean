import DynamicObjects.Slots
import DynamicObjects.Script.Variables
import DynamicObjects.Script.Report
import DynamicObjects.Value.Debug

/-!
What each verb does to its operands.
-/
namespace DynamicObjects.Script

/-- The fault of a step whose operands do not fit its verb. -/
def malformed {α : Type} : Run α := Run.raise (.internal "malformed step")

def oneOperand {α : Type} (operands : List Value) (f : Value → Run α) : Run α :=
  match operands with
  | [a] => f a
  | _ => malformed

def twoOperands {α : Type} (operands : List Value) (f : Value → Value → Run α) : Run α :=
  match operands with
  | [a, b] => f a b
  | _ => malformed

def giveValue (v : Value) : Run Answer := return .value v

def giveFlag (b : Bool) : Run Answer := return .value (.bool b)

def giveText (text : String) : Run Answer := return .value (← Run.newText text)

def giveReport (r : Report) : Run Answer := return .report r

def giveNothing : Run Answer := return .value .none

/-- Replaces every hexadecimal number of a text by a question mark; `inside` says that one is being
passed over. -/
def maskNumbers (inside : Bool) : List Char → List Char
  | '0' :: 'x' :: rest =>
    if inside then maskNumbers false ('x' :: rest) else '0' :: 'x' :: '?' :: maskNumbers true rest
  | c :: rest =>
    if inside && (Bytes.hexValue? c).isSome then maskNumbers true rest
    else c :: maskNumbers false rest
  | [] => []

/-- Whether the first of two values that can change is the elder one. -/
def isOlder (a b : Value) : Run Bool :=
  Run.readStore fun s => ((s.identity? a).getD 0) < ((s.identity? b).getD 0)

def payloadOf : Value → Value
  | .object _ _ v => v
  | v => v

def itemOf (index : Int) (v : Value) : Run Value :=
  match v with
  | .list r => r.get index
  | .byteArray r => do return .ofNat (← r.get index).toNat
  | .bytes _ data =>
    match (Index.normalize? index data.length).bind fun i => data[i]? with
    | some b => return .ofNat b.toNat
    | none => Run.raise .bytesIndex
  | _ => malformed

def sliceItems (s : Slice) (v : Value) : Run Value :=
  match v with
  | .list r => r.getSlice s
  | .byteArray r => r.getSlice s
  | _ => malformed

def joinBytes (a b : Value) : Run Value := do
  match ← ByteSequence.bytesLike? a, ← ByteSequence.bytesLike? b with
  | some x, some y => Run.newBytes (x ++ y)
  | _, _ => malformed

def iteratorOver (h : Hooks) (backwards : Bool) (v : Value) : Run Iterator :=
  match backwards, v with
  | true, .list r => Run.readStore fun s => .ofListBackwards s r
  | true, _ => malformed
  | false, v => Protocol.openIterator h v

def nextElement (h : Hooks) (name : String) : Run Answer := do
  let (result, it) ← Protocol.step h (← iterator name)
  setIterator name it
  match ← Run.ofExcept result with
  | some v => giveValue v
  | none => giveReport (.text "end")

def newSite (op : Operation) (name : Option String) : Run Unit := do
  let number ← Run.changeDispatcher (·.openSite op)
  match name with
  | some name => setSite name number
  | none => Run.modifyDispatcher (·.releaseSite number)

def runSite (h : Hooks) (number : Nat) (args : List Value) : Run Value := do
  let key := (Protocol.receiver args).typeKey
  let resolved ← Run.change fun w =>
    match w.dispatcher.resolveSite h.hasSlot number key with
    | some (t, dispatcher) => (some t, { w with dispatcher })
    | none => (none, w)
  match resolved with
  | some t => Protocol.callThunk h t args
  | none => Run.raise (.internal "no such site")

def installTracer (choice : Option TracerChoice) : Run Unit :=
  match choice with
  | none => Run.modifyDispatcher (·.setTracer none)
  | some .silent => Run.modifyDispatcher (·.setTracer (some .silent))
  | some .log => Run.modifyDispatcher (·.setTracer (some .log))
  | some .recording => do
    let number ← Run.changeDispatcher (·.addRecorder)
    modifySession fun s => { s with recorder := some (number, 0) }
    Run.modifyDispatcher (·.setTracer (some (.recording number)))

/-- The events that the recorder installed last has heard since they were taken, the earliest
first. -/
def takeEvents (keep : Bool) : Run (List TraceEvent) := do
  match ← Run.read fun w => w.session.recorder with
  | none => return []
  | some (number, taken) =>
    let heard ← Run.readDispatcher (·.heard number)
    if keep then return heard.drop taken
    modifySession fun s => { s with recorder := some (number, heard.length) }
    return heard.drop taken

/-- The log lines since the last time, the earliest first. -/
def takeLog : Run (List String) :=
  Run.changeDispatcher fun d => (d.log.reverse, { d with log := [] })

/-- The slot lookups since the last time, the earliest first. -/
def takeLookups : Run (List String) :=
  Run.changeDispatcher fun d =>
    (d.model.lookups.reverse, { d with model := { d.model with lookups := [] } })

def modifyModel (f : ClassModel → ClassModel) : Run Unit :=
  Run.modifyDispatcher fun d => { d with model := f d.model }

def Verb.run (h : Hooks) (verb : Verb) (operands : List Value) : Run Answer :=
  match verb with
  | .keep => oneOperand operands giveValue
  | .same => twoOperands operands fun a b => giveFlag (a.isSame b)
  | .intrinsicEq => twoOperands operands fun a b => do
    giveReport (.optional .flag (← Run.readStore (·.intrinsicEq? a b)))
  | .intrinsicCompare => twoOperands operands fun a b => do
    giveReport (.ofOrder (← Run.readStore (·.intrinsicCompare? a b)))
  | .info => oneOperand operands fun a => giveReport (.ofInfo a)
  | .asIndex => oneOperand operands fun a => do giveValue (.int (← a.asIndex))
  | .debug => oneOperand operands fun a => do giveText (← Run.readStore fun s => a.debugText s)
  | .payload => oneOperand operands fun a => giveValue (payloadOf a)
  | .older => twoOperands operands fun a b => do giveFlag (← isOlder a b)
  | .typeName => oneOperand operands fun a => do giveText (← Run.typeName a)
  | .hash => oneOperand operands fun a => do
    giveReport (.text (toString (HashCode.signed (← Protocol.hash h a))))
  | .hashStable => oneOperand operands fun a => do
    let first ← Protocol.hash h a
    giveFlag (first == (← Protocol.hash h a))
  | .equals => twoOperands operands fun a b => do giveFlag (← Protocol.equals h a b)
  | .lessThan => twoOperands operands fun a b => do giveFlag (← Protocol.lessThan h a b)
  | .compare op => twoOperands operands fun a b => do giveValue (← Protocol.compare h op a b)
  | .compareBool op => twoOperands operands fun a b => do
    giveFlag (← Protocol.compareBool h op a b)
  | .truthy => oneOperand operands fun a => do giveFlag (← Protocol.truthy h a)
  | .binary op => twoOperands operands fun a b => do giveValue (← Protocol.binary h op a b)
  | .inPlace op => twoOperands operands fun a b => do giveValue (← Protocol.inPlace h op a b)
  | .unary op => oneOperand operands fun a => do giveValue (← Protocol.unary h op a)
  | .getItem => twoOperands operands fun a b => do giveValue (← Protocol.getItem h a b)
  | .setItem =>
    match operands with
    | [a, b, c] => do
      Protocol.setItem h a b c
      giveNothing
    | _ => malformed
  | .delItem => twoOperands operands fun a b => do
    Protocol.delItem h a b
    giveNothing
  | .contains => twoOperands operands fun a b => do giveFlag (← Protocol.contains h a b)
  | .len => oneOperand operands fun a => do giveValue (.ofNat (← Protocol.len h a))
  | .callMethod name =>
    match operands with
    | a :: args => do giveValue (← Protocol.callMethod h a name args)
    | [] => malformed
  | .getMember name => oneOperand operands fun a => do giveValue (← Protocol.getMember h a name)
  | .collect => oneOperand operands fun a => do
    giveValue (← Run.newTuple (← Protocol.collect h a))
  | .repr => oneOperand operands fun a => do giveText (← Protocol.repr h a)
  | .reprMasked => oneOperand operands fun a => do
    giveText (String.ofList (maskNumbers false (← Protocol.repr h a).toList))
  | .invoke =>
    match operands with
    | a :: args => do giveValue (← h.invoke a args)
    | [] => malformed
  | .makeList => oneOperand operands fun a => do giveValue (← ListRef.ofIterable h a)
  | .makeDict => oneOperand operands fun a => do giveValue (.dict (← DictRef.ofValue h a))
  | .fromKeys => twoOperands operands fun a b => do
    giveValue (.dict (← DictRef.fromKeys h a b))
  | .makeBytes => oneOperand operands fun a => do
    giveValue (← Run.newBytes (← ByteSequence.bytesFrom h a))
  | .makeByteArray => oneOperand operands fun a => do
    giveValue (← Run.newByteArrayOf (← ByteSequence.bytesFrom h a))
  | .makeFrozenSet => oneOperand operands fun a => do
    giveValue (← Run.newFrozenSet (← SetTable.ofIterable h a))
  | .encode text encoding => do giveValue (← Run.newBytes (← Bytes.ofText text encoding))
  | .encodeArray text encoding => do
    giveValue (← Run.newByteArrayOf (← Bytes.ofText text encoding))
  | .ofHex text => do giveValue (← Run.newBytes (← Bytes.ofHex text))
  | .buffer => oneOperand operands fun a =>
    match a with
    | .list r => do giveReport (.ofBuffer (← r.buffer))
    | _ => malformed
  | .trim => oneOperand operands fun a =>
    match a with
    | .list r => do
      r.trim
      giveNothing
    | _ => malformed
  | .itemAt index => oneOperand operands fun a => do giveValue (← itemOf index.toInt a)
  | .sliceOf s => oneOperand operands fun a => do giveValue (← sliceItems s a)
  | .concatBytes => twoOperands operands fun a b => do giveValue (← joinBytes a b)
  | .view => oneOperand operands fun a =>
    match DictView.dict? a with
    | some r => do giveReport (← Run.readStore fun s => .ofView s r)
    | none => malformed
  | .openIterator name backwards => oneOperand operands fun a => do
    setIterator name (← iteratorOver h backwards a)
    giveNothing
  | .next name => nextElement h name
  | .dispatch op => do giveValue (← Protocol.callSlot h op operands)
  | .resolve op key name => do
    let t ← Protocol.resolve h op key
    match name with
    | some name => setThunk name t
    | none => pure ()
    giveReport (.ofThunk t)
  | .sameThunk left right => do giveFlag ((← thunk left).id == (← thunk right).id)
  | .openSite op name => do
    newSite op name
    giveNothing
  | .siteInfo name => do
    let number ← site name
    match ← Run.readDispatcher fun d => d.sites[number]? with
    | some s => giveReport (.ofSite s)
    | none => unknownName name
  | .dropSite name => do
    forgetSite name
    giveNothing
  | .stats => do giveReport (← Run.readDispatcher fun d => .ofStats d.stats)
  | .hitRate => do giveReport (← Run.readDispatcher fun d => .real d.stats.hitRate)
  | .version => do giveReport (← Run.readDispatcher fun d => .size d.version)
  | .invalidate => do
    Run.modifyDispatcher (·.invalidateAll)
    giveNothing
  | .notifyClass number => do
    Run.modifyDispatcher (·.notifyTypeChanged number)
    giveNothing
  | .policy => do giveReport (← Run.readDispatcher fun d => .ofPolicy d.policy)
  | .setPolicy tracing recursionLimit => do
    Run.modifyDispatcher (·.setPolicy { tracing, recursionLimit })
    giveNothing
  | .setTracing on => do
    Run.modifyDispatcher (·.setTracing on)
    giveNothing
  | .setLimit limit => do
    Run.modifyDispatcher (·.setRecursionLimit limit)
    giveNothing
  | .setTracer choice => do
    installTracer choice
    giveNothing
  | .events stay => do giveReport (.items ((← takeEvents stay).map .ofEvent))
  | .slotState op key => do
    giveReport (← Run.readDispatcher fun d => .text (d.slotState op key).tag)
  | .sweep => do giveReport (.size (← Run.changeDispatcher (·.sweepNow)))
  | .liveSites => do giveReport (← Run.readDispatcher fun d => .size d.liveSites)
  | .books => do giveReport (← Run.readDispatcher fun d => .ofBooks d.registry)
  | .waitSweeps => giveNothing
  | .depth => do giveReport (← Run.read fun w => .size w.depth)
  | .logs => do giveReport (.items ((← takeLog).map .text))
  | .lookups => do giveReport (.items ((← takeLookups).map .text))
  | .setSlot number name => oneOperand operands fun a => do
    modifyModel (·.setSlot number name a)
    giveNothing
  | .delSlot number name => do
    modifyModel (·.eraseSlot number name)
    giveNothing
  | .raise e => Run.raise (.custom e)

end DynamicObjects.Script
