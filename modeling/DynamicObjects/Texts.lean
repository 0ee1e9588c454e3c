import DynamicObjects.ByteSequences.Methods

/-!
The operations and methods of text. Its items are characters.
-/
namespace DynamicObjects.Text

def receive (args : List Value) : Except Error (String × List Value) := do
  match ← Arguments.split args with
  | (.str _ text, rest) => .ok (text, rest)
  | (other, _) => .error (.internal s!"str slot called on {other.kind.name}")

def slot (body : String → List Value → Run Value) (args : List Value) : Run Value := do
  let (text, rest) ← receive args
  body text rest

def occursIn (needle : List Char) : List Char → Bool
  | [] => needle.isEmpty
  | c :: rest => needle.isPrefixOf (c :: rest) || occursIn needle rest

/-- Copies of a text, as many as asked for; the length that has to fit is counted in bytes. -/
def repeated (text : String) (count : Int) : Except Error String :=
  if text.isEmpty then .ok ""
  else if Word.sizeMax < text.utf8ByteSize * count.toNat then .error .repeatOverflow
  else .ok (String.ofList (Buffer.copies text.toList count.toNat))

def getItemSlot : Slot := fun _ => slot fun text args => do
  let chars := text.toList.toArray
  match ← Arguments.one "__getitem__" args with
  | .slice s =>
    let p ← s.indices chars.size
    Run.newText (String.ofList (Buffer.select chars p))
  | key =>
    match key.asInt? with
    | none => Run.raise (.badTextIndexType key.kind.name)
    | some i =>
      match (Index.normalize? i.toInt chars.size).bind fun i => chars[i]? with
      | some c => Run.newText (String.singleton c)
      | none => Run.raise .textIndex

def lenSlot : Slot := fun _ => slot fun text args => do
  Arguments.none "__len__" args
  return .ofNat text.length

def containsSlot : Slot := fun _ => slot fun text args => do
  match ← Arguments.one "__contains__" args with
  | .str _ needle => return .bool (occursIn needle.toList text.toList)
  | other => Run.raise (.textMembership other.kind.name)

def addSlot : Slot := fun _ => slot fun text args => do
  match ← Arguments.one "__add__" args with
  | .str _ other => Run.newText (text ++ other)
  | _ => return .notImplemented

def mulSlot : Slot := fun _ => slot fun text args => do
  match (← Arguments.one "__mul__" args).asInt? with
  | some n => Run.newText (← repeated text n.toInt)
  | none => return .notImplemented

def encodeMethod : Slot := fun _ => slot fun text args => do
  let name ← ByteSequence.encodingName "encode" (← Arguments.atMostOne "encode" args)
  Run.newBytes (← Bytes.ofText text name)

def method? : String → Option Slot
  | "encode" => some encodeMethod
  | "__len__" => some lenSlot
  | "__contains__" => some containsSlot
  | _ => none

def operation? : Operation → Option Slot
  | .getItem => some getItemSlot
  | .len => some lenSlot
  | .contains => some containsSlot
  | .binary .add => some addSlot
  | .binary .mul | .reflectedBinary .mul => some mulSlot
  | .invokeMember name => method? name
  | _ => none

end DynamicObjects.Text
