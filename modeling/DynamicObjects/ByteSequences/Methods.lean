import DynamicObjects.ByteSequences.Basic
import DynamicObjects.Text.Quoted

/-!
The operations and methods that byte strings and byte arrays share.
-/
namespace DynamicObjects.ByteSequence

def containsSlot (q : ByteSequence) : Slot := fun _ => q.slot fun data args => do
  let v ← Arguments.one "__contains__" args
  let needle ←
    match ← bytesLike? v with
    | some needle => pure needle
    | none =>
      if v.asInt?.isSome then do pure [← byteOf v]
      else Run.raise (.bytesLikeRequired v.kind.name)
  return .bool (data.find needle 0 data.length).isSome

def reprSlot (q : ByteSequence) : Slot := fun _ => q.slot fun data _ =>
  let literal := Bytes.quoted data
  match q with
  | .string => Run.newText literal
  | .array => Run.newText ("bytearray(" ++ literal ++ ")")

def addSlot (q : ByteSequence) : Slot := fun _ => q.slot fun data args => do
  match ← bytesLike? (← Arguments.one "__add__" args) with
  | some other => q.make (data ++ other)
  | none => return .notImplemented

def countMethod (q : ByteSequence) : Slot := fun _ => q.slot fun data args => do
  let (needle, lo, hi) ← searchArguments data "count" args
  return .ofNat (data.count needle lo hi)

/-- A search that answers -1 when nothing is found. -/
def findMethod (name : String) (search : Bytes → Bytes → Nat → Nat → Option Nat)
    (q : ByteSequence) : Slot := fun _ => q.slot fun data args => do
  let (needle, lo, hi) ← searchArguments data name args
  return position (search data needle lo hi)

/-- A search that fails when nothing is found. -/
def indexMethod (name : String) (search : Bytes → Bytes → Nat → Nat → Option Nat)
    (q : ByteSequence) : Slot := fun _ => q.slot fun data args => do
  let (needle, lo, hi) ← searchArguments data name args
  match search data needle lo hi with
  | some i => return .ofNat i
  | none => Run.raise .subsectionNotFound

def affixMethod (name : String) (test : Bytes → Bytes → Nat → Nat → Bool)
    (q : ByteSequence) : Slot := fun _ => q.slot fun data args => do
  let (affix, start, stop) ← Arguments.oneToThree name args
  let candidates ←
    match affix with
    | .tuple _ items => items.mapM expectBytesLike
    | v => do
      match ← bytesLike? v with
      | some one => pure [one]
      | none => Run.raise (.affixType name v.kind.name)
  let start ← Arguments.optionalIndex start
  let stop ← Arguments.optionalIndex stop
  let (lo, hi) := searchRange start stop data.length
  return .bool (candidates.any fun affix => test data affix lo hi)

def replaceMethod (q : ByteSequence) : Slot := fun _ => q.slot fun data args => do
  let (old, new, most) ←
    match args with
    | [old, new] => pure (old, new, -1)
    | [old, new, most] => do pure (old, new, (← most.asIndex).toInt)
    | other => Run.raise (.argumentCount "replace" 2 other.length)
  let old ← expectBytesLike old
  let new ← expectBytesLike new
  q.make (data.replace old new most)

def stripMethod (name : String) (cut : Bytes → Option Bytes → Bytes) (q : ByteSequence) : Slot :=
  fun _ => q.slot fun data args => do
    let chars ← stripArguments name args
    q.make (cut data chars)

def withoutFront (data affix : Bytes) : Bytes :=
  if affix.isPrefixOf data then data.drop affix.length else data

def withoutBack (data affix : Bytes) : Bytes :=
  if affix.isSuffixOf data then data.take (data.length - affix.length) else data

def removeAffixMethod (name : String) (cut : Bytes → Bytes → Bytes) (q : ByteSequence) : Slot :=
  fun _ => q.slot fun data args => do
    let affix ← expectBytesLike (← Arguments.one name args)
    q.make (cut data affix)

def splitMethod (name : String)
    (cut : Bytes → Option Bytes → Int → Except Error (List Bytes)) (q : ByteSequence) : Slot :=
  fun _ => q.slot fun data args => do
    let (sep, most) ← splitArguments name args
    let parts ← cut data sep most
    q.listOf parts

/-- The truth of the flag may run other code, so the bytes are read after it is known. -/
def splitLinesMethod (q : ByteSequence) : Slot := fun h args => do
  let (v, rest) ← q.receive args
  let keepEnds ←
    match ← Arguments.atMostOne "splitlines" rest with
    | some flag => Protocol.truthy h flag
    | none => pure false
  q.listOf ((← bytesNow v).splitLines keepEnds)

def partitionMethod (name : String)
    (cut : Bytes → Bytes → Except Error (Bytes × Bytes × Bytes)) (q : ByteSequence) : Slot :=
  fun _ => q.slot fun data args => do
    let sep ← expectBytesLike (← Arguments.one name args)
    let parts ← cut data sep
    q.tupleOf parts

/-- The bytes of one joined item; `index` words the complaint. -/
def joinPart (index : Nat) (item : Value) : Run Bytes := do
  match ← bytesLike? item with
  | some data => return data
  | none => Run.raise (.joinItem index (← Run.typeName item))

def joinMethod (q : ByteSequence) : Slot := fun h => q.slot fun sep args => do
  let it ← Protocol.openIterator h (← Arguments.one "join" args)
  let step (acc : Nat × List Bytes) (item : Value) := do
    return (acc.1 + 1, (← joinPart acc.1 item) :: acc.2)
  let (_, parts) ← Protocol.fold h step (0, []) it
  q.make (Bytes.join sep parts.reverse)

def justifyMethod (name : String) (pad : Bytes → Int → UInt8 → Bytes) (q : ByteSequence) : Slot :=
  fun _ => q.slot fun data args => do
    let (width, fill) ← widthArguments name args
    q.make (pad data width fill)

def zfillMethod (q : ByteSequence) : Slot := fun _ => q.slot fun data args => do
  let width ← (← Arguments.one "zfill" args).asIndex
  q.make (data.zfill width.toInt)

def expandTabsMethod (q : ByteSequence) : Slot := fun _ => q.slot fun data args => do
  let size : Int ←
    match ← Arguments.atMostOne "expandtabs" args with
    | some v => do pure (← v.asIndex).toInt
    | none => pure 8
  q.make (data.expandTabs size)

def translateMethod (q : ByteSequence) : Slot := fun _ => q.slot fun data args => do
  let (table, deleted) ← Arguments.oneOrTwo "translate" args
  let table ←
    match table with
    | .none => pure none
    | v => do pure (some (← expectBytesLike v))
  let deleted ←
    match deleted with
    | none => pure []
    | some v => expectBytesLike v
  q.make (← data.translate table deleted)

/-- A table of substitutions, which is a byte string whatever the receiver is. -/
def maketransMethod : Slot := fun _ args => do
  let (_, rest) ← Arguments.split args
  let (source, target) ← Arguments.two "maketrans" rest
  let source ← expectBytesLike source
  let target ← expectBytesLike target
  Run.newBytes (← Bytes.maketrans source target)

def transformMethod (name : String) (f : Bytes → Bytes) (q : ByteSequence) : Slot :=
  fun _ => q.slot fun data args => do
    Arguments.none name args
    q.make (f data)

def testMethod (name : String) (test : Bytes → Bool) (q : ByteSequence) : Slot :=
  fun _ => q.slot fun data args => do
    Arguments.none name args
    return .bool (test data)

def hexMethod (q : ByteSequence) : Slot := fun _ => q.slot fun data args => do
  let sep ←
    match ← Arguments.atMostOne "hex" args with
    | none => pure ""
    | some (.str _ text) => pure text
    | some v => do
      match ← bytesLike? v with
      | some raw => liftM (raw.decode "ascii")
      | none => Run.raise .hexSeparatorType
  Run.newText (data.toHex sep)

def fromHexMethod (q : ByteSequence) : Slot := fun _ => q.slot fun _ args => do
  match ← Arguments.one "fromhex" args with
  | .str _ text => q.make (← Bytes.ofHex text)
  | other => Run.raise (.hexTextType other.kind.name)

def encodingName (method : String) : Option Value → Except Error String
  | none => .ok "utf-8"
  | some (.str _ name) => .ok name
  | some other => .error (.encodingType method other.kind.name)

def decodeMethod (q : ByteSequence) : Slot := fun _ => q.slot fun data args => do
  let (encoding, _) ← Arguments.atMostTwo "decode" args
  let name ← encodingName "decode" encoding
  Run.newText (← data.decode name)

def readingMethod? (q : ByteSequence) : String → Option Slot
  | "count" => some q.countMethod
  | "find" => some (findMethod "find" Bytes.find q)
  | "rfind" => some (findMethod "rfind" Bytes.rfind q)
  | "index" => some (indexMethod "index" Bytes.find q)
  | "rindex" => some (indexMethod "rindex" Bytes.rfind q)
  | "startswith" => some (affixMethod "startswith" Bytes.startsWith q)
  | "endswith" => some (affixMethod "endswith" Bytes.endsWith q)
  | "replace" => some q.replaceMethod
  | "strip" => some (stripMethod "strip" Bytes.strip q)
  | "lstrip" => some (stripMethod "lstrip" Bytes.lstrip q)
  | "rstrip" => some (stripMethod "rstrip" Bytes.rstrip q)
  | "removeprefix" => some (removeAffixMethod "removeprefix" withoutFront q)
  | "removesuffix" => some (removeAffixMethod "removesuffix" withoutBack q)
  | "center" => some (justifyMethod "center" Bytes.center q)
  | "ljust" => some (justifyMethod "ljust" Bytes.ljust q)
  | "rjust" => some (justifyMethod "rjust" Bytes.rjust q)
  | "zfill" => some q.zfillMethod
  | "expandtabs" => some q.expandTabsMethod
  | "translate" => some q.translateMethod
  | "lower" => some (transformMethod "lower" Bytes.lower q)
  | "upper" => some (transformMethod "upper" Bytes.upper q)
  | "swapcase" => some (transformMethod "swapcase" Bytes.swapCase q)
  | "title" => some (transformMethod "title" Bytes.title q)
  | "capitalize" => some (transformMethod "capitalize" Bytes.capitalize q)
  | "isalpha" => some (testMethod "isalpha" Bytes.isAlpha q)
  | "isdigit" => some (testMethod "isdigit" Bytes.isDecimal q)
  | "isalnum" => some (testMethod "isalnum" Bytes.isAlphanumeric q)
  | "isspace" => some (testMethod "isspace" Bytes.isSpace q)
  | "islower" => some (testMethod "islower" Bytes.isLower q)
  | "isupper" => some (testMethod "isupper" Bytes.isUpper q)
  | "istitle" => some (testMethod "istitle" Bytes.isTitle q)
  | "split" => some (splitMethod "split" Bytes.split q)
  | "rsplit" => some (splitMethod "rsplit" Bytes.rsplit q)
  | "splitlines" => some q.splitLinesMethod
  | "partition" => some (partitionMethod "partition" Bytes.partition q)
  | "rpartition" => some (partitionMethod "rpartition" Bytes.rpartition q)
  | "join" => some q.joinMethod
  | "hex" => some q.hexMethod
  | "fromhex" => some q.fromHexMethod
  | "maketrans" => some maketransMethod
  | "decode" => some q.decodeMethod
  | "__contains__" => some q.containsSlot
  | "__repr__" => some q.reprSlot
  | "__add__" => some q.addSlot
  | _ => none

def readingOperation? (q : ByteSequence) : Operation → Option Slot
  | .contains => some q.containsSlot
  | .repr => some q.reprSlot
  | .invokeMember name => q.readingMethod? name
  | _ => none

def getItemSlot : Slot := fun _ => string.slot fun data args => do
  match ← Arguments.one "__getitem__" args with
  | .slice s =>
    let p ← s.indices data.length
    Run.newBytes (Buffer.select data.toArray p)
  | key =>
    match key.asInt? with
    | none => Run.raise (.badIndexType Kind.bytes.name key.kind.name)
    | some i =>
      match (Index.normalize? i.toInt data.length).bind fun i => data[i]? with
      | some b => return .ofNat b.toNat
      | none => Run.raise .bytesIndex

def lenSlot : Slot := fun _ => string.slot fun data args => do
  Arguments.none "__len__" args
  return .ofNat data.length

/-- Copies of the bytes, as many as asked for; too many to fit in memory are refused. -/
def repeated (data : Bytes) (count : Int) : Except Error Bytes :=
  if data.isEmpty then .ok []
  else if Word.allocationMax < data.length * count.toNat then .error .repeatOverflow
  else .ok (List.replicate count.toNat data).flatten

def mulSlot : Slot := fun _ => string.slot fun data args => do
  match (← Arguments.one "__mul__" args).asInt? with
  | some n => Run.newBytes (← repeated data n.toInt)
  | none => return .notImplemented

def stringMethod? : String → Option Slot
  | "__getitem__" => some getItemSlot
  | "__len__" => some lenSlot
  | "__mul__" => some mulSlot
  | name => string.readingMethod? name

def stringOperation? : Operation → Option Slot
  | .getItem => some getItemSlot
  | .len => some lenSlot
  | .binary .add => some string.addSlot
  | .binary .mul | .reflectedBinary .mul => some mulSlot
  | .invokeMember name => stringMethod? name
  | op => string.readingOperation? op

end DynamicObjects.ByteSequence
