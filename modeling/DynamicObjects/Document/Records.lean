import DynamicObjects.Document
import DynamicObjects.Dispatch.Policy
import DynamicObjects.Error
import DynamicObjects.Kind
import DynamicObjects.Operation
import DynamicObjects.Slice

/-!
The records of this library as documents, each with its writer and its reader.
-/
namespace DynamicObjects

open Document

namespace Slice

def toDocument (s : Slice) : Document :=
  let word : Option Int64 → Document := optional fun n => integer n.toInt
  fields [("start", word s.start), ("stop", word s.stop), ("step", word s.step)]

def ofDocument? (d : Document) : Option Slice := do
  let parts ← d.parts? ["start", "stop", "step"]
  let start ← optionalPart? parts "start" word?
  let stop ← optionalPart? parts "stop" word?
  let step ← optionalPart? parts "step" word?
  return { start, stop, step }

end Slice

def classNumberMax : Nat := 4294967295

namespace TypeKey

def toDocument : TypeKey → Document
  | builtin kind => choice "Builtin" (text kind.tag)
  | userClass number => choice "Class" (size number)

def ofDocument? (d : Document) : Option TypeKey := do
  match ← d.choice? with
  | ("Builtin", content) => return builtin (← plainChoice? Kind.ofTag? content)
  | ("Class", content) => return userClass (← sizeUpTo? classNumberMax content)
  | _ => none

end TypeKey

namespace Exception

def toDocument (e : Exception) : Document :=
  fields [
    ("exc_type", text e.errorClass.name),
    ("kind", text e.kind.name),
    ("arg", optional text e.message)]

def ofDocument? (d : Document) : Option Exception := do
  let parts ← d.parts? ["exc_type", "kind", "arg"]
  let errorClass ← part? parts "exc_type" (plainChoice? ErrorClass.ofName?)
  let kind ← part? parts "kind" (plainChoice? ErrorKind.ofName?)
  let message ← optionalPart? parts "arg" text?
  return { errorClass, kind, message }

end Exception

namespace Error

def toDocument (e : Error) : Document :=
  match e.exception? with
  | some x => choice "Exc" x.toDocument
  | none => choice "Internal" (text (e.message?.getD ""))

def ofDocument? (d : Document) : Option Error := do
  match ← d.choice? with
  | ("Internal", content) => return internal (← content.text?)
  | ("Exc", content) => return custom (← Exception.ofDocument? content)
  | _ => none

end Error

namespace Operation

def toDocument : Operation → Document
  | binary op => choice "Binary" (text op.tag)
  | reflectedBinary op => choice "ReflectedBinary" (text op.tag)
  | inPlace op => choice "InPlace" (text op.tag)
  | unary op => choice "Unary" (text op.tag)
  | compare op => choice "Compare" (text op.tag)
  | getItem => text "GetItem"
  | setItem => text "SetItem"
  | delItem => text "DelItem"
  | contains => text "Contains"
  | len => text "Len"
  | truth => text "Bool"
  | hash => text "Hash"
  | repr => text "Repr"
  | call => text "Call"
  | getMember name => choice "GetMember" (text name)
  | invokeMember name => choice "InvokeMember" (text name)

def ofDocument? (d : Document) : Option Operation := do
  match ← d.choice? with
  | ("Binary", content) => return binary (← plainChoice? BinaryOp.ofTag? content)
  | ("ReflectedBinary", content) => return reflectedBinary (← plainChoice? BinaryOp.ofTag? content)
  | ("InPlace", content) => return inPlace (← plainChoice? BinaryOp.ofTag? content)
  | ("Unary", content) => return unary (← plainChoice? UnaryOp.ofTag? content)
  | ("Compare", content) => return compare (← plainChoice? CompareOp.ofTag? content)
  | ("GetMember", content) => return getMember (← content.text?)
  | ("InvokeMember", content) => return invokeMember (← content.text?)
  | ("GetItem", null) => return getItem
  | ("SetItem", null) => return setItem
  | ("DelItem", null) => return delItem
  | ("Contains", null) => return contains
  | ("Len", null) => return len
  | ("Bool", null) => return truth
  | ("Hash", null) => return hash
  | ("Repr", null) => return repr
  | ("Call", null) => return call
  | _ => none

end Operation

namespace DispatchPolicy

def toDocument (p : DispatchPolicy) : Document :=
  fields [("tracing", flag p.tracing), ("recursion_limit", optional size p.recursionLimit)]

def ofDocument? (d : Document) : Option DispatchPolicy := do
  let parts ← d.parts? ["tracing", "recursion_limit"]
  let tracing ← part? parts "tracing" flag?
  let recursionLimit ← optionalPart? parts "recursion_limit" size?
  return { tracing, recursionLimit }

end DispatchPolicy

namespace CacheConfig

def toDocument (c : CacheConfig) : Document :=
  fields [
    ("initial_cleanup_threshold", size c.initialCleanupThreshold),
    ("removal_goal", if c.removalGoal.isFinite then real c.removalGoal else null),
    ("cleanup_backoff", size c.cleanupBackoff),
    ("background_sweep", flag c.backgroundSweep)]

def ofDocument? (d : Document) : Option CacheConfig := do
  let parts ← d.parts? ["initial_cleanup_threshold", "removal_goal", "cleanup_backoff",
    "background_sweep"]
  let initialCleanupThreshold ← part? parts "initial_cleanup_threshold" size?
  let removalGoal ← part? parts "removal_goal" real?
  let cleanupBackoff ← part? parts "cleanup_backoff" size?
  let backgroundSweep ← part? parts "background_sweep" flag?
  return { initialCleanupThreshold, removalGoal, cleanupBackoff, backgroundSweep }

end CacheConfig

namespace CacheStats

def toDocument (s : CacheStats) : Document :=
  fields [
    ("hits", size s.hits),
    ("misses", size s.misses),
    ("resolutions", size s.resolutions),
    ("invalidations", size s.invalidations),
    ("world_version", size s.worldVersion),
    ("entries", size s.entries),
    ("sweeps", size s.sweeps),
    ("reclaimed", size s.reclaimed)]

def ofDocument? (d : Document) : Option CacheStats := do
  let parts ← d.parts? ["hits", "misses", "resolutions", "invalidations", "world_version",
    "entries", "sweeps", "reclaimed"]
  let hits ← part? parts "hits" size?
  let misses ← part? parts "misses" size?
  let resolutions ← part? parts "resolutions" size?
  let invalidations ← part? parts "invalidations" size?
  let worldVersion ← part? parts "world_version" size?
  let entries ← part? parts "entries" size?
  let sweeps ← part? parts "sweeps" size?
  let reclaimed ← part? parts "reclaimed" size?
  return { hits, misses, resolutions, invalidations, worldVersion, entries, sweeps, reclaimed }

end CacheStats

inductive RecordKind
  | slice
  | classNumber
  | kind
  | typeKey
  | errorClass
  | errorKind
  | exception
  | error
  | binaryOp
  | unaryOp
  | compareOp
  | operation
  | policy
  | config
  | stats
  | slotState

/-- Reads a record and writes it again; nothing for a document that holds no such record. -/
def RecordKind.normalize? (k : RecordKind) (d : Document) : Option Document :=
  match k with
  | slice => (Slice.ofDocument? d).map Slice.toDocument
  | classNumber => (sizeUpTo? classNumberMax d).map size
  | kind => (plainChoice? Kind.ofTag? d).map fun k => text k.tag
  | typeKey => (TypeKey.ofDocument? d).map TypeKey.toDocument
  | errorClass => (plainChoice? ErrorClass.ofName? d).map fun c => text c.name
  | errorKind => (plainChoice? ErrorKind.ofName? d).map fun k => text k.name
  | exception => (Exception.ofDocument? d).map Exception.toDocument
  | error => (Error.ofDocument? d).map Error.toDocument
  | binaryOp => (plainChoice? BinaryOp.ofTag? d).map fun op => text op.tag
  | unaryOp => (plainChoice? UnaryOp.ofTag? d).map fun op => text op.tag
  | compareOp => (plainChoice? CompareOp.ofTag? d).map fun op => text op.tag
  | operation => (Operation.ofDocument? d).map Operation.toDocument
  | policy => (DispatchPolicy.ofDocument? d).map DispatchPolicy.toDocument
  | config => (CacheConfig.ofDocument? d).map CacheConfig.toDocument
  | stats => (CacheStats.ofDocument? d).map CacheStats.toDocument
  | slotState => (plainChoice? SlotState.ofTag? d).map fun s => text s.tag

end DynamicObjects
