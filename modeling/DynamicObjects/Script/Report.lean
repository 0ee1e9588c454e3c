import DynamicObjects.Snapshot
import DynamicObjects.Dispatch.Dispatcher

/-!
What the steps of a program answer: a value, or a report on the state of the machinery.
-/
namespace DynamicObjects.Script

inductive Report
  | null
  | flag (b : Bool)
  | number (n : Int)
  | real (d : Double)
  | text (s : String)
  | items (rs : List Report)
  | fields (rs : List (String × Report))
  | value (s : Snapshot)

inductive Answer
  | value (v : Value)
  | report (r : Report)

namespace Answer

def toValue : Answer → Value
  | value v => v
  | report _ => .none

end Answer

namespace Report

def size (n : Nat) : Report := number n

def optional {α : Type} (f : α → Report) : Option α → Report
  | some a => f a
  | none => null

def ofTypeKey : TypeKey → Report
  | .builtin kind => fields [("Builtin", text kind.tag)]
  | .userClass n => fields [("Class", size n)]

def ofOrder : Option (Option Ordering) → Report
  | none => null
  | some none => text "unordered"
  | some (some .lt) => number (-1)
  | some (some .eq) => number 0
  | some (some .gt) => number 1

def ofInfo (v : Value) : Report :=
  fields [
    ("type", text v.kind.name),
    ("key", ofTypeKey v.typeKey),
    ("as_int", optional (fun n => number n.toInt) v.asInt?),
    ("as_str", optional text v.asText?),
    ("has_identity", flag v.hasIdentity)]

def ofBuffer {α : Type} (b : Buffer α) : Report :=
  fields [
    ("len", size b.size),
    ("capacity", size b.capacity),
    ("reallocations", size b.reallocations),
    ("empty", flag (b.size == 0))]

def ofView (s : Store) (r : DictRef) : Report :=
  let count := (s.dict r).table.size
  fields [
    ("len", size count),
    ("empty", flag (count == 0)),
    ("mapping", value (Snapshot.ofValue s (.dict r)))]

def ofThunk (t : Thunk) : Report :=
  fields [
    ("op", text t.op.slotName),
    ("key", ofTypeKey t.key),
    ("type_name", text t.typeName),
    ("version", size t.version),
    ("missing", flag t.isMissing),
    ("traced", flag t.tracer.isSome),
    ("limited", flag t.limited)]

def ofSite (s : Site) : Report :=
  fields [
    ("op", text s.op.slotName),
    ("stale", flag s.stale),
    ("recomputes", size s.recomputes)]

def ofStats (s : CacheStats) : Report :=
  fields [
    ("hits", size s.hits),
    ("misses", size s.misses),
    ("resolutions", size s.resolutions),
    ("invalidations", size s.invalidations),
    ("world_version", size s.worldVersion),
    ("entries", size s.entries),
    ("sweeps", size s.sweeps),
    ("reclaimed", size s.reclaimed)]

def ofPolicy (p : DispatchPolicy) : Report :=
  fields [
    ("tracing", flag p.tracing),
    ("recursion_limit", optional size p.recursionLimit)]

def ofBooks (r : Registry) : Report :=
  fields [("count", size r.count), ("next_cleanup", number r.nextCleanup)]

def ofEvent : TraceEvent → Report
  | .resolved op typeName hit => items [text "resolve", text op, text typeName, flag hit]
  | .called op typeName depth => items [text "call", text op, text typeName, size depth]
  | .returned op depth => items [text "return", text op, size depth]
  | .invalidated version walked => items [text "invalidate", size version, size walked]

end Report

end DynamicObjects.Script
