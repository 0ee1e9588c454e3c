import DynamicObjects.Dispatch.Thunk

/-!
The dispatch layer as a pure state. A call is prepared once per operation and type key and kept until
the world moves on: an invalidation advances the version, and a prepared call is used only under the
version that it was prepared under. Call sites keep one prepared call of their own.
-/
namespace DynamicObjects

/-- What the cache holds for an operation and a key. -/
inductive SlotEntry
  | resolving (version : Nat)
  | cached (thunk : Thunk)

structure Dispatcher where
  model : ClassModel
  entries : List ((Operation × TypeKey) × SlotEntry) := []
  policy : DispatchPolicy := {}
  tracer : Option Tracer := none
  registry : Registry
  sites : Array Site := #[]
  hits : Nat := 0
  misses : Nat := 0
  resolutions : Nat := 0
  invalidations : Nat := 0
  nextThunk : Nat := 0
  /-- The events that each recorder has heard, the latest first. Recorders beyond the end have heard
  nothing. -/
  recorders : Array (List TraceEvent) := #[]
  /-- Whether log lines are kept. -/
  logging : Bool := false
  /-- Log lines, the latest first. -/
  log : List String := []

namespace Dispatcher

def make (model : ClassModel) (config : CacheConfig) (policy : DispatchPolicy) : Dispatcher :=
  { model, policy, registry := Registry.ofConfig config }

def version (d : Dispatcher) : Nat := d.registry.version

@[inline] def note (d : Dispatcher) (line : String) : Dispatcher :=
  if d.logging then { d with log := line :: d.log } else d

def eventLine : TraceEvent → String
  | .resolved op typeName hit => s!"TRACE resolve {op} on '{typeName}' hit={hit}"
  | .called op typeName depth => s!"TRACE >>> {op} on '{typeName}' depth={depth}"
  | .returned op depth => s!"TRACE <<< {op} depth={depth}"
  | .invalidated version walked => s!"TRACE invalidate version={version} walked={walked}"

def heard (d : Dispatcher) (number : Nat) : List TraceEvent := (d.recorders.getD number []).reverse

/-- Adds an event to a recorder, after as many silent ones as are missing before it. -/
def record (number : Nat) (event : TraceEvent) (recorders : Array (List TraceEvent)) :
    Array (List TraceEvent) :=
  if number < recorders.size then recorders.modify number (event :: ·)
  else (recorders ++ Array.replicate (number - recorders.size) []).push [event]

def tell (d : Dispatcher) (tracer : Tracer) (event : TraceEvent) : Dispatcher :=
  match tracer with
  | .silent => d
  | .log => d.note (eventLine event)
  | .recording number => { d with recorders := record number event d.recorders }

def tellSome (d : Dispatcher) (tracer : Option Tracer) (event : TraceEvent) : Dispatcher :=
  match tracer with
  | none => d
  | some tracer => d.tell tracer event

def typeName (d : Dispatcher) : TypeKey → String
  | .builtin kind => kind.name
  | .userClass number => d.model.className number

def entry? (d : Dispatcher) (op : Operation) (key : TypeKey) : Option SlotEntry :=
  d.entries.lookup (op, key)

def setEntry (k : Operation × TypeKey) (e : SlotEntry) :
    List ((Operation × TypeKey) × SlotEntry) → List ((Operation × TypeKey) × SlotEntry)
  | [] => [(k, e)]
  | (k', e') :: rest => if k' = k then (k, e) :: rest else (k', e') :: setEntry k e rest

/-- What a call to `op` on `key` runs now. Built-in kinds answer from the table of their slots and
classes from the model, which takes note of the lookup. -/
def findTarget (d : Dispatcher) (hasSlot : Kind → Operation → Bool) (op : Operation)
    (key : TypeKey) : Target × Dispatcher :=
  match key with
  | .builtin kind => (if hasSlot kind op then .builtin else .missing, d)
  | .userClass number =>
    let (found, model) := d.model.resolveSlot number op.slotName
    let target :=
      match found, op with
      | none, _ => .missing
      | some value, .getMember _ => .member value
      | some value, _ => .slot value
    (target, { d with model })

def boundTracer (d : Dispatcher) : Option Tracer :=
  if d.policy.tracing then some (d.tracer.getD .silent) else none

def build (d : Dispatcher) (hasSlot : Kind → Operation → Bool) (op : Operation) (key : TypeKey) :
    Thunk × Dispatcher :=
  let (target, d) := d.findTarget hasSlot op key
  ({ id := d.nextThunk
     op
     key
     typeName := d.typeName key
     target
     version := d.version
     limited := d.policy.recursionLimit.isSome
     tracer := d.boundTracer },
    { d with nextThunk := d.nextThunk + 1 })

def current? (d : Dispatcher) (op : Operation) (key : TypeKey) : Option Thunk :=
  match d.entry? op key with
  | some (.cached thunk) => if thunk.version = d.version then some thunk else none
  | _ => none

def resolve (d : Dispatcher) (hasSlot : Kind → Operation → Bool) (op : Operation)
    (key : TypeKey) : Thunk × Dispatcher :=
  let slot := op.slotName
  match d.current? op key with
  | some thunk =>
    let name := thunk.typeName
    let d := { d with hits := d.hits + 1 }.note s!"TRACE dispatch hit {slot} on {name}"
    (thunk, d.tellSome thunk.tracer (.resolved slot name true))
  | none =>
    let version := d.version
    let d := { d with
      misses := d.misses + 1
      entries := setEntry (op, key) (.resolving version) d.entries }
    let (thunk, d) := d.build hasSlot op key
    let name := thunk.typeName
    let d := { d with resolutions := d.resolutions + 1 }.note
      s!"TRACE dispatch miss {slot} on {name}: resolved under version {version}"
    let d := { d with entries := setEntry (op, key) (.cached thunk) d.entries }
    (thunk, d.tellSome thunk.tracer (.resolved slot name false))

def slotState (d : Dispatcher) (op : Operation) (key : TypeKey) : SlotState :=
  match d.entry? op key with
  | none => .empty
  | some (.resolving version) => if version = d.version then .resolving else .stale
  | some (.cached thunk) => if thunk.version = d.version then .cached else .stale

def isAlive (d : Dispatcher) (site : Nat) : Bool :=
  match d.sites[site]? with
  | some s => 0 < s.holders
  | none => false

def modifySite (d : Dispatcher) (site : Nat) (f : Site → Site) : Dispatcher :=
  { d with sites := d.sites.modify site f }

def noteSweep (d : Dispatcher) (o : SweepOutcome) : Dispatcher :=
  let removed := o.removed
  let kept := o.kept
  let next := o.nextCleanup
  d.note s!"DEBUG registry sweep removed {removed}, kept {kept}, next sweep at {next}"

/-- Makes a site with one holder and registers it; the registration may sweep the registry. -/
def openSite (d : Dispatcher) (op : Operation) : Nat × Dispatcher :=
  let site := d.sites.size
  let d := { d with sites := d.sites.push ⟨op, none, false, 0, 1⟩ }
  let (outcome, registry) := d.registry.register d.isAlive site
  let d := { d with registry }
  match outcome with
  | none => (site, d)
  | some o => (site, d.noteSweep o)

def holdSite (d : Dispatcher) (site : Nat) : Dispatcher :=
  d.modifySite site fun s => { s with holders := s.holders + 1 }

def releaseSite (d : Dispatcher) (site : Nat) : Dispatcher :=
  d.modifySite site fun s => { s with holders := s.holders - 1 }

def sweepNow (d : Dispatcher) : Nat × Dispatcher :=
  let (outcome, registry) := d.registry.sweep d.isAlive
  (outcome.removed, { d with registry }.noteSweep outcome)

def liveSites (d : Dispatcher) : Nat := (d.registry.live d.isAlive).length

def siteCurrent? (d : Dispatcher) (s : Site) (key : TypeKey) : Option Thunk :=
  match s.entry with
  | some (cachedKey, thunk) =>
    if !s.stale && cachedKey == key && thunk.version == d.version then some thunk else none
  | none => none

def resolveSite (d : Dispatcher) (hasSlot : Kind → Operation → Bool) (site : Nat)
    (key : TypeKey) : Option (Thunk × Dispatcher) :=
  (d.sites[site]?).map fun s =>
    match d.siteCurrent? s key with
    | some thunk => (thunk, d)
    | none =>
      let (thunk, d) := d.resolve hasSlot s.op key
      (thunk, d.modifySite site (Site.install key thunk))

/-- Walks the handles and marks every site that is alive as stale: how many more than `walked` there
are, and the state after it. -/
def markStale (d : Dispatcher) (walked : Nat) : List Nat → Nat × Dispatcher
  | [] => (walked, d)
  | site :: rest =>
    if d.isAlive site then (d.modifySite site Site.outdated).markStale (walked + 1) rest
    else d.markStale walked rest

/-- Moves the world on and marks the live sites, with their handles off the list meanwhile: the new
version and the number of sites. -/
def invalidate (d : Dispatcher) : (Nat × Nat) × Dispatcher :=
  let (detached, registry) := d.registry.detach
  let (walked, d) := { d with registry }.markStale 0 detached
  ((d.version, walked), { d with registry := d.registry.splice detached })

def bump (d : Dispatcher) (reason : String) : Dispatcher :=
  let ((version, walked), d) := d.invalidate
  let d := { d with invalidations := d.invalidations + 1 }.note
    s!"DEBUG world version {version} after {reason}; {walked} call sites marked stale"
  if d.policy.tracing then d.tellSome d.tracer (.invalidated version walked) else d

def invalidateAll (d : Dispatcher) : Dispatcher := d.bump "explicit invalidation"

def notifyTypeChanged (d : Dispatcher) (number : Nat) : Dispatcher :=
  (d.note s!"DEBUG slots of class {number} changed").bump "type change"

def setPolicy (d : Dispatcher) (policy : DispatchPolicy) : Dispatcher :=
  let reshaped := d.policy.reshapes policy
  let d := { d with policy }
  if reshaped then d.bump "policy change" else d

def setTracing (d : Dispatcher) (tracing : Bool) : Dispatcher :=
  d.setPolicy { d.policy with tracing }

def setRecursionLimit (d : Dispatcher) (recursionLimit : Option Nat) : Dispatcher :=
  d.setPolicy { d.policy with recursionLimit }

def setTracer (d : Dispatcher) (tracer : Option Tracer) : Dispatcher :=
  let d := { d with tracer }
  if d.policy.tracing then d.bump "tracer change" else d

/-- Adds a recorder that has heard nothing yet. -/
def addRecorder (d : Dispatcher) : Nat × Dispatcher :=
  (d.recorders.size, { d with recorders := d.recorders.push [] })

def stats (d : Dispatcher) : CacheStats :=
  { hits := d.hits
    misses := d.misses
    resolutions := d.resolutions
    invalidations := d.invalidations
    worldVersion := d.version
    entries := d.entries.length
    sweeps := d.registry.sweeps
    reclaimed := d.registry.reclaimed }

end Dispatcher

end DynamicObjects
