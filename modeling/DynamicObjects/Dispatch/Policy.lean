import DynamicObjects.Double

/-!
Settings and reports of the dispatch layer.
-/
namespace DynamicObjects

/-- How deep calls may nest when nothing else is set. -/
def defaultRecursionLimit : Nat := 1000

/-- How deep printing, comparing and hashing may follow nested data. -/
def dataDepthLimit : Nat := 100

structure DispatchPolicy where
  tracing : Bool := false
  recursionLimit : Option Nat := some defaultRecursionLimit
  deriving DecidableEq

/-- Whether calls prepared under one policy are wrong under the next. The number of a limit is read
at each call, so only its presence counts. -/
def DispatchPolicy.reshapes (p next : DispatchPolicy) : Bool :=
  p.tracing != next.tracing || p.recursionLimit.isSome != next.recursionLimit.isSome

structure CacheConfig where
  initialCleanupThreshold : Nat := 200
  removalGoal : Double := ⟨0x3FE0000000000000⟩
  cleanupBackoff : Nat := 500
  backgroundSweep : Bool := true
  deriving DecidableEq

structure CacheStats where
  hits : Nat := 0
  misses : Nat := 0
  resolutions : Nat := 0
  invalidations : Nat := 0
  worldVersion : Nat := 0
  entries : Nat := 0
  sweeps : Nat := 0
  reclaimed : Nat := 0
  deriving DecidableEq

/-- The share of lookups that were answered from the cache, in percent. -/
def CacheStats.hitRate (s : CacheStats) : Double :=
  if s.hits + s.misses = 0 then ⟨0⟩
  else ((Double.ofNat s.hits).div (Double.ofNat (s.hits + s.misses))).mul (Double.ofNat 100)

inductive SlotState
  | empty
  | resolving
  | cached
  | stale
  deriving DecidableEq

namespace SlotState

def all : List SlotState := [empty, resolving, cached, stale]

def tag : SlotState → String
  | empty => "Empty"
  | resolving => "Resolving"
  | cached => "Cached"
  | stale => "Stale"

def ofTag? (text : String) : Option SlotState := all.find? (·.tag == text)

end SlotState

end DynamicObjects
