import DynamicObjects.Dispatch.Policy
import DynamicObjects.Word

/-!
The registry of call sites. It holds a handle for every site that was registered and not yet swept,
the newest first, and the version of the world that all prepared calls are checked against. Sites
die without notice, so dead handles stay until a sweep; a sweep is due when a registration finds
that the number of handles has reached the trigger, and it sets the trigger anew from the share of
handles that it could remove.
-/
namespace DynamicObjects

structure Registry where
  config : CacheConfig
  handles : List Nat := []
  /-- Counts the invalidations. Fewer than `2^64` are assumed, so the version never wraps. -/
  version : Nat := 0
  /-- The number of handles as the bookkeeping knows it. -/
  count : Nat := 0
  nextCleanup : Int
  sweeps : Nat := 0
  reclaimed : Nat := 0
  deriving DecidableEq

structure SweepOutcome where
  removed : Nat
  kept : Nat
  nextCleanup : Int
  deriving DecidableEq

namespace Registry

/-- A size as a trigger: never above the largest word. -/
def trigger (n : Nat) : Int := min (n : Int) Word.greatest

def saturate (n : Int) : Int := max Word.least (min n Word.greatest)

/-- A number cut to an integer and clamped to a word; a NaN counts as zero. -/
def toTrigger (d : Double) : Int :=
  if d.isNaN then 0
  else if d.isInfinite then (if d.isNegative then Word.least else Word.greatest)
  else saturate d.truncate

def ofConfig (config : CacheConfig) : Registry :=
  { config, nextCleanup := trigger config.initialCleanupThreshold }

/-- The trigger after a sweep that removed `removed` of `count` handles. It is stretched by how far
the share of removed handles fell short of the goal; when that gives no positive number, the old
trigger is put off by the backoff. -/
def retune (config : CacheConfig) (count removed : Nat) (next : Int) : Int :=
  if count = 0 then trigger config.initialCleanupThreshold
  else
    let share := (Double.ofNat removed).div (Double.ofNat count)
    let ratio := share.div config.removalGoal
    let proposal :=
      if ratio.isZero then -1
      else saturate (trigger (count - removed)
        + toTrigger ((Double.ofInt next).div ratio))
    if 0 < proposal then proposal else saturate (next + trigger config.cleanupBackoff)

/-- Takes dead handles off the front, up to the first live one: how many more than `removed` they
are, and the handles that are left. -/
def unlinkFront (alive : Nat → Bool) (removed : Nat) : List Nat → Nat × List Nat
  | [] => (removed, [])
  | site :: rest =>
    if alive site then (removed, site :: rest) else unlinkFront alive (removed + 1) rest

/-- Walks on behind the front, joining each live handle to the next live one. `passed` are the live
handles that lie behind the walk, the last one first. -/
def unlinkBehind (alive : Nat → Bool) (removed kept : Nat) (passed : List Nat) :
    List Nat → (Nat × Nat) × List Nat
  | [] => ((removed, kept), passed.reverse)
  | site :: rest =>
    if alive site then unlinkBehind alive removed (kept + 1) (site :: passed) rest
    else unlinkBehind alive (removed + 1) kept passed rest

def unlinkDead (alive : Nat → Bool) (handles : List Nat) : (Nat × Nat) × List Nat :=
  let (removed, front) := unlinkFront alive 0 handles
  unlinkBehind alive removed 0 [] front

def sweep (r : Registry) (alive : Nat → Bool) : SweepOutcome × Registry :=
  let ((removed, kept), handles) := unlinkDead alive r.handles
  let next := retune r.config r.count removed r.nextCleanup
  (⟨removed, kept, next⟩,
    { r with
      handles
      count := r.count - removed
      nextCleanup := next
      sweeps := r.sweeps + 1
      reclaimed := r.reclaimed + removed })

def pushChain (r : Registry) (chain : List Nat) : Registry := { r with handles := chain ++ r.handles }

/-- Adds a site and sweeps if the handles counted before had reached the trigger. -/
def register (r : Registry) (alive : Nat → Bool) (site : Nat) : Option SweepOutcome × Registry :=
  let due := r.nextCleanup ≤ trigger r.count
  let r := { r.pushChain [site] with count := r.count + 1 }
  if due then
    let (outcome, r) := r.sweep alive
    (some outcome, r)
  else (none, r)

def live (r : Registry) (alive : Nat → Bool) : List Nat := r.handles.filter alive

def advance (r : Registry) : Registry := { r with version := r.version + 1 }

/-- Moves the version on and takes all handles off the list, for a walk over them. -/
def detach (r : Registry) : List Nat × Registry := (r.handles, { r.advance with handles := [] })

def splice (r : Registry) (detached : List Nat) : Registry :=
  if detached.isEmpty then r else r.pushChain detached

theorem splice_detach (r : Registry) : r.detach.2.splice r.detach.1 = r.advance := by
  obtain ⟨_, handles⟩ := r
  cases handles <;> simp [splice, detach, pushChain, advance]

/-- What is taken off the front is counted and dead, so it is missing among the dead that are left. -/
theorem unlinkFront_filter (alive : Nat → Bool) (removed : Nat) (handles : List Nat) :
    (unlinkFront alive removed handles).1 +
        ((unlinkFront alive removed handles).2.filter (!alive ·)).length =
      removed + (handles.filter (!alive ·)).length ∧
    (unlinkFront alive removed handles).2.filter alive = handles.filter alive := by
  induction handles generalizing removed with
  | nil => simp [unlinkFront]
  | cons site rest ih =>
    rw [unlinkFront]
    split
    next live => simp
    next dead =>
      obtain ⟨counted, kept⟩ := ih (removed + 1)
      refine ⟨?_, by simp [dead, kept]⟩
      rw [counted]
      simp [dead]
      omega

theorem unlinkBehind_eq (alive : Nat → Bool) (removed kept : Nat) (passed handles : List Nat) :
    unlinkBehind alive removed kept passed handles =
      ((removed + (handles.filter (!alive ·)).length, kept + (handles.filter alive).length),
        passed.reverse ++ handles.filter alive) := by
  induction handles generalizing removed kept passed with
  | nil => simp [unlinkBehind]
  | cons site rest ih =>
    rw [unlinkBehind]
    split
    next live => simp [ih, live]; omega
    next dead => simp [ih, dead]; omega

/-- The two walks together leave the live handles in their order and count all others. -/
theorem unlinkDead_eq (alive : Nat → Bool) (handles : List Nat) :
    unlinkDead alive handles =
      (((handles.filter (!alive ·)).length, (handles.filter alive).length),
        handles.filter alive) := by
  obtain ⟨counted, kept⟩ := unlinkFront_filter alive 0 handles
  simp only [unlinkDead, unlinkBehind_eq, counted, kept]
  simp

end Registry

end DynamicObjects
