/-!
Monitors: a content behind a lock that its holder may enter again. Monitors are numbered in the order
of their creation, and two of them are always locked in that order, so holders of two cannot wait for
each other.
-/
namespace DynamicObjects

structure Monitor (α : Type) where
  number : Nat
  content : α
  /-- How often the holder has entered and not yet left. -/
  entered : Nat := 0
  deriving DecidableEq

namespace Monitor

variable {α β : Type}

def enter (m : Monitor α) : Monitor α := { m with entered := m.entered + 1 }

def leave (m : Monitor α) : Monitor α := { m with entered := m.entered - 1 }

def read (f : α → β) (m : Monitor α) : β × Monitor α :=
  let m := m.enter
  (f m.content, m.leave)

def write (f : α → α) (m : Monitor α) : Monitor α :=
  let m := m.enter
  { m with content := f m.content }.leave

def isOlder (m other : Monitor α) : Bool := m.number < other.number

def lockOrder (m other : Monitor α) : Monitor α × Monitor α :=
  if other.isOlder m then (other, m) else (m, other)

/-- Adds an item while the monitor is held, and reads the length before and after it. -/
def pushBetween (item : α) (m : Monitor (List α)) : (Nat × Nat) × Monitor (List α) :=
  let held := m.enter
  let (before, held) := held.read List.length
  let held := held.write (· ++ [item])
  let (after, held) := held.read List.length
  ((before, after), held.leave)

theorem entered_read (f : α → β) (m : Monitor α) : (m.read f).2 = m := by
  simp [read, enter, leave]

theorem content_write (f : α → α) (m : Monitor α) :
    m.write f = { m with content := f m.content } := by
  simp [write, enter, leave]

end Monitor

end DynamicObjects
