import DynamicObjects.Error
import DynamicObjects.Word

/-!
Slices and index arithmetic. A slice is resolved against a length into an arithmetic progression of
positions. Everything is computed on exact integers; bounds are clamped before they are used, so
each quantity stays within the words it came from.
-/
namespace DynamicObjects

structure Slice where
  start : Option Int64
  stop : Option Int64
  step : Option Int64
  deriving DecidableEq

/-- The positions `start`, `start + step`, …, `count` of them. -/
structure Progression where
  start : Int
  stop : Int
  step : Int
  count : Nat
  deriving DecidableEq

namespace Slice

/-- A length as index arithmetic sees it: never above the largest word. -/
def clampLength (len : Nat) : Int :=
  min (len : Int) Word.greatest

/-- A bound brought into range: a negative one counts from the end once, and what is still outside
goes to the nearest place at which a walk in the direction of `step` may begin or end. -/
def adjustBound (bound len step : Int) : Int :=
  if bound < 0 then
    if bound + len < 0 then
      if step < 0 then -1 else 0
    else bound + len
  else if len ≤ bound then
    if step < 0 then len - 1 else len
  else bound

def defaultStart (step : Int) : Int :=
  if step < 0 then Word.greatest else 0

def defaultStop (step : Int) : Int :=
  if step < 0 then Word.least else Word.greatest

def countBetween (start stop step : Int) : Nat :=
  if step < 0 then
    if stop < start then ((start - stop - 1) / (-step) + 1).toNat else 0
  else if start < stop then ((stop - start - 1) / step + 1).toNat
  else 0

/-- The step in use: 1 when absent, and never so small that its negation is no word. -/
def stride (s : Slice) : Int :=
  match s.step with
  | none => 1
  | some step => max step.toInt (-Word.greatest)

def indices (s : Slice) (len : Nat) : Except Error Progression :=
  if s.step = some 0 then .error .sliceStepZero
  else
    let step := s.stride
    let bound := clampLength len
    let start := adjustBound ((s.start.map Int64.toInt).getD (defaultStart step)) bound step
    let stop := adjustBound ((s.stop.map Int64.toInt).getD (defaultStop step)) bound step
    .ok ⟨start, stop, step, countBetween start stop step⟩

def fieldText : Option Int64 → String
  | none => "None"
  | some n => toString n.toInt

def describe (s : Slice) : String :=
  let start := fieldText s.start
  let stop := fieldText s.stop
  let step := fieldText s.step
  s!"slice({start}, {stop}, {step})"

theorem indices_eq_error_iff (s : Slice) (len : Nat) :
    (∃ e, s.indices len = .error e) ↔ s.step = some 0 := by
  unfold indices
  split <;> simp_all

end Slice

namespace Progression

def position (p : Progression) (i : Nat) : Nat :=
  (p.start + i * p.step).toNat

def positions (p : Progression) : List Nat :=
  (List.range p.count).map p.position

def fromBack (p : Progression) (n : Nat) : List Nat :=
  (List.range (min n p.count)).map fun i => p.position (p.count - 1 - i)

def ascending (p : Progression) : Nat × Nat :=
  if p.step < 0 then (p.position (p.count - 1), p.step.natAbs)
  else (p.start.toNat, p.step.toNat)

def isContiguous (p : Progression) : Bool :=
  p.step == 1

theorem length_positions (p : Progression) : p.positions.length = p.count := by
  simp [positions]

end Progression

namespace Index

/-- The position that an index names, counted from the end when negative. -/
def normalize? (index : Int) (len : Nat) : Option Nat :=
  let resolved := if index < 0 then index + len else index
  if (len : Int) ≤ Word.greatest ∧ 0 ≤ resolved ∧ resolved < len then some resolved.toNat else none

def clampInsert (index : Int) (len : Nat) : Nat :=
  let bound := Slice.clampLength len
  if index < 0 then (index + bound).toNat else (min index bound).toNat

/-- A search window; both ends are clamped, and an absent end is the length itself. -/
def adjustRange (start stop : Option Int) (len : Nat) : Nat × Nat :=
  ((start.map fun i => clampInsert i len).getD 0, (stop.map fun i => clampInsert i len).getD len)

end Index

end DynamicObjects
