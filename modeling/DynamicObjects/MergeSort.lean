/-!
A stable merge sort of positions whose comparisons are computations. Ascending runs are found first
and then merged in pairs, level by level, so the sequence of comparisons is fixed by their answers.
Whatever the comparison does, an order that is returned holds every position once.
-/
namespace DynamicObjects.MergeSort

variable {m : Type → Type} [Monad m]

/-- `inverted a b` asks whether `b`, which stands behind `a`, has to go before it. -/
abbrev Inverted (m : Type → Type) := Nat → Nat → m Bool

/-- Merges two runs; the first has precedence. The fuel is the number of positions. -/
def mergeRuns (inverted : Inverted m) : Nat → List Nat → List Nat → m (List Nat)
  | 0, ps, qs => return ps ++ qs
  | _ + 1, [], qs => return qs
  | _ + 1, ps, [] => return ps
  | fuel + 1, p :: ps, q :: qs => do
    if ← inverted p q then
      return q :: (← mergeRuns inverted fuel (p :: ps) qs)
    else
      return p :: (← mergeRuns inverted fuel ps (q :: qs))

/-- Cuts the positions behind `last` into ascending runs; `run` is the current one, reversed. -/
def findRuns (inverted : Inverted m) (last : Nat) (run : List Nat) :
    List Nat → m (List (List Nat))
  | [] => return [run.reverse]
  | i :: rest => do
    if ← inverted last i then
      return run.reverse :: (← findRuns inverted i [i] rest)
    else findRuns inverted i (i :: run) rest

def mergePairs (inverted : Inverted m) : List (List Nat) → m (List (List Nat))
  | p :: q :: rest => do
    let merged ← mergeRuns inverted (p.length + q.length) p q
    return merged :: (← mergePairs inverted rest)
  | runs => return runs

/-- Merges level by level; each level halves the number of runs. -/
def mergeLevels (inverted : Inverted m) : Nat → List (List Nat) → m (List Nat)
  | 0, runs => return runs.flatten
  | fuel + 1, runs =>
    match runs with
    | [] => return []
    | [run] => return run
    | runs => do mergeLevels inverted fuel (← mergePairs inverted runs)

def positions (n : Nat) (inverted : Inverted m) : m (List Nat) :=
  match List.range n with
  | [] => return []
  | i :: rest => do
    let runs ← findRuns inverted i [i] rest
    mergeLevels inverted runs.length runs

/-- Sorts the positions of keys. In reverse, equal keys keep their order as well. -/
def sortKeys {α : Type} (keys : Array α) (backwards : Bool) (less : α → α → m Bool) :
    m (List Nat) :=
  positions keys.size fun earlier later =>
    match keys[earlier]?, keys[later]? with
    | some a, some b => if backwards then less a b else less b a
    | _, _ => return false

end DynamicObjects.MergeSort
