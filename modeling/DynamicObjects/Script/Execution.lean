import DynamicObjects.Script.Interpreter

/-!
Whole programs: the classes that are there before the first step, what dispatch starts from, and the
steps, each of which answers. An error ends its step and not the program.
-/
namespace DynamicObjects.Script

structure ClassText where
  name : Option String
  slots : List (String × Expr)

inductive Foundation
  /-- Built-in values only; classes have neither slots nor names. -/
  | bare
  /-- The classes of the program, with default settings. -/
  | model
  | configured (config : CacheConfig) (policy : DispatchPolicy)

structure Program where
  foundation : Foundation
  classes : List ClassText
  steps : List Step
  /-- The variables that are shown after every step. -/
  watch : List String
  logging : Bool

inductive Shown
  | value (s : Snapshot)
  | report (r : Report)
  | error (e : Error)
  | outOfFuel

structure Record where
  shown : Shown
  /-- The watched variables after the step; nothing for one that has no value yet. -/
  watched : List (Option Snapshot)

namespace Program

/-- How deep calls may nest and how often loops may go round: more than any run can use up. -/
def fuel : Nat := 1000000000000000000

def dispatcher (p : Program) : Dispatcher :=
  let blank : Array ClassInfo := (p.classes.map fun c => ⟨c.name, []⟩).toArray
  match p.foundation with
  | .bare => .make ⟨blank, [], false⟩ {} {}
  | .model => .make ⟨blank, [], true⟩ {} {}
  | .configured config policy => .make ⟨blank, [], true⟩ config policy

def start (p : Program) : World :=
  { store := .empty
    dispatcher := { p.dispatcher with logging := p.logging } }

def sortedSlots (c : ClassText) : List (String × Expr) :=
  c.slots.mergeSort fun a b => decide (a.1 ≤ b.1)

def defineSlots (h : Hooks) (number : Nat) : List (String × Expr) → Run Unit
  | [] => return ()
  | (name, e) :: rest => do
    let v ← e.evaluate h
    modifyModel (·.setSlot number name v)
    defineSlots h number rest

def defineClasses (h : Hooks) (number : Nat) : List ClassText → Run Unit
  | [] => return ()
  | c :: rest => do
    defineSlots h number (sortedSlots c)
    defineClasses h (number + 1) rest

def shown (w : World) : Outcome Answer → Shown
  | .ok (.value v) => .value (.ofValue w.store v)
  | .ok (.report r) => .report r
  | .error e => .error e
  | .outOfFuel => .outOfFuel

def watched (w : World) (names : List String) : List (Option Snapshot) :=
  names.map fun name => (w.session.globals.lookup name).map (Snapshot.ofValue w.store)

/-- Runs the steps one after the other, whether or not they fail. -/
def records (h : Hooks) (watch : List String) (w : World) : List Step → List Record
  | [] => []
  | step :: rest =>
    let (outcome, w) := step.run h w
    ⟨shown w outcome, watched w watch⟩ :: records h watch w rest

def run (p : Program) : List Record :=
  let h := hooks fuel
  let (_, w) := defineClasses h 0 p.classes p.start
  records h p.watch w p.steps

end Program

end DynamicObjects.Script
