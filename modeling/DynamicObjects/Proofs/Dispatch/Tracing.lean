import DynamicObjects.Proofs.Levels

/-!
The calls that a recorder hears about. A prepared call keeps the tracer that it was prepared with, so
both of its ends go to the same recorder, and what is heard between them was added by code that was
called and has come back. A call that is refused by the limit tells nothing; one that fails comes back
like any other. So, whatever programs do to tracers, policies and limits in the middle of a call, the
ends of calls match like brackets.
-/
namespace DynamicObjects

/-- The calls that are open after an event, each with its operation and depth, the innermost first. A
call that comes back has to be the innermost one, and it reports the depth outside of it. -/
def TraceEvent.follow (opened : List (String × Nat)) : TraceEvent → Option (List (String × Nat))
  | .called op _ depth => some ((op, depth) :: opened)
  | .returned op outside =>
    match opened with
    | (innermost, depth) :: outer =>
      if innermost = op ∧ depth - 1 = outside then some outer else none
    | [] => none
  | .resolved .. | .invalidated .. => some opened

/-- The calls that are open after several events; none if some event does not fit. -/
def openCalls (opened : List (String × Nat)) (events : List TraceEvent) :
    Option (List (String × Nat)) :=
  events.foldlM TraceEvent.follow opened

inductive Balanced : List TraceEvent → Prop
  | nil : Balanced []
  | other {event : TraceEvent} (plain : event.isBracket = false) : Balanced [event]
  | append {early late : List TraceEvent} (first : Balanced early) (second : Balanced late) :
    Balanced (early ++ late)
  | call (op typeName : String) (depth : Nat) {inner : List TraceEvent} (body : Balanced inner) :
    Balanced (.called op typeName depth :: inner ++ [.returned op (depth - 1)])

section Brackets

variable {opened opened' : List (String × Nat)} {events early late : List TraceEvent}

theorem openCalls_cons (opened : List (String × Nat)) (event : TraceEvent)
    (events : List TraceEvent) :
    openCalls opened (event :: events) = (event.follow opened).bind (openCalls · events) :=
  rfl

theorem openCalls_append (opened : List (String × Nat)) (early late : List TraceEvent) :
    openCalls opened (early ++ late) = (openCalls opened early).bind (openCalls · late) :=
  List.foldlM_append

theorem TraceEvent.follow_plain {event : TraceEvent} (plain : event.isBracket = false)
    (opened : List (String × Nat)) : event.follow opened = some opened := by
  cases event with
  | resolved | invalidated => rfl
  | called | returned => cases plain

theorem Balanced.openCalls (balanced : Balanced events) (opened : List (String × Nat)) :
    openCalls opened events = some opened := by
  induction balanced generalizing opened with
  | nil => rfl
  | other plain => simp [TraceEvent.follow_plain plain, DynamicObjects.openCalls]
  | append _ _ ih ih' => simp [openCalls_append, ih, ih']
  | call op typeName depth _ ih =>
    rw [openCalls_append, openCalls_cons, TraceEvent.follow, Option.bind_some, ih, Option.bind_some,
      openCalls_cons]
    simp [TraceEvent.follow, DynamicObjects.openCalls]

theorem Balanced.plain (plain : ∀ event ∈ events, event.isBracket = false) : Balanced events := by
  induction events with
  | nil => exact .nil
  | cons event rest ih =>
    obtain ⟨first, others⟩ := List.forall_mem_cons.mp plain
    have single : Balanced [event] := .other first
    exact .append single (ih others)

/-- The events end every call that is open, one after the other, and match apart from that. -/
def Ends : List (String × Nat) → List TraceEvent → Prop
  | [], events => Balanced events
  | (op, depth) :: outer, events => ∃ inner rest, Balanced inner ∧ Ends outer rest ∧
      events = inner ++ .returned op (depth - 1) :: rest

theorem Ends.prepend (balanced : Balanced early) (ends : Ends opened late) :
    Ends opened (early ++ late) := by
  cases opened with
  | nil => exact .append balanced ends
  | cons call outer =>
    obtain ⟨inner, rest, body, after, rfl⟩ := ends
    exact ⟨early ++ inner, rest, .append balanced body, after, by simp⟩

theorem ends_of_openCalls (closed : openCalls opened events = some []) : Ends opened events := by
  induction events generalizing opened with
  | nil =>
    obtain rfl := Option.some.inj closed
    exact .nil
  | cons event rest ih =>
    rw [openCalls_cons] at closed
    obtain ⟨opened', followed, closed⟩ := Option.bind_eq_some_iff.mp closed
    have ends := ih closed
    cases event with
    | called op typeName depth =>
      obtain rfl := Option.some.inj followed
      obtain ⟨inner, rest, body, after, rfl⟩ := ends
      have call : Balanced (.called op typeName depth :: inner ++ [.returned op (depth - 1)]) :=
        .call op typeName depth body
      simpa using Ends.prepend call after
    | returned op outside =>
      cases opened with
      | nil => cases followed
      | cons innermost outer =>
        simp only [TraceEvent.follow, Option.ite_none_right_eq_some] at followed
        obtain ⟨⟨sameOp, sameDepth⟩, same⟩ := followed
        refine ⟨[], rest, .nil, Option.some.inj same ▸ ends, ?_⟩
        simp [sameOp, sameDepth]
    | resolved | invalidated =>
      obtain rfl := Option.some.inj followed
      exact Ends.prepend (.other rfl) ends

theorem balanced_iff : Balanced events ↔ openCalls [] events = some [] :=
  ⟨fun balanced => balanced.openCalls [], fun closed => ends_of_openCalls closed⟩

example : openCalls [] [.called "__add__" "C" 1, .called "__len__" "C" 2, .returned "__add__" 0,
    .returned "__len__" 1] = none := by decide

end Brackets

def World.Brackets (w w' : World) : Prop :=
  ∀ recorder, ∃ events,
    w'.dispatcher.heard recorder = w.dispatcher.heard recorder ++ events ∧ Balanced events

namespace World.Brackets

variable {w w' w'' : World}

theorem of_hushed (hushed : w.dispatcher.Hushed w'.dispatcher) : w.Brackets w' := by
  intro recorder
  obtain ⟨events, heard, plain⟩ := hushed recorder
  exact ⟨events, heard, .plain plain⟩

theorem refl (w : World) : w.Brackets w := of_hushed (.of_recorders rfl)

theorem trans (first : w.Brackets w') (second : w'.Brackets w'') : w.Brackets w'' := by
  intro recorder
  obtain ⟨early, heardEarly, balancedEarly⟩ := first recorder
  obtain ⟨late, heardLate, balancedLate⟩ := second recorder
  exact ⟨early ++ late, by rw [heardLate, heardEarly, List.append_assoc],
    .append balancedEarly balancedLate⟩

theorem call {tracer : Tracer} {op typeName : String} {depth : Nat}
    (body : World.Brackets
      { w with dispatcher := w.dispatcher.tell tracer (.called op typeName depth) } w') :
    w.Brackets
      { w' with dispatcher := w'.dispatcher.tell tracer (.returned op (depth - 1)) } := by
  intro recorder
  obtain ⟨inner, heard, balanced⟩ := body recorder
  simp only [Dispatcher.heard_tell] at heard ⊢
  by_cases told : tracer = .recording recorder
  · refine ⟨_, ?_, .call op typeName depth balanced⟩
    simp [heard, told]
  · exact ⟨inner, by simp [heard, told], balanced⟩

end World.Brackets

def Conduct.bracketing : Conduct where
  -- As with the levels, every error is allowed and the dispatch layer may be in any state.
  __ := levels
  Step := World.Brackets
  refl := .refl
  trans := .trans
  retained _ := .of_hushed (.of_recorders rfl)
  dispatched hushed := .of_hushed hushed
  traced body := body.call
  nested := id
  printed := id
  limited := id

theorem Conduct.bracketing_free : Conduct.bracketing.Free where
  lax := id
  writes _ _ _ := .of_hushed (.of_recorders rfl)
  session _ _ := .of_hushed (.of_recorders rfl)
  performed _ _ := trivial
  redefined _ _ := trivial

namespace Script

namespace Program

/-- The state after several steps, whether or not they fail. -/
def after (h : Hooks) (w : World) (steps : List Step) : World :=
  steps.foldl (fun w step => (step.run h w).2) w

def finish (h : Hooks) (p : Program) : World :=
  after h (defineClasses h 0 p.classes p.start).2 p.steps

theorem after_brackets (n : Nat) (w : World) (steps : List Step) :
    w.Brackets (after (hooks n) w steps) := by
  have free := Conduct.bracketing_free
  induction steps generalizing w with
  | nil => exact .refl w
  | cons step rest ih =>
    have once := (step_obeys free (hooks_conducts free n) step w trivial).2.1
    exact once.trans (ih _)

theorem finish_brackets (n : Nat) (p : Program) : p.start.Brackets (p.finish (hooks n)) := by
  have free := Conduct.bracketing_free
  have defined := defineClasses_obeys free (hooks_conducts free n) 0 p.classes p.start trivial
  exact defined.2.1.trans (after_brackets n _ p.steps)

theorem heard_start (p : Program) (recorder : Nat) : p.start.dispatcher.heard recorder = [] := by
  obtain ⟨foundation, classes, steps, watch, logging⟩ := p
  cases foundation <;> rfl

end Program

/-- Whatever is called, and whatever its code does before it comes back or fails: what a recorder
hears meanwhile leaves open exactly the calls that were open before. Over a whole program, each call
that comes back ends the innermost open one, with its operation and one level up, and none is left. -/
theorem calls_balanced (n : Nat) :
    (∀ (t : Thunk) (args : List Value) (w : World) (recorder : Nat), ∃ events,
      (Protocol.callThunk (hooks n) t args w).2.dispatcher.heard recorder =
        w.dispatcher.heard recorder ++ events ∧
      ∀ opened, openCalls opened events = some opened) ∧
    (∀ (steps : List Step) (w : World) (recorder : Nat), ∃ events,
      (Program.after (hooks n) w steps).dispatcher.heard recorder =
        w.dispatcher.heard recorder ++ events ∧
      ∀ opened, openCalls opened events = some opened) ∧
    ∀ (p : Program) (recorder : Nat),
      openCalls [] ((p.finish (hooks n)).dispatcher.heard recorder) = some [] := by
  have free := Conduct.bracketing_free
  refine ⟨fun t args w recorder => ?_, fun steps w recorder => ?_, fun p recorder => ?_⟩
  · have called := free.callThunk_obeys (hooks_conducts free n) t args w trivial
    obtain ⟨events, heard, balanced⟩ := called.2.1 recorder
    exact ⟨events, heard, balanced.openCalls⟩
  · obtain ⟨events, heard, balanced⟩ := Program.after_brackets n w steps recorder
    exact ⟨events, heard, balanced.openCalls⟩
  · obtain ⟨events, heard, balanced⟩ := Program.finish_brackets n p recorder
    rw [heard, Program.heard_start, List.nil_append]
    exact balanced.openCalls []

def fickle : Program where
  foundation := .model
  classes := [⟨some "Bag", [("__len__", .function "size"
    [.act .len [.list []] none, .act (.setTracing false) [] none, .act .len [.none] none])]⟩]
  steps := [.act (.setTracer (some .recording)) [] none, .act (.setTracing true) [] none,
    .act .len [.object 0 .none] none]
  watch := []
  logging := false

example : (fickle.finish (hooks 5)).dispatcher.heard 0 =
    [.invalidated 1 0, .resolved "__len__" "Bag" false, .called "__len__" "Bag" 1,
      .resolved "__len__" "list" false, .called "__len__" "list" 2, .returned "__len__" 1,
      .returned "__len__" 0] := by decide +kernel

end Script

end DynamicObjects
