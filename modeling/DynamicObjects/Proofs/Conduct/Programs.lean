import DynamicObjects.Script.Execution
import DynamicObjects.Proofs.Conduct.Callbacks

/-!
Programs. A conduct that leaves programs free in what they do to the store, to their variables and,
by its operations, to the dispatch layer is obeyed by every program, and so by everything that is
asked while programs run.
-/
namespace DynamicObjects

/-- Nothing is asked of the store, of variables and of receivers. -/
structure Conduct.Free (J : Conduct) : Prop where
  lax : ¬ J.Strict
  writes : J.Writes
  session : ∀ (w : World) session, J.Step w { w with session }
  performed : ∀ {d : Dispatcher} a, J.Kept d → J.Kept (d.perform Kind.hasSlot a)
  redefined : ∀ {d : Dispatcher} model, J.Kept d → J.Kept { d with model }

open Conduct

variable {α : Type} {J : Conduct} {h : Hooks}

namespace Conduct.Free

variable (free : J.Free)

include free

theorem obeys_modifySession (f : Session → Session) : J.Obeys (Script.modifySession f) :=
  fun w kept => ⟨kept, free.session w _, trivial⟩

theorem obeys_performs {x : Run α} {a : Dispatcher → DispatchAction} {f : Dispatcher → α}
    (performs : ∀ w, x w = (.ok (f w.dispatcher),
      { w with dispatcher := w.dispatcher.perform Kind.hasSlot (a w.dispatcher) }))
    (unheard : ∀ d, (a d).Unheard d) : J.Obeys x := by
  intro w kept
  rw [performs]
  exact ⟨free.performed _ kept, J.dispatched (Dispatcher.hushed_perform _ _ (unheard _)), trivial⟩

theorem obeys_modifyDispatcher {f : Dispatcher → Dispatcher} {a : Dispatcher → DispatchAction}
    (performs : ∀ d, f d = d.perform Kind.hasSlot (a d))
    (unheard : ∀ d, (a d).Unheard d := by exact fun _ => trivial) :
    J.Obeys (Run.modifyDispatcher f) :=
  free.obeys_performs (f := fun _ => ())
    (fun w => by rw [← performs]; rfl) unheard

theorem obeys_changeDispatcher {f : Dispatcher → α × Dispatcher} {a : Dispatcher → DispatchAction}
    (performs : ∀ d, (f d).2 = d.perform Kind.hasSlot (a d))
    (unheard : ∀ d, (a d).Unheard d := by exact fun _ => trivial) :
    J.Obeys (Run.changeDispatcher f) :=
  free.obeys_performs (f := fun d => (f d).1)
    (fun w => by rw [← performs]; rfl) unheard

theorem obeys_modifyModel (f : ClassModel → ClassModel) : J.Obeys (Script.modifyModel f) :=
  fun _ kept => ⟨free.redefined _ kept, J.dispatched (.of_recorders rfl), trivial⟩

theorem callSlot_obeys (hooks : h.Conducts J) (op : Operation) (args : List Value) :
    J.Obeys (Protocol.callSlot h op args) :=
  Protocol.callSlot_obeys hooks (fun strict => absurd strict free.lax) args

theorem callThunk_obeys (hooks : h.Conducts J) (t : Thunk) (args : List Value) :
    J.Obeys (Protocol.callThunk h t args) :=
  Protocol.callThunk_obeys hooks t.op (fun strict => absurd strict free.lax)
    fun strict => absurd strict free.lax

end Conduct.Free

namespace Protocol

variable (hooks : h.Conducts J) (free : J.Free)

include hooks free

theorem binaryDispatch_obeys (op : BinaryOp) (a b : Value) : J.Obeys (binaryDispatch h op a b) := by
  have call := free.callSlot_obeys hooks
  unfold binaryDispatch
  grind

@[grind ←] theorem binary_obeys (op : BinaryOp) (a b : Value) : J.Obeys (binary h op a b) := by
  unfold binary
  grind [binaryDispatch_obeys]

@[grind ←] theorem inPlace_obeys (op : BinaryOp) (a b : Value) : J.Obeys (inPlace h op a b) := by
  unfold inPlace
  refine obeys_bind (free.callSlot_obeys hooks _ _) fun result => ?_
  split
  · exact obeys_pure _
  · refine obeys_bind (binaryDispatch_obeys hooks free op a b) fun answer => ?_
    grind

@[grind ←] theorem unary_obeys (op : UnaryOp) (a : Value) : J.Obeys (unary h op a) := by
  unfold unary
  refine obeys_bind (free.callSlot_obeys hooks _ _) fun result => ?_
  grind

@[grind ←] theorem getItem_obeys (container key : Value) : J.Obeys (getItem h container key) :=
  free.callSlot_obeys hooks _ _

@[grind ←] theorem setItem_obeys (container key value : Value) :
    J.Obeys (setItem h container key value) :=
  obeys_bind (free.callSlot_obeys hooks _ _) fun _ => obeys_pure _

@[grind ←] theorem delItem_obeys (container key : Value) : J.Obeys (delItem h container key) :=
  obeys_bind (free.callSlot_obeys hooks _ _) fun _ => obeys_pure _

@[grind ←] theorem callMethod_obeys (v : Value) (name : String) (args : List Value) :
    J.Obeys (callMethod h v name args) :=
  free.callSlot_obeys hooks _ _

@[grind ←] theorem getMember_obeys (v : Value) (name : String) : J.Obeys (getMember h v name) :=
  free.callSlot_obeys hooks _ _

omit free in
theorem containsByIteration_obeys (container item : Value) :
    J.Obeys (containsByIteration h container item) := by
  unfold containsByIteration
  refine obeys_bind (openIterator_obeys hooks container) fun it => ?_
  refine obeys_bind (search_obeys hooks (fun _ v => ?_) _ _ _) fun answer => ?_
  · grind
  · grind

@[grind ←] theorem contains_obeys (container item : Value) : J.Obeys (contains h container item) := by
  unfold contains
  refine obeys_bind_holds (resolve_holds hooks.slots .contains _) fun thunk _ => ?_
  split
  · exact containsByIteration_obeys hooks container item
  · exact obeys_bind (free.callThunk_obeys hooks thunk _) fun answer => truthy_obeys hooks answer

end Protocol

namespace Script

variable (free : J.Free)

section Names

include free

@[grind ←] theorem unknownName_obeys (name : String) : J.Obeys (unknownName name : Run α) :=
  obeys_raise fun strict => absurd strict free.lax

@[grind ←] theorem malformed_obeys : J.Obeys (malformed : Run α) :=
  obeys_raise fun strict => absurd strict free.lax

@[grind ←] theorem readVariable_obeys (name : String) : J.Obeys (readVariable name) := by
  unfold readVariable
  grind

@[grind ←] theorem setVariable_obeys (name : String) (v : Value) : J.Obeys (setVariable name v) :=
  free.obeys_modifySession _

@[grind ←] theorem iterator_obeys (name : String) : J.Obeys (iterator name) := by
  unfold iterator
  grind

@[grind ←] theorem thunk_obeys (name : String) : J.Obeys (thunk name) := by
  unfold thunk
  grind

@[grind ←] theorem site_obeys (name : String) : J.Obeys (site name) := by
  unfold site
  grind

theorem releaseSite_obeys (number : Nat) :
    J.Obeys (Run.modifyDispatcher (·.releaseSite number)) :=
  free.obeys_modifyDispatcher (a := fun _ => .releaseSite number) fun _ => rfl

@[grind ←] theorem forgetSite_obeys (name : String) : J.Obeys (forgetSite name) := by
  unfold forgetSite
  refine obeys_bind (obeys_read _) fun number => ?_
  split
  · exact obeys_bind (releaseSite_obeys free _) fun _ => free.obeys_modifySession _
  · exact obeys_pure _

@[grind ←] theorem setSite_obeys (name : String) (number : Nat) : J.Obeys (setSite name number) :=
  obeys_bind (forgetSite_obeys free name) fun _ => free.obeys_modifySession _

theorem withFrame_obeys (args : List Value) {x : Run α} (hx : J.Obeys x) :
    J.Obeys (withFrame args x) := by
  unfold withFrame
  refine obeys_bind (obeys_read _) fun callers => ?_
  refine obeys_bind (free.obeys_modifySession _) fun _ w kept => ?_
  obtain ⟨kept', step, suits⟩ := hx w kept
  exact ⟨kept', J.trans step (free.session _ _), suits⟩

theorem withSite_obeys (name : String) {x : Nat → Run α} (hx : ∀ number, J.Obeys (x number)) :
    J.Obeys (withSite name x) := by
  unfold withSite
  refine obeys_bind (site_obeys free name) fun number => ?_
  refine obeys_bind (free.obeys_modifyDispatcher (a := fun _ => .holdSite number) fun _ => rfl)
    fun _ w kept => ?_
  obtain ⟨kept', step, suits⟩ := hx number w kept
  exact ⟨free.performed (.releaseSite number) kept',
    J.trans step (J.dispatched (.of_recorders rfl)), suits⟩

end Names

/-! ## Verbs -/

@[grind ←] theorem giveValue_obeys (v : Value) : J.Obeys (giveValue v) := obeys_pure _

@[grind ←] theorem giveFlag_obeys (b : Bool) : J.Obeys (giveFlag b) := obeys_pure _

@[grind ←] theorem giveText_obeys (text : String) : J.Obeys (giveText text) :=
  obeys_bind (obeys_newText text) fun _ => obeys_pure _

@[grind ←] theorem giveReport_obeys (r : Report) : J.Obeys (giveReport r) := obeys_pure _

@[grind ←] theorem giveNothing_obeys : J.Obeys giveNothing := obeys_pure _

section Verbs

variable (hooks : h.Conducts J)

include free

@[grind ←] theorem oneOperand_obeys (operands : List Value) {f : Value → Run α} (hf : ∀ a, J.Obeys (f a)) :
    J.Obeys (oneOperand operands f) := by
  unfold oneOperand
  grind

@[grind ←] theorem twoOperands_obeys (operands : List Value) {f : Value → Value → Run α}
    (hf : ∀ a b, J.Obeys (f a b)) : J.Obeys (twoOperands operands f) := by
  unfold twoOperands
  grind

@[grind ←] theorem itemOf_obeys (index : Int) (v : Value) : J.Obeys (itemOf index v) := by
  unfold itemOf
  grind

@[grind ←] theorem sliceItems_obeys (s : Slice) (v : Value) : J.Obeys (sliceItems s v) := by
  unfold sliceItems
  grind

@[grind ←] theorem joinBytes_obeys (a b : Value) : J.Obeys (joinBytes a b) := by
  unfold joinBytes
  grind

@[grind ←] theorem newSite_obeys (op : Operation) (name : Option String) : J.Obeys (newSite op name) := by
  unfold newSite
  refine obeys_bind (free.obeys_changeDispatcher (a := fun _ => .openSite op) fun _ => rfl)
    fun number => ?_
  split
  · exact setSite_obeys free _ _
  · exact releaseSite_obeys free _

theorem setTracer_obeys (tracer : Option Tracer) :
    J.Obeys (Run.modifyDispatcher (·.setTracer tracer)) :=
  free.obeys_modifyDispatcher (a := fun _ => .change (.setTracer tracer)) fun _ => rfl

@[grind ←] theorem installTracer_obeys (choice : Option TracerChoice) : J.Obeys (installTracer choice) := by
  unfold installTracer
  split
  · exact setTracer_obeys free _
  · exact setTracer_obeys free _
  · exact setTracer_obeys free _
  · refine obeys_bind (free.obeys_changeDispatcher (a := fun _ => .addRecorder) fun _ => rfl)
      fun number => ?_
    exact obeys_bind (free.obeys_modifySession _) fun _ => setTracer_obeys free _

@[grind ←] theorem takeEvents_obeys (keep : Bool) : J.Obeys (takeEvents keep) := by
  unfold takeEvents
  refine obeys_bind (obeys_read _) fun recorder => ?_
  split
  · exact obeys_pure _
  · refine obeys_bind (obeys_readDispatcher _) fun heard => ?_
    split
    · exact obeys_pure _
    · exact obeys_bind (free.obeys_modifySession _) fun _ => obeys_pure _

@[grind ←] theorem takeLog_obeys : J.Obeys takeLog :=
  free.obeys_changeDispatcher (a := fun d => .putBooks [] d.recorders d.model.lookups)
    (fun _ => rfl) fun _ => rfl

@[grind ←] theorem takeLookups_obeys : J.Obeys takeLookups :=
  free.obeys_changeDispatcher (a := fun d => .putBooks d.log d.recorders [])
    (fun _ => rfl) fun _ => rfl

include hooks

@[grind ←] theorem iteratorOver_obeys (backwards : Bool) (v : Value) :
    J.Obeys (iteratorOver h backwards v) := by
  unfold iteratorOver
  grind

@[grind ←] theorem nextElement_obeys (name : String) : J.Obeys (nextElement h name) := by
  unfold nextElement giveValue giveReport
  refine obeys_bind (iterator_obeys free name) fun it => ?_
  refine obeys_bind_holds (Protocol.step_holds hooks it) fun answer allowed => ?_
  refine obeys_bind (free.obeys_modifySession _) fun _ => ?_
  refine obeys_bind (obeys_ofExcept allowed) fun next => ?_
  grind

@[grind ←] theorem runSite_obeys (number : Nat) (args : List Value) : J.Obeys (runSite h number args) := by
  unfold runSite
  refine obeys_bind (fun w kept => ?_) fun resolved => ?_
  · have performed := free.performed (.resolveSite number (Protocol.receiver args).typeKey) kept
    simp only [Run.change, hooks.slots]
    simp only [Dispatcher.perform] at performed
    split
    next t d resolved =>
      rw [resolved] at performed
      exact ⟨performed, J.dispatched (Dispatcher.hushed_resolveSite _ resolved), trivial⟩
    next => exact ⟨kept, J.refl w, trivial⟩
  · split
    · exact free.callThunk_obeys hooks _ args
    · exact obeys_raise fun strict => absurd strict free.lax

omit hooks in
theorem trim_obeys (a : Value) : J.Obeys (match a with
    | .list r => do
      r.trim
      giveNothing
    | _ => malformed) := by
  split
  next r =>
    have trim : J.Commits r.trim := commits_modifyStore fun s => s.grows_modifyList r _
    exact obeys_bind (trim.obeys free.writes) fun _ => giveNothing_obeys
  next => exact malformed_obeys free

theorem verb_obeys (verb : Verb) (operands : List Value) : J.Obeys (verb.run h operands) := by
  have change : ∀ c, J.Obeys (Run.modifyDispatcher (·.change c) >>= fun _ => giveNothing) := fun c =>
    obeys_bind (free.obeys_modifyDispatcher (a := fun _ => .change c) fun _ => rfl)
      fun _ => giveNothing_obeys
  cases verb with
  | older =>
    exact twoOperands_obeys free operands fun a b =>
      obeys_bind (obeys_readStore _) fun _ => giveFlag_obeys _
  | makeDict =>
    exact oneOperand_obeys free operands fun a =>
      obeys_bind (DictRef.ofValue_obeys hooks free.writes a) fun _ => giveValue_obeys _
  | fromKeys =>
    exact twoOperands_obeys free operands fun a b =>
      obeys_bind (DictRef.fromKeys_obeys hooks free.writes a b) fun _ => giveValue_obeys _
  | trim => exact oneOperand_obeys free operands (trim_obeys free)
  | openIterator name backwards =>
    exact oneOperand_obeys free operands fun a =>
      obeys_bind (iteratorOver_obeys free hooks backwards a) fun it =>
        obeys_bind (free.obeys_modifySession _) fun _ => giveNothing_obeys
  | dispatch op => exact obeys_bind (free.callSlot_obeys hooks op operands) fun _ => giveValue_obeys _
  | resolve op key name =>
    refine obeys_bind (Protocol.resolve_holds hooks.slots op key).obeys fun t => ?_
    cases name with
    | some name => exact obeys_bind (free.obeys_modifySession _) fun _ => giveReport_obeys _
    | none => exact giveReport_obeys _
  | invalidate => exact change .invalidateAll
  | notifyClass number => exact change (.typeChanged number)
  | setPolicy tracing limit => exact change (.setPolicy ⟨tracing, limit⟩)
  | setTracing on => exact change (.setTracing on)
  | setLimit limit => exact change (.setRecursionLimit limit)
  | sweep =>
    have sweep : J.Obeys (Run.changeDispatcher (·.sweepNow)) :=
      free.obeys_changeDispatcher (a := fun _ => .sweep) fun _ => rfl
    exact obeys_bind sweep fun _ => giveReport_obeys _
  | setSlot number name =>
    exact oneOperand_obeys free operands fun a =>
      obeys_bind (free.obeys_modifyModel _) fun _ => giveNothing_obeys
  | delSlot number name =>
    exact obeys_bind (free.obeys_modifyModel _) fun _ => giveNothing_obeys
  | _ =>
    unfold Verb.run
    grind

end Verbs

/-! ## Expressions and steps -/

section Steps

variable (hooks : h.Conducts J)

include free hooks

theorem wrapTimes_obeys (wrapper : Wrapper) (count : Nat) (v : Value) :
    J.Obeys (wrapper.wrapTimes h count v) := by
  induction count generalizing v with
  | zero => exact obeys_pure _
  | succ count ih =>
    unfold Wrapper.wrapTimes Wrapper.wrap
    grind [DictRef.ofPairs_obeys, Conduct.Free]

set_option linter.unusedSectionVars false in
mutual

theorem evaluate_obeys (e : Expr) : J.Obeys (e.evaluate h) := by
  cases e with
  | tuple items =>
    exact obeys_bind (evaluateAll_obeys items) fun _ => obeys_newTuple _
  | list items =>
    exact obeys_bind (evaluateAll_obeys items) fun _ => obeys_newListOf _
  | dict pairs =>
    exact obeys_bind (evaluatePairs_obeys pairs) fun entries =>
      obeys_bind (DictRef.ofPairs_obeys hooks free.writes entries) fun _ => obeys_pure _
  | frozenSet items =>
    exact obeys_bind (evaluateAll_obeys items) fun values =>
      obeys_bind (SetTable.ofValues_obeys hooks values) fun _ => obeys_newFrozenSet _
  | object number payload =>
    exact obeys_bind (evaluate_obeys payload) fun _ => obeys_newObject _ _
  | nest wrapper count inner =>
    exact obeys_bind (evaluate_obeys inner) fun v => wrapTimes_obeys free hooks wrapper count v
  | var name => exact readVariable_obeys free name
  | str text => exact obeys_newText text
  | bytes data => exact obeys_newBytes data
  | byteArray data => exact obeys_newByteArrayOf data
  | range start stop => exact obeys_newListOf _
  | function name body => exact obeys_bind obeys_fresh fun _ => obeys_pure _
  | _ => exact obeys_pure _

theorem evaluateAll_obeys (es : List Expr) : J.Obeys (evaluateAll h es) := by
  cases es with
  | nil => exact obeys_pure _
  | cons e rest =>
    exact obeys_bind (evaluate_obeys e) fun _ =>
      obeys_bind (evaluateAll_obeys rest) fun _ => obeys_pure _

theorem evaluatePairs_obeys (pairs : List (Expr × Expr)) : J.Obeys (evaluatePairs h pairs) := by
  cases pairs with
  | nil => exact obeys_pure _
  | cons pair rest =>
    obtain ⟨key, value⟩ := pair
    exact obeys_bind (evaluate_obeys key) fun _ => obeys_bind (evaluate_obeys value) fun _ =>
      obeys_bind (evaluatePairs_obeys rest) fun _ => obeys_pure _

end

omit hooks in
theorem store_obeys (target : Option String) (answer : Answer) : J.Obeys (store target answer) := by
  unfold store
  grind

theorem callee_obeys (callee : Callee) {operands : Run (List Value)} (obeys : J.Obeys operands) :
    J.Obeys (callee.call h operands) := by
  cases callee with
  | thunk name =>
    exact obeys_bind (thunk_obeys free name) fun t =>
      obeys_bind obeys fun args => free.callThunk_obeys hooks t args
  | site name =>
    exact withSite_obeys free name fun number =>
      obeys_bind obeys fun args => runSite_obeys free hooks number args

omit hooks in
theorem countUp_obeys {body : Run Unit} (obeys : J.Obeys body) (count remaining : Nat) :
    J.Obeys (countUp body count remaining) := by
  induction remaining with
  | zero => exact obeys_pure _
  | succ remaining ih =>
    exact obeys_bind (setVariable_obeys free "i" _) fun _ => obeys_bind obeys fun _ => ih

set_option linter.unusedSectionVars false in
mutual

theorem step_obeys (step : Step) : J.Obeys (step.run h) := by
  cases step with
  | act verb operands target =>
    exact obeys_bind (evaluateAll_obeys free hooks operands) fun args =>
      obeys_bind (verb_obeys free hooks verb args) fun answer => store_obeys free target answer
  | call callee operands target =>
    exact obeys_bind (callee_obeys free hooks callee (evaluateAll_obeys free hooks operands))
      fun _ => store_obeys free target _
  | branch condition yes no target =>
    refine obeys_bind (evaluate_obeys free hooks condition) fun v => ?_
    refine obeys_bind (Protocol.truthy_obeys hooks v) fun answer => ?_
    split
    · exact obeys_bind (runSteps_obeys .none yes) fun _ => store_obeys free target _
    · exact obeys_bind (runSteps_obeys .none no) fun _ => store_obeys free target _
  | loop count body target =>
    have once : J.Obeys (runSteps h .none body >>= fun _ => pure ()) :=
      obeys_bind (runSteps_obeys .none body) fun _ => obeys_pure _
    exact obeys_bind (countUp_obeys free once count count) fun _ => store_obeys free target _

theorem runSteps_obeys (last : Value) (steps : List Step) : J.Obeys (runSteps h last steps) := by
  cases steps with
  | nil => exact obeys_pure _
  | cons step rest =>
    exact obeys_bind (step_obeys step) fun answer => runSteps_obeys answer.toValue rest

end

theorem invoke_obeys (callable : Value) (args : List Value) : J.Obeys (invoke h callable args) := by
  unfold invoke
  split
  · exact withFrame_obeys free args (runSteps_obeys free hooks _ _)
  · exact obeys_raise fun _ => rfl

theorem enumerate_obeys (v : Value) : J.Obeys (enumerate h v) := by
  have call := invoke_obeys free hooks
  unfold enumerate
  dsimp only
  split
  · refine obeys_bind (obeys_readDispatcher _) fun slot => ?_
    grind
  · refine obeys_bind (obeys_pure _) fun slot => ?_
    grind

/-! ## Classes -/

theorem defineSlots_obeys (number : Nat) (slots : List (String × Expr)) :
    J.Obeys (Program.defineSlots h number slots) := by
  induction slots with
  | nil => exact obeys_pure _
  | cons slot rest ih =>
    exact obeys_bind (evaluate_obeys free hooks slot.2) fun _ =>
      obeys_bind (free.obeys_modifyModel _) fun _ => ih

theorem defineClasses_obeys (number : Nat) (classes : List ClassText) :
    J.Obeys (Program.defineClasses h number classes) := by
  induction classes generalizing number with
  | nil => exact obeys_pure _
  | cons c rest ih =>
    exact obeys_bind (defineSlots_obeys free hooks number _) fun _ => ih (number + 1)

end Steps

theorem hooks_conducts (free : J.Free) (n : Nat) : (hooks n).Conducts J := by
  induction n with
  | zero =>
    exact ⟨rfl, fun _ => obeys_outOfFuel, fun _ _ => obeys_outOfFuel, fun _ => obeys_outOfFuel⟩
  | succ n ih =>
    refine ⟨rfl, ?_, fun f args => invoke_obeys free ih f args, fun v => enumerate_obeys free ih v⟩
    intro kind op args _
    simp only [hooks]
    split
    next slot found =>
      exact Kind.slot?_obeys ih found (fun strict => absurd strict free.lax) fun _ => free.writes
    next => exact obeys_raise fun strict => absurd strict free.lax

/-- The dispatch layer goes from one state that it can reach to another, and nothing ceases to
exist. -/
def orderly : Conduct where
  Step w w' := w.store.Grows w'.store
  Allowed _ := True
  Kept := Dispatcher.Reached
  Strict := False
  refl w := .refl w.store
  trans := .trans
  allowed _ := trivial
  retained retains := retains.grows
  dispatched _ := .refl _
  traced := id
  nested := id
  printed := id
  limited := id
  told reached := reached.tell _ _
  resolved reached := reached.resolve _ _
  fits strict := strict.elim

theorem orderly_free : orderly.Free where
  lax := id
  writes _ _ := id
  session w _ := .refl w.store
  performed a reached := reached.perform a
  redefined model reached := reached.redefine model

def code : UserCode where
  invoke
    | 0, _, _ => Run.outOfFuel
    | n + 1, f, args => invoke (hooks n) f args
  enumerate
    | 0, _ => Run.outOfFuel
    | n + 1, v => enumerate (hooks n) v
  invoke_orderly n f args w reached := by
    cases n with
    | zero => exact .refl reached
    | succ n =>
      have obeys := invoke_obeys orderly_free (hooks_conducts orderly_free n) f args w reached
      exact ⟨obeys.1, obeys.2.1⟩
  enumerate_orderly n v w reached := by
    cases n with
    | zero => exact .refl reached
    | succ n =>
      have obeys := enumerate_obeys orderly_free (hooks_conducts orderly_free n) v w reached
      exact ⟨obeys.1, obeys.2.1⟩

end Script

end DynamicObjects
