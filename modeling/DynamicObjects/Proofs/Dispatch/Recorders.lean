import DynamicObjects.Proofs.Dispatch.Courses

/-!
What recorders hear. Every operation of the dispatch layer leaves what was heard before and adds its
own events behind; only a call that runs adds the two ends of a call.
-/
namespace DynamicObjects

def TraceEvent.isBracket : TraceEvent → Bool
  | .called .. | .returned .. => true
  | .resolved .. | .invalidated .. => false

namespace Dispatcher

variable {d d' d'' : Dispatcher}

theorem heard_congr (same : d'.recorders = d.recorders) (number : Nat) :
    d'.heard number = d.heard number := by
  simp only [heard, same]

theorem getD_record (number other : Nat) (event : TraceEvent) (recorders : Array (List TraceEvent)) :
    (record number event recorders).getD other [] =
      if number = other then event :: recorders.getD other [] else recorders.getD other [] := by
  unfold record
  simp only [Array.getD_eq_getD_getElem?]
  split
  next known =>
    rw [Array.getElem?_modify]
    by_cases here : number = other
    · simp [here, here ▸ known]
    · simp [here]
  next unknown =>
    have size : (recorders ++ Array.replicate (number - recorders.size) []).size = number := by
      simp
      omega
    rw [Array.getElem?_push, size, Array.getElem?_append, Array.getElem?_replicate]
    by_cases here : number = other
    · have beyond : ¬ other < recorders.size := here ▸ unknown
      simp [here, beyond]
    · have away : ¬ other = number := fun same => here same.symm
      by_cases known : other < recorders.size
      · simp [here, away, known]
      · simp only [away, known, here, if_false]
        split <;> simp [known]

/-- An event reaches the recorder that is told about it, and no other. -/
theorem heard_tell (d : Dispatcher) (tracer : Tracer) (event : TraceEvent) (number : Nat) :
    (d.tell tracer event).heard number =
      d.heard number ++ if tracer = .recording number then [event] else [] := by
  cases tracer with
  | silent => simp [tell]
  | log =>
    have same : (d.note (eventLine event)).recorders = d.recorders := by rw [note_eq]
    simp [tell, heard_congr same]
  | recording told =>
    simp only [tell, heard, getD_record, Tracer.recording.injEq]
    split <;> simp

/-- From the first state to the second, recorders hear nothing of calls. -/
def Hushed (d d' : Dispatcher) : Prop :=
  ∀ number, ∃ events, d'.heard number = d.heard number ++ events ∧
    ∀ event ∈ events, event.isBracket = false

theorem Hushed.of_recorders (same : d'.recorders = d.recorders) : d.Hushed d' :=
  fun number => ⟨[], by simp [heard_congr same number], by simp⟩

theorem Hushed.trans (first : d.Hushed d') (second : d'.Hushed d'') : d.Hushed d'' := by
  intro number
  obtain ⟨early, heardEarly, plainEarly⟩ := first number
  obtain ⟨late, heardLate, plainLate⟩ := second number
  refine ⟨early ++ late, by rw [heardLate, heardEarly, List.append_assoc], fun event mem => ?_⟩
  exact (List.mem_append.mp mem).elim (plainEarly event) (plainLate event)

theorem hushed_note (d : Dispatcher) (line : String) : d.Hushed (d.note line) :=
  .of_recorders (by rw [note_eq])

theorem hushed_tell (d : Dispatcher) (tracer : Tracer) {event : TraceEvent}
    (plain : event.isBracket = false) : d.Hushed (d.tell tracer event) := by
  refine fun number => ⟨_, heard_tell d tracer event number, fun event' mem => ?_⟩
  split at mem
  · rw [List.mem_singleton.mp mem]
    exact plain
  · cases mem

theorem hushed_tellSome (d : Dispatcher) (tracer : Option Tracer) {event : TraceEvent}
    (plain : event.isBracket = false) : d.Hushed (d.tellSome tracer event) := by
  cases tracer with
  | none => exact .of_recorders rfl
  | some tracer => exact hushed_tell d tracer plain

theorem hushed_resolve (hasSlot : Kind → Operation → Bool) (d : Dispatcher) (op : Operation)
    (key : TypeKey) : d.Hushed (d.resolve hasSlot op key).2 := by
  cases current : d.current? op key with
  | some t =>
    simp only [resolve, current]
    exact ((Hushed.of_recorders rfl).trans (hushed_note { d with hits := d.hits + 1 } _)).trans
      (hushed_tellSome _ _ rfl)
  | none =>
    obtain ⟨lookups, built⟩ := exists_build hasSlot { d with
      misses := d.misses + 1
      entries := setEntry (op, key) (.resolving d.version) d.entries } op key
    simp only [resolve, current, built]
    refine Hushed.trans (.of_recorders ?_) (hushed_tellSome _ _ rfl)
    rw [note_eq]

theorem hushed_resolveSite (hasSlot : Kind → Operation → Bool) {i : Nat} {key : TypeKey} {t : Thunk}
    (resolved : d.resolveSite hasSlot i key = some (t, d')) : d.Hushed d' := by
  cases found : d.sites[i]? with
  | none => simp [resolveSite, found] at resolved
  | some s =>
    obtain ⟨t', -, current⟩ | ⟨-, missed⟩ := resolveSite_cases hasSlot d found key
    · obtain ⟨-, rfl⟩ := Prod.mk.inj (Option.some.inj (current.symm.trans resolved))
      exact .of_recorders rfl
    · obtain ⟨-, rfl⟩ := Prod.mk.inj (Option.some.inj (missed.symm.trans resolved))
      exact (hushed_resolve hasSlot d s.op key).trans (.of_recorders rfl)

theorem hushed_bump (d : Dispatcher) (reason : String) : d.Hushed (d.bump reason) := by
  obtain ⟨sites, invalidated, -⟩ := invalidate_eq d
  simp only [bump, invalidated]
  rw [note_eq]
  split
  · exact Hushed.trans (.of_recorders rfl) (hushed_tellSome _ _ rfl)
  · exact .of_recorders rfl

theorem hushed_change (d : Dispatcher) (c : WorldChange) : d.Hushed (d.change c) := by
  obtain ⟨policy, tracer, log, ⟨changed, -, -⟩ | ⟨reason, changed⟩⟩ := change_cases d c
  · exact .of_recorders (by rw [changed])
  · rw [changed]
    exact Hushed.trans (.of_recorders rfl) (hushed_bump _ reason)

theorem hushed_addRecorder (d : Dispatcher) : d.Hushed d.addRecorder.2 := by
  refine fun number => ⟨[], ?_, by simp⟩
  simp only [heard, addRecorder, Array.getD_eq_getD_getElem?, Array.getElem?_push]
  split
  next new => simp [new]
  next => simp

end Dispatcher

/-- What the layer does by itself, without a call that is told about. -/
def DispatchAction.Unheard (d : Dispatcher) : DispatchAction → Prop
  | .tell _ event => event.isBracket = false
  | .putBooks _ recorders _ => recorders = d.recorders
  | _ => True

namespace Dispatcher

theorem hushed_perform (hasSlot : Kind → Operation → Bool) (d : Dispatcher) {a : DispatchAction}
    (unheard : a.Unheard d) : d.Hushed (d.perform hasSlot a) := by
  cases a with
  | resolve op key => exact hushed_resolve hasSlot d op key
  | change c => exact hushed_change d c
  | redefine model c => exact Hushed.trans (.of_recorders rfl) (hushed_change { d with model } c)
  | openSite op =>
    obtain ⟨log, opened⟩ := openSite_eq d op
    exact .of_recorders (by simp only [perform, opened, withSite])
  | resolveSite site key =>
    simp only [perform]
    cases resolved : d.resolveSite hasSlot site key with
    | none => exact .of_recorders rfl
    | some found => exact hushed_resolveSite hasSlot resolved
  | holdSite site => exact .of_recorders rfl
  | releaseSite site => exact .of_recorders rfl
  | sweep =>
    obtain ⟨log, swept⟩ := sweepNow_eq d
    exact .of_recorders (by simp only [perform, swept])
  | tell tracer event => exact hushed_tell d tracer unheard
  | addRecorder => exact hushed_addRecorder d
  | putBooks log recorders lookups => exact .of_recorders unheard

end Dispatcher

end DynamicObjects
