import DynamicObjects.Proofs.Conduct.Slots
import DynamicObjects.Proofs.Dispatch.Sites

/-!
The code that programs bring along. Functions and classes may do anything when they are called: only
what they do to the dispatch layer they do by its operations, and no object ceases to exist. Wherever
the layer gets to in this way, a prepared call that it holds was made for the operation and the key
that it is held under.
-/
namespace DynamicObjects

namespace Dispatcher

/-- The states of the dispatch layer that any sequence of its operations can lead to, also when the
classes change without a word and when sites are used that nothing holds on to. -/
inductive Reached : Dispatcher → Prop
  | initial (model : ClassModel) (config : CacheConfig) (policy : DispatchPolicy) (logging : Bool) :
    Reached (initial model config policy logging)
  | perform {d : Dispatcher} (reached : Reached d) (a : DispatchAction) :
    Reached (d.perform Kind.hasSlot a)
  | redefine {d : Dispatcher} (reached : Reached d) (model : ClassModel) : Reached { d with model }

/-- What is held under an operation and a key fits them, in the cache and at every site. -/
structure Aligned (d : Dispatcher) : Prop where
  cached : ∀ {op key t}, d.entry? op key = some (.cached t) → t.Fits op key
  installed : ∀ {i : Nat} {s key t}, d.sites[i]? = some s → s.entry = some (key, t) → t.Fits s.op key

variable {d d' : Dispatcher} {op : Operation} {key : TypeKey}

theorem freshThunk_fits (d : Dispatcher) (op : Operation) (key : TypeKey) (id : Nat) :
    (d.freshThunk Kind.hasSlot op key id).Fits op key := by
  refine ⟨rfl, rfl, fun builtin => ?_, ?_, ?_⟩
  case refine_2 | refine_3 =>
    rintro kind rfl found
    simp [freshThunk, targetNow, found]
  simp only [freshThunk, targetNow] at builtin
  cases key with
  | builtin kind =>
    refine ⟨kind, rfl, ?_⟩
    by_contra missing
    simp [missing] at builtin
  | userClass number =>
    dsimp only at builtin
    split at builtin
    · split at builtin <;> cases builtin
    · cases builtin

theorem Aligned.congr (h : d.Aligned) (entries : d'.entries = d.entries)
    (sites : ∀ (i : Nat) s', d'.sites[i]? = some s' →
      s'.entry = none ∨ ∃ s, d.sites[i]? = some s ∧ s'.op = s.op ∧ s'.entry = s.entry) :
    d'.Aligned := by
  constructor
  · intro op key t found
    exact h.cached (by rwa [ entry?, ← entries])
  · intro i s' key t found held
    obtain empty | ⟨s, found', sameOp, sameEntry⟩ := sites i s' found
    · rw [empty] at held
      cases held
    · rw [sameOp]
      exact h.installed found' (sameEntry ▸ held)

theorem Aligned.modifySite (h : d.Aligned) (i : Nat) {f : Site → Site}
    (same : ∀ s, (f s).op = s.op ∧ (f s).entry = s.entry) : (d.modifySite i f).Aligned := by
  refine h.congr rfl fun j s' found => .inr ?_
  rw [sites_modifySite] at found
  obtain ⟨s, found', rfl⟩ := Option.map_eq_some_iff.mp found
  refine ⟨s, found', ?_⟩
  split
  · exact same s
  · exact ⟨rfl, rfl⟩

theorem Aligned.bump (h : d.Aligned) (reason : String) : (d.bump reason).Aligned := by
  obtain ⟨log, recorders, sites, bumped, aged⟩ := bump_eq d reason
  rw [bumped]
  refine h.congr rfl fun i s' found => .inr ?_
  rw [aged] at found
  obtain ⟨s, found', rfl⟩ := Option.map_eq_some_iff.mp found
  exact ⟨s, found', rfl, rfl⟩

theorem Aligned.change (h : d.Aligned) (c : WorldChange) : (d.change c).Aligned := by
  obtain ⟨policy, tracer, log, ⟨changed, -, -⟩ | ⟨reason, changed⟩⟩ := change_cases d c
  · rw [changed]
    exact h.congr rfl fun i s found => .inr ⟨s, found, rfl, rfl⟩
  · rw [changed]
    have kept : Aligned { d with policy, tracer, log } :=
      h.congr rfl fun i s found => .inr ⟨s, found, rfl, rfl⟩
    exact kept.bump reason

theorem Aligned.resolve (h : d.Aligned) (op : Operation) (key : TypeKey) :
    (d.resolve Kind.hasSlot op key).1.Fits op key ∧ (d.resolve Kind.hasSlot op key).2.Aligned := by
  obtain ⟨t, log, recorders, current, resolved⟩ | ⟨-, log, recorders, lookups, resolved⟩ :=
    resolve_cases Kind.hasSlot d op key
  · rw [resolved]
    have held := (current?_eq_some_iff.mp current).1
    exact ⟨h.cached held, h.congr rfl fun i s found => .inr ⟨s, found, rfl, rfl⟩⟩
  · rw [resolved]
    refine ⟨d.freshThunk_fits op key d.nextThunk, ?_, h.installed⟩
    intro op' key' t found
    simp only [ entry?, lookup_setEntry] at found
    split at found
    next asked =>
      obtain rfl := SlotEntry.cached.inj (Option.some.inj found)
      obtain ⟨rfl, rfl⟩ := Prod.mk.inj asked
      exact d.freshThunk_fits op' key' d.nextThunk
    next => exact h.cached found

/-- A site gives a call that fits its operation and the key that is asked for, whatever key it was
used with before. -/
theorem Aligned.resolveSite (h : d.Aligned) {i : Nat} {s : Site} (found : d.sites[i]? = some s)
    (key : TypeKey) : ∃ t d', d.resolveSite Kind.hasSlot i key = some (t, d') ∧
      t.Fits s.op key ∧ d'.Aligned := by
  obtain ⟨t, current, resolved⟩ | ⟨-, resolved⟩ := resolveSite_cases Kind.hasSlot d found key
  · refine ⟨t, d, resolved, ?_, h⟩
    unfold siteCurrent? at current
    split at current
    next key' t' held =>
      split at current <;> cases current
      next usable =>
        simp only [Bool.and_eq_true, beq_iff_eq] at usable
        exact usable.1.2 ▸ h.installed found held
    next => cases current
  · obtain ⟨fits, aligned⟩ := h.resolve s.op key
    refine ⟨_, _, resolved, fits, aligned.cached, ?_⟩
    intro j s' key' t' found' held
    rw [sites_modifySite] at found'
    obtain ⟨s₀, before, rfl⟩ := Option.map_eq_some_iff.mp found'
    split at held
    next here =>
      obtain rfl : s₀ = s := by
        rw [sites_resolve, ← here, found] at before
        exact (Option.some.inj before).symm
      obtain ⟨rfl, rfl⟩ := Prod.mk.inj (Option.some.inj held)
      simpa [here, Site.install] using fits
    next other => simpa [other] using aligned.installed before held

theorem Aligned.perform (h : d.Aligned) (a : DispatchAction) :
    (d.perform Kind.hasSlot a).Aligned := by
  cases a with
  | resolve op key => exact (h.resolve op key).2
  | change c => exact h.change c
  | redefine model c =>
    have kept : Aligned { d with model } := ⟨h.cached, h.installed⟩
    exact kept.change c
  | openSite op =>
    obtain ⟨log, opened⟩ := openSite_eq d op
    simp only [Dispatcher.perform, opened]
    refine h.congr rfl fun i s found => ?_
    simp only [withSite, Array.getElem?_push] at found
    split at found
    · obtain rfl := Option.some.inj found
      exact .inl rfl
    · exact .inr ⟨s, found, rfl, rfl⟩
  | resolveSite site key =>
    simp only [Dispatcher.perform]
    cases found : d.sites[site]? with
    | none => simpa [Dispatcher.resolveSite, found] using h
    | some s =>
      obtain ⟨t, d', resolved, -, aligned⟩ := h.resolveSite found key
      simpa [resolved] using aligned
  | holdSite site => exact h.modifySite site fun _ => ⟨rfl, rfl⟩
  | releaseSite site => exact h.modifySite site fun _ => ⟨rfl, rfl⟩
  | sweep =>
    obtain ⟨log, swept⟩ := sweepNow_eq d
    simp only [Dispatcher.perform, swept]
    exact ⟨h.cached, h.installed⟩
  | tell tracer event =>
    simp only [Dispatcher.perform]
    rw [tell_eq]
    exact ⟨h.cached, h.installed⟩
  | addRecorder => exact ⟨h.cached, h.installed⟩
  | putBooks log recorders lookups => exact ⟨h.cached, h.installed⟩

theorem Reached.aligned (reached : Reached d) : d.Aligned := by
  induction reached with
  | initial model config policy logging =>
    constructor
    · intro op key t found
      cases found
    · intro i s key t found
      simp [Dispatcher.initial, make] at found
  | perform _ a ih => exact ih.perform a
  | redefine _ model ih => exact ⟨ih.cached, ih.installed⟩

theorem Reached.resolve (reached : Reached d) (op : Operation) (key : TypeKey) :
    Reached (d.resolve Kind.hasSlot op key).2 :=
  reached.perform (.resolve op key)

theorem Reached.tell (reached : Reached d) (tracer : Tracer) (event : TraceEvent) :
    Reached (d.tell tracer event) :=
  reached.perform (.tell tracer event)

theorem Reached.fits (reached : Reached d) (op : Operation) (key : TypeKey) :
    (d.resolve Kind.hasSlot op key).1.Fits op key :=
  (reached.aligned.resolve op key).1

end Dispatcher

structure World.Orderly (w w' : World) : Prop where
  dispatcher : w'.dispatcher.Reached
  store : w.store.Grows w'.store

theorem World.Orderly.refl {w : World} (reached : w.dispatcher.Reached) : w.Orderly w :=
  ⟨reached, .refl w.store⟩

/-- The functions that a program defines, and what its classes enumerate. The number says how often
calls may still be nested. -/
structure UserCode where
  invoke : Nat → Value → List Value → Run Value
  enumerate : Nat → Value → Run (List Value)
  invoke_orderly : ∀ n f args (w : World), w.dispatcher.Reached → w.Orderly (invoke n f args w).2
  enumerate_orderly : ∀ n v (w : World), w.dispatcher.Reached → w.Orderly (enumerate n v w).2

namespace UserCode

/-- The hooks over some code. Whenever a slot is about to be entered, `enter` sees who it is and what
it is given, and decides about its run. -/
def hooks (code : UserCode) (enter : Kind → Operation → List Value → Run Value → Run Value) :
    Nat → Hooks
  | 0 =>
    { fuel := 0
      hasSlot := Kind.hasSlot
      builtin := fun _ _ _ => Run.outOfFuel
      invoke := code.invoke 0
      enumerate := code.enumerate 0 }
  | n + 1 =>
    { fuel := n + 1
      hasSlot := Kind.hasSlot
      builtin := fun kind op args => enter kind op args <|
        match kind.slot? op with
        | some slot => slot (code.hooks enter n) args
        | none => Run.raise (.internal "no such slot")
      invoke := code.invoke (n + 1)
      enumerate := code.enumerate (n + 1) }

/-- Slots are left alone when they are entered with a receiver of their own kind. -/
def Transparent (enter : Kind → Operation → List Value → Run Value → Run Value) : Prop :=
  ∀ kind op args run, Kind.Receives kind op args → enter kind op args run = run

def plain (_ : Kind) (_ : Operation) (_ : List Value) (run : Run Value) : Run Value := run

theorem transparent_plain : Transparent plain := fun _ _ _ _ _ => rfl

variable {code : UserCode} {enter : Kind → Operation → List Value → Run Value → Run Value}
  {J : Conduct}

section Hooks

variable (transparent : Transparent enter)
  (invoke : ∀ n f args, J.Obeys (code.invoke n f args))
  (enumerate : ∀ n v, J.Obeys (code.enumerate n v)) (strict : J.Strict)

include transparent invoke enumerate strict

theorem hooks_conducts (n : Nat) : (code.hooks enter n).Conducts J := by
  induction n with
  | zero => exact ⟨rfl, fun _ => Conduct.obeys_outOfFuel, invoke 0, enumerate 0⟩
  | succ n ih =>
    refine ⟨rfl, ?_, invoke (n + 1), enumerate (n + 1)⟩
    intro kind op args proper
    obtain ⟨question, receives⟩ := proper strict
    obtain ⟨slot, found⟩ := Option.isSome_iff_exists.mp receives.hasSlot
    simp only [hooks, transparent _ _ _ _ receives, found]
    refine Kind.slot?_obeys ih found (fun _ => receives.receiver) fun no => ?_
    rw [question] at no
    cases no

/-- Any slot, asked for by a question or not, obeys when it is entered with a receiver of its kind. -/
theorem builtin_obeys (writes : J.Writes) (n : Nat) {kind : Kind} {op : Operation}
    {args : List Value} (receives : kind.Receives op args) :
    J.Obeys ((code.hooks enter n).builtin kind op args) := by
  cases n with
  | zero => exact Conduct.obeys_outOfFuel
  | succ n =>
    obtain ⟨slot, found⟩ := Option.isSome_iff_exists.mp receives.hasSlot
    simp only [hooks, transparent _ _ _ _ receives, found]
    exact Kind.slot?_obeys (hooks_conducts transparent invoke enumerate strict n) found
      (fun _ => receives.receiver) fun _ => writes

end Hooks

end UserCode

end DynamicObjects
