import DynamicObjects.Slots
import DynamicObjects.Proofs.Dispatch.Courses

/-!
The cache is never wrong. A prepared call has the policy and the tracer built in, and these can change
with or without an invalidation; but whatever is in the cache under the present version is what would
be prepared now.
-/
namespace DynamicObjects

namespace Dispatcher

variable {hasSlot : Kind → Operation → Bool} {d d' start : Dispatcher} {history : List Moment}
  {op : Operation} {key : TypeKey} {t : Thunk}

theorem current?_eq_some_iff :
    d.current? op key = some t ↔ d.entry? op key = some (.cached t) ∧ t.version = d.version := by
  unfold current?
  split
  next cached found =>
    constructor
    · intro h
      split at h
      next same =>
        obtain rfl := Option.some.inj h
        exact ⟨found, same⟩
      next => cases h
    · rintro ⟨found', same⟩
      obtain rfl : cached = t := by simpa [found] using found'
      simp [same]
  next other =>
    constructor
    · intro h
      cases h
    · rintro ⟨found, -⟩
      exact absurd found (other t)

/-- No entry of the cache is ahead of the world, and what is current is what would be prepared now. -/
structure Honest (hasSlot : Kind → Operation → Bool) (d : Dispatcher) : Prop where
  past : ∀ op key t, d.entry? op key = some (.cached t) → t.version ≤ d.version
  fresh : ∀ op key t, d.current? op key = some t → t = d.freshThunk hasSlot op key t.id

theorem honest_initial (model : ClassModel) (config : CacheConfig) (policy : DispatchPolicy)
    (logging : Bool) : (initial model config policy logging).Honest hasSlot where
  past := by
    intro op key t found
    cases found
  fresh := by
    intro op key t found
    cases found

/-- Where neither the entries nor what would be prepared change, nothing becomes wrong. -/
theorem Honest.congr (h : d.Honest hasSlot) (entries : d'.entries = d.entries)
    (fresh : ∀ op key id, d'.freshThunk hasSlot op key id = d.freshThunk hasSlot op key id) :
    d'.Honest hasSlot := by
  have version : d'.version = d.version := congrArg Thunk.version (fresh .len (.userClass 0) 0)
  constructor
  · intro op key t found
    rw [version]
    exact h.past op key t (by rwa [ entry?, ← entries])
  · intro op key t current
    rw [fresh]
    apply h.fresh op key t
    rw [current?_eq_some_iff] at current ⊢
    rwa [ entry?, ← entries, ← version]

theorem honest_bump (past : ∀ op key t, d.entry? op key = some (.cached t) → t.version ≤ d.version)
    (reason : String) : (d.bump reason).Honest hasSlot := by
  obtain ⟨log, recorders, sites, bumped, -⟩ := bump_eq d reason
  rw [bumped]
  have behind : ∀ op key t, d.entry? op key = some (.cached t) → t.version < d.version + 1 :=
    fun op key t found => Nat.lt_succ_of_le (past op key t found)
  constructor
  · intro op key t found
    exact Nat.le_of_lt (behind op key t found)
  · intro op key t current
    obtain ⟨found, same⟩ := current?_eq_some_iff.mp current
    exact absurd same (Nat.ne_of_lt (behind op key t found))

theorem Honest.change (h : d.Honest hasSlot) (c : WorldChange) : (d.change c).Honest hasSlot := by
  obtain ⟨policy, tracer, log, ⟨changed, limited, bound⟩ | ⟨reason, changed⟩⟩ := change_cases d c
  · rw [changed]
    refine h.congr rfl fun op key id => ?_
    simp only [freshThunk, limited, bound]
    cases key <;> rfl
  · rw [changed]
    refine honest_bump ?_ reason
    exact h.past

theorem model_change (d : Dispatcher) (c : WorldChange) : (d.change c).model = d.model := by
  obtain ⟨policy, tracer, log, ⟨changed, -, -⟩ | ⟨reason, changed⟩⟩ := change_cases d c
  · rw [changed]
  · obtain ⟨log, recorders, sites, bumped, -⟩ := bump_eq { d with policy, tracer, log } reason
    rw [changed, bumped]

/-- New slots are harmless, since they come with an invalidation. -/
theorem Honest.redefine (h : d.Honest hasSlot) {model : ClassModel} {c : WorldChange}
    (moved : ({ d with model }.change c).version ≠ d.version) :
    ({ d with model }.change c).Honest hasSlot := by
  obtain ⟨policy, tracer, log, ⟨changed, -, -⟩ | ⟨reason, changed⟩⟩ :=
    change_cases { d with model } c
  · rw [changed] at moved
    exact absurd rfl moved
  · rw [changed]
    refine honest_bump ?_ reason
    exact h.past

theorem freshThunk_lookups (d : Dispatcher) (lookups : List String) (op : Operation)
    (key : TypeKey) (id : Nat) :
    freshThunk hasSlot { d with model := { d.model with lookups } } op key id =
      d.freshThunk hasSlot op key id := by
  cases key <;> rfl

theorem Honest.resolve (h : d.Honest hasSlot) (op : Operation) (key : TypeKey) :
    (∃ id, (d.resolve hasSlot op key).1 = d.freshThunk hasSlot op key id) ∧
      (d.resolve hasSlot op key).2.Honest hasSlot := by
  obtain ⟨t, log, recorders, current, resolved⟩ | ⟨-, log, recorders, lookups, resolved⟩ :=
    resolve_cases hasSlot d op key
  · rw [resolved]
    exact ⟨⟨t.id, h.fresh op key t current⟩, h.congr rfl fun _ key _ => by cases key <;> rfl⟩
  · rw [resolved]
    refine ⟨⟨d.nextThunk, rfl⟩, ?_, ?_⟩
    · intro op' key' t found
      simp only [ entry?, lookup_setEntry] at found
      split at found
      · obtain rfl := SlotEntry.cached.inj (Option.some.inj found)
        exact Nat.le_refl _
      · exact h.past op' key' t found
    · intro op' key' t current
      obtain ⟨found, same⟩ := current?_eq_some_iff.mp current
      refine Eq.trans ?_ (freshThunk_lookups d lookups op' key' t.id).symm
      simp only [ entry?, lookup_setEntry] at found
      split at found
      next asked =>
        obtain rfl := SlotEntry.cached.inj (Option.some.inj found)
        obtain ⟨rfl, rfl⟩ := Prod.mk.inj asked
        rfl
      next => exact h.fresh op' key' t (current?_eq_some_iff.mpr ⟨found, same⟩)

theorem Honest.perform (h : d.Honest hasSlot) {a : DispatchAction} (allowed : d.Allows a) :
    (d.perform hasSlot a).Honest hasSlot := by
  cases a with
  | resolve op key => exact (h.resolve op key).2
  | change c => exact h.change c
  | redefine model c => exact h.redefine allowed
  | openSite op =>
    obtain ⟨log, opened⟩ := openSite_eq d op
    simp only [Dispatcher.perform, opened]
    refine h.congr rfl fun op' key id => ?_
    have version := version_register d.registry (d.withSite op).isAlive d.sites.size
    cases key <;> simp only [freshThunk, Dispatcher.version, version] <;> rfl
  | resolveSite site key =>
    obtain ⟨s, found, -⟩ := isAlive_iff.mp allowed
    obtain ⟨t, -, resolved⟩ | ⟨-, resolved⟩ := resolveSite_cases hasSlot d found key
    · simpa [Dispatcher.perform, resolved] using h
    · simp only [Dispatcher.perform, resolved, Option.map_some, Option.getD_some]
      exact (h.resolve s.op key).2.congr rfl fun _ key _ => by cases key <;> rfl
  | holdSite site => exact h.congr rfl fun _ key _ => by cases key <;> rfl
  | releaseSite site => exact h.congr rfl fun _ key _ => by cases key <;> rfl
  | sweep =>
    obtain ⟨log, swept⟩ := sweepNow_eq d
    simp only [Dispatcher.perform, swept]
    exact h.congr rfl fun _ key _ => by cases key <;> rfl
  | tell tracer event =>
    simp only [Dispatcher.perform]
    rw [tell_eq]
    exact h.congr rfl fun _ key _ => by cases key <;> rfl
  | addRecorder => exact h.congr rfl fun _ key _ => by cases key <;> rfl
  | putBooks log recorders lookups =>
    exact h.congr rfl fun op key id => freshThunk_lookups d lookups op key id

theorem Course.honest (course : Course hasSlot start history d) (h : start.Honest hasSlot) :
    d.Honest hasSlot :=
  course.invariant h fun _ _ kept allowed => kept.perform allowed

/-- What a lookup gives is what would be prepared now: for this operation and this key, running what
these stand for at present, under the present version, and limited and traced as the present policy
says, by the tracer that is installed or else by one that does nothing. -/
structure ResolvesFresh (hasSlot : Kind → Operation → Bool) (d : Dispatcher) (op : Operation)
    (key : TypeKey) : Prop where
  built : (d.resolve hasSlot op key).1 =
    { (d.build hasSlot op key).1 with id := (d.resolve hasSlot op key).1.id }
  sameOp : (d.resolve hasSlot op key).1.op = op
  sameKey : (d.resolve hasSlot op key).1.key = key
  target : (d.resolve hasSlot op key).1.target = d.targetNow hasSlot op key
  version : (d.resolve hasSlot op key).1.version = d.version
  limited : (d.resolve hasSlot op key).1.limited = d.policy.recursionLimit.isSome
  tracer : (d.resolve hasSlot op key).1.tracer =
    if d.policy.tracing then some (d.tracer.getD .silent) else none

theorem Honest.resolvesFresh (h : d.Honest hasSlot) (op : Operation) (key : TypeKey) :
    d.ResolvesFresh hasSlot op key := by
  obtain ⟨id, resolved⟩ := (h.resolve op key).1
  obtain ⟨lookups, built⟩ := exists_build hasSlot d op key
  constructor
  · rw [resolved, built]
    rfl
  all_goals
    rw [resolved]
    rfl

theorem Course.resolvesFresh (course : Course hasSlot start history d) (h : start.Honest hasSlot) :
    (∀ m ∈ history, ∀ op key, m.before.ResolvesFresh hasSlot op key) ∧
      ∀ op key, d.ResolvesFresh hasSlot op key := by
  refine ⟨fun m mem => ?_, (course.honest h).resolvesFresh⟩
  obtain ⟨earlier, before⟩ := course.before mem
  exact (before.honest h).resolvesFresh

/-- From the first state on, wherever the dispatch layer gets to, every lookup on the way and at the
end gives what would be prepared there. The same holds of the lookups during a call, when its slot
functions use the layer themselves, and after it. -/
theorem resolve_fresh {model : ClassModel} {config : CacheConfig} {policy : DispatchPolicy}
    {logging : Bool} (course : Course hasSlot (initial model config policy logging) history d) :
    (∀ m ∈ history, ∀ op key, m.before.ResolvesFresh hasSlot op key) ∧
    (∀ op key, d.ResolvesFresh hasSlot op key) ∧
    ∀ (h : Hooks) (t : Thunk) (args : List Value) (w : World), w.dispatcher = d →
      h.Within (World.Follows hasSlot) →
      ∃ calls, Course hasSlot d calls (Protocol.callThunk h t args w).2.dispatcher ∧
        (∀ m ∈ calls, ∀ op key, m.before.ResolvesFresh hasSlot op key) ∧
        ∀ op key, (Protocol.callThunk h t args w).2.dispatcher.ResolvesFresh hasSlot op key := by
  have honest := course.honest (honest_initial model config policy logging)
  obtain ⟨onTheWay, now⟩ := course.resolvesFresh (honest_initial model config policy logging)
  refine ⟨onTheWay, now, ?_⟩
  rintro h t args w rfl inner
  obtain ⟨calls, called⟩ := Protocol.callThunk_within inner t args w
  exact ⟨calls, called, called.resolvesFresh honest⟩

/-- A recorder is installed while nothing is traced, then tracing is turned on, a class gets another
function for `__len__` and the limit is lifted: the calls prepared before are of no use any more. -/
theorem resolve_fresh_retraced :
    let bag := ClassModel.mk #[⟨some "Bag", [("__len__", .native 1 "size" [])]⟩] [] true
    ∃ history d, Course Kind.hasSlot (initial bag {} {} false) history d ∧
      (d.resolve Kind.hasSlot .len (.userClass 0)).1.target = .slot (.native 2 "weight" []) ∧
      (d.resolve Kind.hasSlot .len (.userClass 0)).1.version = 3 ∧
      (d.resolve Kind.hasSlot .len (.userClass 0)).1.limited = false ∧
      (d.resolve Kind.hasSlot .len (.userClass 0)).1.tracer = some (.recording 0) := by
  intro bag
  have course := ((((((@Course.start Kind.hasSlot (initial bag {} {} false)).next
    (.resolve .len (.userClass 0)) trivial).next
    (.change (.setTracer (some (.recording 0)))) trivial).next
    (.change (.setTracing true)) trivial).next
    (.resolve .len (.userClass 0)) trivial).next
    (.redefine (bag.setSlot 0 "__len__" (.native 2 "weight" [])) (.typeChanged 0))
      (by simp only [Allows]; decide +kernel)).next
    (.change (.setRecursionLimit none)) trivial
  have fresh := (resolve_fresh course).2.1 .len (.userClass 0)
  have found : (bag.setSlot 0 "__len__" (.native 2 "weight" [])).slot? 0 "__len__" =
      some (.native 2 "weight" []) := by
    simp [bag, ClassModel.setSlot, ClassModel.slot?, assign]
  refine ⟨_, _, course, fresh.target.trans ?_, fresh.version.trans (by decide +kernel),
    fresh.limited.trans (by decide +kernel), fresh.tracer.trans (by decide +kernel)⟩
  simp only [targetNow, perform, model_change]
  rw [show Operation.slotName .len = "__len__" from rfl, found]
  rfl

end Dispatcher

end DynamicObjects
