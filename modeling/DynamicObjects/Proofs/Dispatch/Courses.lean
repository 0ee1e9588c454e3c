import DynamicObjects.Proofs.Dispatch

/-!
Courses of the dispatch layer: any sequence of its operations, together with the states in between.
What each operation can do is said once, as an equation up to log lines and recorded events. A call
of a prepared call adds nothing new: if the slot functions that it runs follow a course, so does the
call, and their states in the middle of it are states of that course.
-/
namespace DynamicObjects

inductive WorldChange
  | invalidateAll
  | typeChanged (number : Nat)
  | setPolicy (policy : DispatchPolicy)
  | setTracing (on : Bool)
  | setRecursionLimit (limit : Option Nat)
  | setTracer (tracer : Option Tracer)

inductive DispatchAction
  | resolve (op : Operation) (key : TypeKey)
  | change (c : WorldChange)
  /-- The classes become others, and the call that follows at once is `c`. -/
  | redefine (model : ClassModel) (c : WorldChange)
  | openSite (op : Operation)
  | resolveSite (site : Nat) (key : TypeKey)
  | holdSite (site : Nat)
  | releaseSite (site : Nat)
  | sweep
  | tell (tracer : Tracer) (event : TraceEvent)
  | addRecorder
  /-- Log lines, recorded events and noted lookups are read off or erased. -/
  | putBooks (log : List String) (recorders : Array (List TraceEvent)) (lookups : List String)

namespace Dispatcher

def change (d : Dispatcher) : WorldChange → Dispatcher
  | .invalidateAll => d.invalidateAll
  | .typeChanged number => d.notifyTypeChanged number
  | .setPolicy policy => d.setPolicy policy
  | .setTracing on => d.setTracing on
  | .setRecursionLimit limit => d.setRecursionLimit limit
  | .setTracer tracer => d.setTracer tracer

def perform (hasSlot : Kind → Operation → Bool) (d : Dispatcher) : DispatchAction → Dispatcher
  | .resolve op key => (d.resolve hasSlot op key).2
  | .change c => d.change c
  | .redefine model c => { d with model }.change c
  | .openSite op => (d.openSite op).2
  | .resolveSite site key => ((d.resolveSite hasSlot site key).map Prod.snd).getD d
  | .holdSite site => d.holdSite site
  | .releaseSite site => d.releaseSite site
  | .sweep => d.sweepNow.2
  | .tell tracer event => d.tell tracer event
  | .addRecorder => d.addRecorder.2
  | .putBooks log recorders lookups =>
    { d with log, recorders, model := { d.model with lookups } }

/-- Only a site that is held can be used, and new slots are followed by an invalidation. -/
def Allows (d : Dispatcher) : DispatchAction → Prop
  | .redefine model c => ({ d with model }.change c).version ≠ d.version
  | .resolveSite site _ | .holdSite site | .releaseSite site => d.isAlive site
  | _ => True

structure Moment where
  before : Dispatcher
  action : DispatchAction

def Moment.after (hasSlot : Kind → Operation → Bool) (m : Moment) : Dispatcher :=
  m.before.perform hasSlot m.action

/-- From one state, through the moments of a history, the latest first, to another state. -/
inductive Course (hasSlot : Kind → Operation → Bool) :
    Dispatcher → List Moment → Dispatcher → Prop
  | start (d : Dispatcher) : Course hasSlot d [] d
  | next {start d : Dispatcher} {history : List Moment} (course : Course hasSlot start history d)
      (a : DispatchAction) (allowed : d.Allows a) :
      Course hasSlot start (⟨d, a⟩ :: history) (d.perform hasSlot a)

def initial (model : ClassModel) (config : CacheConfig) (policy : DispatchPolicy)
    (logging : Bool) : Dispatcher :=
  { make model config policy with logging }

variable {hasSlot : Kind → Operation → Bool} {d d' d'' start : Dispatcher}
  {history history' : List Moment}

theorem Course.trans (first : Course hasSlot d history d')
    (second : Course hasSlot d' history' d'') : Course hasSlot d (history' ++ history) d'' := by
  induction second with
  | start => exact first
  | next _ a allowed ih => exact ih.next a allowed

theorem Course.invariant {I : Dispatcher → Prop} (course : Course hasSlot start history d)
    (initially : I start) (step : ∀ d a, I d → d.Allows a → I (d.perform hasSlot a)) : I d := by
  induction course with
  | start => exact initially
  | next _ a allowed ih => exact step _ a ih allowed

theorem Course.before {m : Moment} (course : Course hasSlot start history d) (mem : m ∈ history) :
    ∃ earlier, Course hasSlot start earlier m.before := by
  induction course with
  | start => cases mem
  | next course a allowed ih =>
    rcases List.mem_cons.mp mem with rfl | mem
    · exact ⟨_, course⟩
    · exact ih mem

theorem note_eq (d : Dispatcher) (line : String) :
    d.note line = { d with log := (d.note line).log } := by
  unfold note
  split <;> rfl

theorem tell_eq (d : Dispatcher) (tracer : Tracer) (event : TraceEvent) :
    d.tell tracer event =
      { d with
        log := (d.tell tracer event).log
        recorders := (d.tell tracer event).recorders } := by
  cases tracer with
  | silent => rfl
  | log =>
    simp only [tell]
    rw [note_eq]
  | recording number => rfl

theorem tellSome_eq (d : Dispatcher) (tracer : Option Tracer) (event : TraceEvent) :
    d.tellSome tracer event =
      { d with
        log := (d.tellSome tracer event).log
        recorders := (d.tellSome tracer event).recorders } := by
  cases tracer with
  | none => rfl
  | some tracer => exact tell_eq d tracer event

theorem setEntry_setEntry (k : Operation × TypeKey) (e e' : SlotEntry)
    (entries : List ((Operation × TypeKey) × SlotEntry)) :
    setEntry k e' (setEntry k e entries) = setEntry k e' entries := by
  induction entries with
  | nil => simp [setEntry]
  | cons first rest ih =>
    by_cases same : first.1 = k
    · simp [setEntry, same]
    · simp [setEntry, same, ih]

theorem lookup_setEntry (k k' : Operation × TypeKey) (e : SlotEntry)
    (entries : List ((Operation × TypeKey) × SlotEntry)) :
    (setEntry k e entries).lookup k' = if k' = k then some e else entries.lookup k' := by
  induction entries with
  | nil =>
    by_cases same : k' = k
    · simp [setEntry, same]
    · simp [setEntry, List.lookup_cons, beq_false_of_ne same, same]
  | cons first rest ih =>
    obtain ⟨key, entry⟩ := first
    by_cases here : key = k
    · subst here
      by_cases same : k' = key
      · simp [setEntry, same]
      · simp [setEntry, List.lookup_cons, beq_false_of_ne same, same]
    · by_cases same : k' = key
      · subst same
        simp [setEntry, here]
      · simp [setEntry, here, List.lookup_cons, beq_false_of_ne same, ih]

theorem exists_resolveSlot (m : ClassModel) (number : Nat) (name : String) :
    ∃ lookups, m.resolveSlot number name = (m.slot? number name, { m with lookups }) := by
  unfold ClassModel.resolveSlot
  split
  · exact ⟨_, rfl⟩
  · exact ⟨m.lookups, rfl⟩

/-- What a call to `op` on `key` runs now: the slot of a built-in kind, or what the class has under
the name of the slot, which for a member is the answer itself. -/
def targetNow (hasSlot : Kind → Operation → Bool) (d : Dispatcher) (op : Operation) :
    TypeKey → Target
  | .builtin kind => if hasSlot kind op then .builtin else .missing
  | .userClass number =>
    match d.model.slot? number op.slotName with
    | some value => if op.readsMember then .member value else .slot value
    | none => .missing

def freshThunk (hasSlot : Kind → Operation → Bool) (d : Dispatcher) (op : Operation)
    (key : TypeKey) (id : Nat) : Thunk where
  id
  op
  key
  typeName := d.typeName key
  target := d.targetNow hasSlot op key
  version := d.version
  limited := d.policy.recursionLimit.isSome
  tracer := d.boundTracer

theorem exists_build (hasSlot : Kind → Operation → Bool) (d : Dispatcher) (op : Operation)
    (key : TypeKey) :
    ∃ lookups, d.build hasSlot op key = (d.freshThunk hasSlot op key d.nextThunk,
      { d with nextThunk := d.nextThunk + 1, model := { d.model with lookups } }) := by
  cases key with
  | builtin kind => exact ⟨d.model.lookups, rfl⟩
  | userClass number =>
    obtain ⟨lookups, found⟩ := exists_resolveSlot d.model number op.slotName
    refine ⟨lookups, ?_⟩
    simp only [build, findTarget, found, freshThunk, targetNow]
    cases d.model.slot? number op.slotName with
    | none => rfl
    | some value => cases op <;> rfl

theorem resolve_cases (hasSlot : Kind → Operation → Bool) (d : Dispatcher) (op : Operation)
    (key : TypeKey) :
    (∃ t log recorders, d.current? op key = some t ∧
      d.resolve hasSlot op key = (t, { d with hits := d.hits + 1, log, recorders })) ∨
    (d.current? op key = none ∧ ∃ log recorders lookups,
      d.resolve hasSlot op key = (d.freshThunk hasSlot op key d.nextThunk,
        { d with
          misses := d.misses + 1
          resolutions := d.resolutions + 1
          nextThunk := d.nextThunk + 1
          entries := setEntry (op, key) (.cached (d.freshThunk hasSlot op key d.nextThunk)) d.entries
          model := { d.model with lookups }
          log
          recorders })) := by
  cases current : d.current? op key with
  | some t =>
    left
    simp only [resolve, current]
    rw [note_eq, tellSome_eq]
    exact ⟨t, _, _, rfl, rfl⟩
  | none =>
    right
    refine ⟨rfl, ?_⟩
    obtain ⟨lookups, built⟩ := exists_build hasSlot { d with
      misses := d.misses + 1
      entries := setEntry (op, key) (.resolving d.version) d.entries } op key
    simp only [resolve, current, built]
    rw [note_eq, tellSome_eq, setEntry_setEntry]
    exact ⟨_, _, lookups, rfl⟩

theorem isAlive_iff {i : Nat} : d.isAlive i = true ↔ ∃ s, d.sites[i]? = some s ∧ 0 < s.holders := by
  unfold isAlive
  cases d.sites[i]? <;> simp

theorem sites_modifySite (d : Dispatcher) (i j : Nat) (f : Site → Site) :
    (d.modifySite i f).sites[j]? = (d.sites[j]?).map fun s => if i = j then f s else s := by
  simp only [modifySite, Array.getElem?_modify]
  by_cases same : i = j
  · simp [same]
  · simp [same]

theorem isAlive_modifySite {f : Site → Site} (keeps : ∀ s, (f s).holders = s.holders) (i : Nat) :
    (d.modifySite i f).isAlive = d.isAlive := by
  funext j
  unfold isAlive
  rw [sites_modifySite]
  cases d.sites[j]? with
  | none => rfl
  | some s => by_cases same : i = j <;> simp [same, keeps]

/-- The state with a new site in it that has not been registered yet. -/
def withSite (d : Dispatcher) (op : Operation) : Dispatcher :=
  { d with sites := d.sites.push ⟨op, none, false, 0, 1⟩ }

theorem openSite_eq (d : Dispatcher) (op : Operation) :
    ∃ log, d.openSite op = (d.sites.size,
      { d.withSite op with
        registry := (d.registry.register (d.withSite op).isAlive d.sites.size).2
        log }) := by
  simp only [openSite]
  split
  · exact ⟨d.log, rfl⟩
  · simp only [noteSweep]
    rw [note_eq]
    exact ⟨_, rfl⟩

theorem sweepNow_eq (d : Dispatcher) :
    ∃ log, d.sweepNow = ((d.registry.sweep d.isAlive).1.removed,
      { d with registry := (d.registry.sweep d.isAlive).2, log }) := by
  simp only [sweepNow, noteSweep]
  rw [note_eq]
  exact ⟨_, rfl⟩

theorem version_register (r : Registry) (alive : Nat → Bool) (site : Nat) :
    (r.register alive site).2.version = r.version := by
  simp only [Registry.register]
  split <;> rfl

theorem resolveSite_cases (hasSlot : Kind → Operation → Bool) (d : Dispatcher) {i : Nat} {s : Site}
    (found : d.sites[i]? = some s) (key : TypeKey) :
    (∃ t, d.siteCurrent? s key = some t ∧ d.resolveSite hasSlot i key = some (t, d)) ∨
    (d.siteCurrent? s key = none ∧ d.resolveSite hasSlot i key =
      some ((d.resolve hasSlot s.op key).1,
        (d.resolve hasSlot s.op key).2.modifySite i
          (Site.install key (d.resolve hasSlot s.op key).1))) := by
  cases current : d.siteCurrent? s key with
  | some t => exact .inl ⟨t, rfl, by simp [resolveSite, found, current]⟩
  | none => exact .inr ⟨rfl, by simp [resolveSite, found, current]⟩

/-- What an invalidation does to a site, if it reaches it. -/
def aged (reached : Bool) (s : Site) : Site := { s with stale := s.stale || reached && 0 < s.holders }

theorem markStale_eq (d : Dispatcher) (walked : Nat) (handles : List Nat) :
    ∃ sites, d.markStale walked handles =
        (walked + (handles.filter d.isAlive).length, { d with sites }) ∧
      ∀ i : Nat, sites[i]? = (d.sites[i]?).map (aged (handles.contains i)) := by
  induction handles generalizing d walked with
  | nil =>
    refine ⟨d.sites, rfl, fun i => ?_⟩
    cases d.sites[i]? <;> simp [aged]
  | cons site rest ih =>
    rw [markStale]
    split
    next live =>
      obtain ⟨sites, marked, all⟩ := ih (d.modifySite site Site.outdated) (walked + 1)
      rw [isAlive_modifySite (f := Site.outdated) (fun _ => rfl)] at marked
      refine ⟨sites, ?_, fun i => ?_⟩
      · rw [marked, List.filter_cons_of_pos live, List.length_cons, Nat.add_assoc walked,
          Nat.add_comm 1]
        rfl
      · rw [all, sites_modifySite]
        cases found : d.sites[i]? with
        | none => rfl
        | some s =>
          by_cases here : site = i
          · obtain ⟨s', found', held⟩ := isAlive_iff.mp live
            obtain rfl : s' = s := by rw [here, found] at found'; exact (Option.some.inj found').symm
            simp [aged, Site.outdated, here, held]
          · simp [aged, here, Ne.symm here]
    next dead =>
      obtain ⟨sites, marked, all⟩ := ih d walked
      refine ⟨sites, ?_, fun i => ?_⟩
      · rw [marked, List.filter_cons_of_neg dead]
      · rw [all]
        cases found : d.sites[i]? with
        | none => rfl
        | some s =>
          by_cases here : i = site
          · have : ¬ 0 < s.holders := fun held => dead (isAlive_iff.mpr ⟨s, here ▸ found, held⟩)
            simp [aged, this]
          · simp [aged, here]

/-- An invalidation advances the version, marks the live sites that have a handle and reports how many
these are; nothing else changes. -/
theorem invalidate_eq (d : Dispatcher) :
    ∃ sites, d.invalidate = ((d.version + 1, (d.registry.live d.isAlive).length),
        { d with registry := d.registry.advance, sites }) ∧
      ∀ i : Nat, sites[i]? = (d.sites[i]?).map (aged (d.registry.handles.contains i)) := by
  obtain ⟨sites, marked, all⟩ :=
    markStale_eq { d with registry := d.registry.detach.2 } 0 d.registry.handles
  refine ⟨sites, ?_, all⟩
  have back : d.registry.detach.2.splice d.registry.handles = d.registry.advance :=
    d.registry.splice_detach
  simp only [invalidate]
  rw [show d.registry.detach.1 = d.registry.handles from rfl, marked, back, Nat.zero_add]
  rfl

theorem bump_eq (d : Dispatcher) (reason : String) :
    ∃ log recorders sites, d.bump reason =
        { d with
          registry := d.registry.advance
          invalidations := d.invalidations + 1
          sites
          log
          recorders } ∧
      ∀ i : Nat, sites[i]? = (d.sites[i]?).map (aged (d.registry.handles.contains i)) := by
  obtain ⟨sites, invalidated, all⟩ := invalidate_eq d
  simp only [bump, invalidated]
  rw [note_eq]
  split
  · rw [tellSome_eq]
    exact ⟨_, _, sites, rfl, all⟩
  · exact ⟨_, d.recorders, sites, rfl, all⟩

theorem change_cases (d : Dispatcher) (c : WorldChange) :
    ∃ policy tracer log,
      (d.change c = { d with policy, tracer, log } ∧
        policy.recursionLimit.isSome = d.policy.recursionLimit.isSome ∧
        boundTracer { d with policy, tracer, log } = d.boundTracer) ∨
      ∃ reason, d.change c = bump { d with policy, tracer, log } reason := by
  have byPolicy : ∀ next : DispatchPolicy, ∃ policy tracer log,
      (d.setPolicy next = { d with policy, tracer, log } ∧
        policy.recursionLimit.isSome = d.policy.recursionLimit.isSome ∧
        boundTracer { d with policy, tracer, log } = d.boundTracer) ∨
      ∃ reason, d.setPolicy next = bump { d with policy, tracer, log } reason := by
    intro next
    refine ⟨next, d.tracer, d.log, ?_⟩
    cases reshaped : d.policy.reshapes next with
    | true => exact .inr ⟨"policy change", by simp [setPolicy, reshaped]⟩
    | false =>
      simp only [DispatchPolicy.reshapes, Bool.or_eq_false_iff, bne_eq_false_iff_eq] at reshaped
      refine .inl ⟨by simp [setPolicy, DispatchPolicy.reshapes, reshaped], reshaped.2.symm, ?_⟩
      simp [boundTracer, reshaped.1]
  cases c with
  | invalidateAll => exact ⟨d.policy, d.tracer, d.log, .inr ⟨"explicit invalidation", rfl⟩⟩
  | typeChanged number =>
    refine ⟨d.policy, d.tracer, (d.note s!"DEBUG slots of class {number} changed").log,
      .inr ⟨"type change", ?_⟩⟩
    simp only [change, notifyTypeChanged]
    rw [note_eq]
  | setPolicy policy => exact byPolicy policy
  | setTracing on => exact byPolicy { d.policy with tracing := on }
  | setRecursionLimit limit => exact byPolicy { d.policy with recursionLimit := limit }
  | setTracer tracer =>
    refine ⟨d.policy, tracer, d.log, ?_⟩
    cases tracing : d.policy.tracing with
    | true => exact .inr ⟨"tracer change", by simp [change, setTracer, tracing]⟩
    | false =>
      refine .inl ⟨by simp [change, setTracer, tracing], rfl, ?_⟩
      simp [boundTracer, tracing]

end Dispatcher

def World.Follows (hasSlot : Kind → Operation → Bool) (w w' : World) : Prop :=
  ∃ history, Dispatcher.Course hasSlot w.dispatcher history w'.dispatcher

variable (hasSlot : Kind → Operation → Bool)

instance : IsPreorder World (World.Follows hasSlot) where
  refl w := ⟨[], .start w.dispatcher⟩
  trans := by
    rintro w w₁ w₂ ⟨history, first⟩ ⟨history', second⟩
    exact ⟨history' ++ history, first.trans second⟩

instance : Heedless (World.Follows hasSlot) where
  tell w tracer event := ⟨_, .next (.start w.dispatcher) (.tell tracer event) trivial⟩
  levels w _ _ := ⟨[], .start w.dispatcher⟩

end DynamicObjects
