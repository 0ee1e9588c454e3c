import Mathlib.Data.Finset.Card
import DynamicObjects.Proofs.Conduct.Programs

/-!
What the dispatch layer counts. A run is any sequence of its operations: classes may change without a
word, and sites may be used that nothing holds on to. The history of a run says which pairs the cache
was asked for, which of them it did not have and when the world moved on, and the counters agree with
the history. A pair is missed if and only if nobody has asked for it under the present version, so the
classes are asked for it once in each version in which it is used.
-/
namespace DynamicObjects

/-- Whether a change moves the world on under a given policy. -/
def WorldChange.invalidates (policy : DispatchPolicy) : WorldChange → Bool
  | .invalidateAll | .typeChanged _ => true
  | .setPolicy next => policy.reshapes next
  | .setTracing on => policy.tracing != on
  | .setRecursionLimit limit => policy.recursionLimit.isSome != limit.isSome
  | .setTracer _ => policy.tracing

def ClassModel.ask (model : ClassModel) (slot : Nat × String) : ClassModel :=
  (model.resolveSlot slot.1 slot.2).2

namespace Dispatcher

def after (hasSlot : Kind → Operation → Bool) (d : Dispatcher) : List DispatchAction → Dispatcher
  | [] => d
  | a :: earlier => (d.after hasSlot earlier).perform hasSlot a

def moments (hasSlot : Kind → Operation → Bool) (d : Dispatcher) : List DispatchAction → List Moment
  | [] => []
  | a :: earlier => ⟨d.after hasSlot earlier, a⟩ :: d.moments hasSlot earlier

namespace Moment

/-- The pair that the cache is asked for. A site asks only if it has no current call of its own. -/
def lookup? (m : Moment) : Option (Operation × TypeKey) :=
  match m.action with
  | .resolve op key => some (op, key)
  | .resolveSite site key =>
    (m.before.sites[site]?).bind fun s =>
      if (m.before.siteCurrent? s key).isSome then none else some (s.op, key)
  | _ => none

def hit? (m : Moment) : Option (Operation × TypeKey) :=
  m.lookup?.filter fun (op, key) => (m.before.current? op key).isSome

def missed? (m : Moment) : Option (Operation × TypeKey) :=
  m.lookup?.filter fun (op, key) => (m.before.current? op key).isNone

def inquiries (m : Moment) : List (Nat × String) :=
  match m.missed? with
  | some (op, .userClass number) => [(number, op.slotName)]
  | _ => []

/-- The classes at the time when they are asked, which is after they became others or what they had
noted was read off. -/
def model (m : Moment) : ClassModel :=
  match m.action with
  | .redefine model _ => model
  | .putBooks _ _ lookups => { m.before.model with lookups }
  | _ => m.before.model

def invalidates (m : Moment) : Bool :=
  match m.action with
  | .change c | .redefine _ c => c.invalidates m.before.policy
  | _ => false

def entries (hasSlot : Kind → Operation → Bool) (m : Moment) :
    List ((Operation × TypeKey) × SlotEntry) :=
  match m.missed? with
  | some (op, key) =>
    setEntry (op, key) (.cached (m.before.freshThunk hasSlot op key m.before.nextThunk))
      m.before.entries
  | none => m.before.entries

end Moment

variable {hasSlot : Kind → Operation → Bool} {d d' : Dispatcher} {op : Operation} {key : TypeKey}
  {m : Moment}

/-- All that an operation does to the counters, to the cache and to the classes. -/
structure Moment.Counted (hasSlot : Kind → Operation → Bool) (m : Moment) (d : Dispatcher) :
    Prop where
  hits : d.hits = m.before.hits + m.hit?.toList.length
  misses : d.misses = m.before.misses + m.missed?.toList.length
  resolutions : d.resolutions = m.before.resolutions + m.missed?.toList.length
  invalidations : d.invalidations = m.before.invalidations + m.invalidates.toNat
  version : d.version = m.before.version + m.invalidates.toNat
  entries : d.entries = m.entries hasSlot
  model : d.model = m.inquiries.foldl ClassModel.ask m.model

theorem Moment.missed?_of_current {t : Thunk} (asked : m.lookup? = some (op, key))
    (current : m.before.current? op key = some t) :
    m.missed? = none ∧ m.hit? = some (op, key) := by
  simp [missed?, hit?, asked, current, Option.filter]

theorem Moment.missed?_of_absent (asked : m.lookup? = some (op, key))
    (absent : m.before.current? op key = none) :
    m.missed? = some (op, key) ∧ m.hit? = none := by
  simp [missed?, hit?, asked, absent, Option.filter]

theorem Moment.missed?_eq_some_iff :
    m.missed? = some (op, key) ↔ m.lookup? = some (op, key) ∧ m.before.current? op key = none := by
  simp [missed?, Option.filter_eq_some_iff]

theorem Moment.missed?_of_idle (idle : m.lookup? = none) : m.missed? = none ∧ m.hit? = none := by
  simp [missed?, hit?, idle]

/-- An operation that does not ask the cache leaves it alone. -/
theorem Moment.counted_idle (idle : m.lookup? = none) (hits : d.hits = m.before.hits)
    (misses : d.misses = m.before.misses) (resolutions : d.resolutions = m.before.resolutions)
    (invalidations : d.invalidations = m.before.invalidations + m.invalidates.toNat)
    (version : d.version = m.before.version + m.invalidates.toNat)
    (entries : d.entries = m.before.entries) (model : d.model = m.model) :
    m.Counted hasSlot d := by
  obtain ⟨missed, hit⟩ := missed?_of_idle idle
  constructor
  all_goals simp [*, Moment.entries, inquiries]

theorem model_resolve (hasSlot : Kind → Operation → Bool) (absent : d.current? op key = none) :
    (d.resolve hasSlot op key).2.model =
      match key with
      | .builtin _ => d.model
      | .userClass number => d.model.ask (number, op.slotName) := by
  simp only [resolve, absent]
  rw [tellSome_eq, note_eq]
  cases key <;> rfl

theorem Moment.counted_resolve (hasSlot : Kind → Operation → Bool) (asked : m.lookup? = some (op, key))
    (still : m.invalidates = false) (same : m.model = m.before.model) :
    m.Counted hasSlot (m.before.resolve hasSlot op key).2 := by
  obtain ⟨t, log, recorders, current, resolved⟩ | ⟨absent, log, recorders, lookups, resolved⟩ :=
    resolve_cases hasSlot m.before op key
  · obtain ⟨missed, hit⟩ := missed?_of_current asked current
    rw [resolved]
    constructor
    all_goals simp [missed, hit, still, same, Moment.entries, inquiries]
    rfl
  · obtain ⟨missed, hit⟩ := missed?_of_absent asked absent
    have model := model_resolve hasSlot absent
    rw [resolved] at model ⊢
    constructor
    case model =>
      rw [model]
      cases key <;> simp [inquiries, missed, same]
    all_goals simp [missed, hit, still, Moment.entries]
    rfl

theorem setPolicy_settled (next : DispatchPolicy) (kept : d.policy.reshapes next = false) :
    d.setPolicy next = { d with policy := next } := by
  simp [setPolicy, kept]

theorem setTracer_settled {tracer : Option Tracer} (untraced : d.policy.tracing = false) :
    d.setTracer tracer = { d with tracer } := by
  simp [setTracer, untraced]

/-- Whether a change is an invalidation is decided by the policy before it. Any other change only puts
a setting in its place. -/
theorem change_settled {c : WorldChange} (settled : c.invalidates d.policy = false) :
    ∃ policy tracer, d.change c = { d with policy, tracer } := by
  cases c with
  | invalidateAll | typeChanged number => cases settled
  | setPolicy next => exact ⟨next, d.tracer, setPolicy_settled next settled⟩
  | setTracing on =>
    refine ⟨_, d.tracer, setPolicy_settled { d.policy with tracing := on } ?_⟩
    simpa [DispatchPolicy.reshapes, WorldChange.invalidates] using settled
  | setRecursionLimit limit =>
    refine ⟨_, d.tracer, setPolicy_settled { d.policy with recursionLimit := limit } ?_⟩
    simpa [DispatchPolicy.reshapes, WorldChange.invalidates] using settled
  | setTracer tracer => exact ⟨d.policy, tracer, setTracer_settled settled⟩

theorem change_invalidates {c : WorldChange} (moves : c.invalidates d.policy = true) :
    ∃ policy tracer log reason, d.change c = bump { d with policy, tracer, log } reason := by
  have byPolicy : ∀ next, d.policy.reshapes next = true →
      d.setPolicy next = bump { d with policy := next } "policy change" := by
    intro next reshaped
    simp [setPolicy, reshaped]
  cases c with
  | invalidateAll => exact ⟨d.policy, d.tracer, d.log, _, rfl⟩
  | typeChanged number =>
    simp only [change, notifyTypeChanged]
    rw [note_eq]
    exact ⟨d.policy, d.tracer, _, _, rfl⟩
  | setPolicy next => exact ⟨_, _, _, _, byPolicy next moves⟩
  | setTracing on =>
    refine ⟨_, _, _, _, byPolicy { d.policy with tracing := on } ?_⟩
    simpa [DispatchPolicy.reshapes, WorldChange.invalidates] using moves
  | setRecursionLimit limit =>
    refine ⟨_, _, _, _, byPolicy { d.policy with recursionLimit := limit } ?_⟩
    simpa [DispatchPolicy.reshapes, WorldChange.invalidates] using moves
  | setTracer tracer =>
    have traced : d.policy.tracing = true := moves
    exact ⟨d.policy, tracer, d.log, _, by simp [change, setTracer, traced]; rfl⟩

theorem Moment.counted_change {c : WorldChange} (idle : m.lookup? = none)
    (moves : m.invalidates = c.invalidates m.before.policy) :
    m.Counted hasSlot ({ m.before with model := m.model }.change c) := by
  cases invalidates : c.invalidates m.before.policy with
  | false =>
    obtain ⟨policy, tracer, changed⟩ := change_settled (d := { m.before with model := m.model }) invalidates
    rw [changed]
    rw [invalidates] at moves
    exact counted_idle idle rfl rfl rfl (by rw [moves]; rfl) (by rw [moves]; rfl) rfl rfl
  | true =>
    obtain ⟨policy, tracer, log, reason, changed⟩ :=
      change_invalidates (d := { m.before with model := m.model }) invalidates
    obtain ⟨log, recorders, sites, bumped, -⟩ :=
      bump_eq { m.before with model := m.model, policy, tracer, log } reason
    rw [changed, bumped]
    rw [invalidates] at moves
    exact counted_idle idle rfl rfl rfl (by rw [moves]; rfl) (by rw [moves]; rfl) rfl rfl

theorem perform_counted (hasSlot : Kind → Operation → Bool) (d : Dispatcher) (a : DispatchAction) :
    Moment.Counted hasSlot ⟨d, a⟩ (d.perform hasSlot a) := by
  cases a with
  | resolve op key => exact Moment.counted_resolve hasSlot (m := ⟨d, .resolve op key⟩) rfl rfl rfl
  | change c => exact Moment.counted_change (m := ⟨d, .change c⟩) rfl rfl
  | redefine model c => exact Moment.counted_change (m := ⟨d, .redefine model c⟩) rfl rfl
  | openSite op =>
    obtain ⟨log, opened⟩ := openSite_eq d op
    simp only [perform, opened]
    have version := version_register d.registry (d.withSite op).isAlive d.sites.size
    exact Moment.counted_idle rfl rfl rfl rfl rfl version rfl rfl
  | resolveSite site key =>
    simp only [perform]
    cases found : d.sites[site]? with
    | none =>
      have idle : Moment.lookup? ⟨d, .resolveSite site key⟩ = none := by
        simp [Moment.lookup?, found]
      simp only [resolveSite, found, Option.map_none, Option.getD_none]
      exact Moment.counted_idle idle rfl rfl rfl rfl rfl rfl rfl
    | some s =>
      obtain ⟨t, current, resolved⟩ | ⟨absent, resolved⟩ := resolveSite_cases hasSlot d found key
      · have idle : Moment.lookup? ⟨d, .resolveSite site key⟩ = none := by
          simp [Moment.lookup?, found, current]
        simp only [resolved, Option.map_some, Option.getD_some]
        exact Moment.counted_idle idle rfl rfl rfl rfl rfl rfl rfl
      · have asked : Moment.lookup? ⟨d, .resolveSite site key⟩ = some (s.op, key) := by
          simp [Moment.lookup?, found, absent]
        simp only [resolved, Option.map_some, Option.getD_some]
        -- What the site gets from the cache is not counted anywhere.
        have counted := Moment.counted_resolve hasSlot asked rfl rfl
        exact ⟨counted.hits, counted.misses, counted.resolutions, counted.invalidations,
          counted.version, counted.entries, counted.model⟩
  | holdSite site => exact Moment.counted_idle rfl rfl rfl rfl rfl rfl rfl rfl
  | releaseSite site => exact Moment.counted_idle rfl rfl rfl rfl rfl rfl rfl rfl
  | sweep =>
    obtain ⟨log, swept⟩ := sweepNow_eq d
    simp only [perform, swept]
    exact Moment.counted_idle rfl rfl rfl rfl rfl rfl rfl rfl
  | tell tracer event =>
    simp only [perform]
    rw [tell_eq]
    exact Moment.counted_idle rfl rfl rfl rfl rfl rfl rfl rfl
  | addRecorder => exact Moment.counted_idle rfl rfl rfl rfl rfl rfl rfl rfl
  | putBooks log recorders lookups => exact Moment.counted_idle rfl rfl rfl rfl rfl rfl rfl rfl

/-! ## What the cache remembers -/

theorem mem_keys_setEntry (k k' : Operation × TypeKey) (e : SlotEntry)
    (entries : List ((Operation × TypeKey) × SlotEntry)) :
    k' ∈ (setEntry k e entries).map Prod.fst ↔ k' = k ∨ k' ∈ entries.map Prod.fst := by
  induction entries with
  | nil => simp [setEntry]
  | cons first rest ih =>
    by_cases here : first.1 = k
    · simp [setEntry, here]
    · simp only [setEntry, here, if_false, List.map_cons, List.mem_cons, ih]
      exact or_left_comm

theorem nodup_keys_setEntry (k : Operation × TypeKey) (e : SlotEntry)
    {entries : List ((Operation × TypeKey) × SlotEntry)} (distinct : (entries.map Prod.fst).Nodup) :
    ((setEntry k e entries).map Prod.fst).Nodup := by
  induction entries with
  | nil => simp [setEntry]
  | cons first rest ih =>
    obtain ⟨other, rest'⟩ := List.nodup_cons.mp distinct
    by_cases here : first.1 = k
    · simpa [setEntry, here] using distinct
    · simp only [setEntry, here, if_false, List.map_cons, List.nodup_cons, mem_keys_setEntry,
        false_or]
      exact ⟨other, ih rest'⟩

theorem current?_congr (entries : d'.entries = d.entries) (version : d'.version = d.version) :
    d'.current? op key = d.current? op key := by
  simp only [current?, entry?, entries, version]

/-- What the cache holds is what was asked for, and what is current was asked for under the present
version. -/
structure Remembers (history : List Moment) (d : Dispatcher) : Prop where
  past : ∀ op key t, d.entry? op key = some (.cached t) → t.version ≤ d.version
  behind : ∀ m ∈ history, m.before.version ≤ d.version
  current_iff : ∀ op key, (d.current? op key).isSome ↔
    ∃ m ∈ history, m.lookup? = some (op, key) ∧ m.before.version = d.version
  distinct : (d.entries.map Prod.fst).Nodup
  known_iff : ∀ k, k ∈ d.entries.map Prod.fst ↔ ∃ m ∈ history, m.lookup? = some k

theorem remembers_initial (model : ClassModel) (config : CacheConfig) (policy : DispatchPolicy)
    (logging : Bool) : (initial model config policy logging).Remembers [] where
  past _ _ _ found := nomatch found
  behind _ mem := nomatch mem
  current_iff op key := by simp [initial, make, current?, entry?]
  distinct := List.nodup_nil
  known_iff k := by simp [initial, make]

theorem Moment.invalidates_of_lookup {k : Operation × TypeKey} (asked : m.lookup? = some k) :
    m.invalidates = false := by
  obtain ⟨before, action⟩ := m
  cases action with
  | resolve op key => rfl
  | resolveSite site key => rfl
  | _ => cases asked

variable {history : List Moment} {a : DispatchAction}

theorem Remembers.miss (h : d.Remembers history)
    (missed : Moment.missed? ⟨d, a⟩ = some (op, key))
    (counted : Moment.Counted hasSlot ⟨d, a⟩ d') : d'.Remembers (⟨d, a⟩ :: history) := by
  obtain ⟨asked, absent⟩ := Moment.missed?_eq_some_iff.mp missed
  have version : d'.version = d.version := by
    simpa [Moment.invalidates_of_lookup asked] using counted.version
  have entries := counted.entries
  simp only [Moment.entries, missed] at entries
  have found : ∀ op' key', d'.entry? op' key' =
      if (op', key') = (op, key) then some (.cached (d.freshThunk hasSlot op key d.nextThunk))
      else d.entry? op' key' := by
    intro op' key'
    rw [ entry?, entries, lookup_setEntry]
    rfl
  refine ⟨?_, ?_, ?_, ?_, ?_⟩
  · intro op' key' t held
    rw [version]
    rw [found] at held
    split at held
    · obtain rfl := SlotEntry.cached.inj (Option.some.inj held)
      exact Nat.le_refl _
    · exact h.past op' key' t held
  · intro m mem
    rw [version]
    rcases List.mem_cons.mp mem with rfl | mem
    · exact Nat.le_refl _
    · exact h.behind m mem
  · intro op' key'
    by_cases same : (op', key') = (op, key)
    · obtain ⟨rfl, rfl⟩ := Prod.mk.inj same
      have current : d'.current? op' key' = some (d.freshThunk hasSlot op' key' d.nextThunk) := by
        rw [current?_eq_some_iff, found, if_pos rfl]
        exact ⟨rfl, version.symm⟩
      rw [current]
      exact iff_of_true rfl ⟨_, List.mem_cons_self, asked, version.symm⟩
    · have kept : d'.current? op' key' = d.current? op' key' := by
        simp only [current?, found, version, if_neg same]
      have other : Moment.lookup? ⟨d, a⟩ ≠ some (op', key') := by
        rw [asked]
        exact fun h => same (Option.some.inj h).symm
      simp [kept, h.current_iff, version, other]
  · rw [entries]
    exact nodup_keys_setEntry _ _ h.distinct
  · intro k
    rw [entries, mem_keys_setEntry, h.known_iff]
    simp [asked, eq_comm]

/-- Anything else leaves the cache alone, but an invalidation leaves nothing current. -/
theorem Remembers.keep (h : d.Remembers history) (missed : Moment.missed? ⟨d, a⟩ = none)
    (counted : Moment.Counted hasSlot ⟨d, a⟩ d') : d'.Remembers (⟨d, a⟩ :: history) := by
  have entries : d'.entries = d.entries := by
    simpa [Moment.entries, missed] using counted.entries
  have held : ∀ op key, d'.entry? op key = d.entry? op key := fun op key => by
    rw [ entry?, entries]
    rfl
  have version := counted.version
  have forward : d.version ≤ d'.version := by
    rw [version]
    exact Nat.le_add_right _ _
  have behind : ∀ m ∈ (⟨d, a⟩ :: history : List Moment), m.before.version ≤ d.version := by
    intro m mem
    rcases List.mem_cons.mp mem with rfl | mem
    · exact Nat.le_refl _
    · exact h.behind m mem
  have current : ∀ op key, Moment.lookup? ⟨d, a⟩ = some (op, key) →
      (d.current? op key).isSome = true := by
    intro op key asked
    by_contra absent
    rw [Option.not_isSome_iff_eq_none] at absent
    rw [(Moment.missed?_of_absent asked absent).1] at missed
    cases missed
  refine ⟨?_, ?_, ?_, ?_, ?_⟩
  · intro op key t found
    rw [held] at found
    exact Nat.le_trans (h.past op key t found) forward
  · exact fun m mem => Nat.le_trans (behind m mem) forward
  · intro op key
    cases invalidates : Moment.invalidates ⟨d, a⟩ with
    | true =>
      have moved : d.version < d'.version := by
        rw [version, invalidates]
        exact Nat.lt_succ_self _
      refine iff_of_false ?_ ?_
      · intro some
        obtain ⟨t, found⟩ := Option.isSome_iff_exists.mp some
        obtain ⟨found, same⟩ := current?_eq_some_iff.mp found
        rw [held] at found
        exact Nat.not_lt.mpr (h.past op key t found) (same ▸ moved)
      · rintro ⟨m, mem, -, same⟩
        exact Nat.not_lt.mpr (behind m mem) (same ▸ moved)
    | false =>
      have still : d'.version = d.version := by simpa [invalidates] using version
      rw [current?_congr entries still, still]
      constructor
      · intro some
        obtain ⟨m, mem, asked⟩ := (h.current_iff op key).mp some
        exact ⟨m, List.mem_cons_of_mem _ mem, asked⟩
      · rintro ⟨m, mem, asked, same⟩
        rcases List.mem_cons.mp mem with rfl | mem
        · exact current op key asked
        · exact (h.current_iff op key).mpr ⟨m, mem, asked, same⟩
  · rw [entries]
    exact h.distinct
  · intro k
    rw [entries, h.known_iff]
    constructor
    · rintro ⟨m, mem, asked⟩
      exact ⟨m, List.mem_cons_of_mem _ mem, asked⟩
    · rintro ⟨m, mem, asked⟩
      rcases List.mem_cons.mp mem with rfl | mem
      · obtain ⟨op, key⟩ := k
        obtain ⟨m, mem, asked, -⟩ := (h.current_iff op key).mp (current op key asked)
        exact ⟨m, mem, asked⟩
      · exact ⟨m, mem, asked⟩

theorem Remembers.perform (h : d.Remembers history) (hasSlot : Kind → Operation → Bool)
    (a : DispatchAction) : (d.perform hasSlot a).Remembers (⟨d, a⟩ :: history) := by
  have counted := perform_counted hasSlot d a
  cases missed : Moment.missed? ⟨d, a⟩ with
  | some k => exact h.miss missed counted
  | none => exact h.keep missed counted

/-! ## Whole runs -/

section Runs

variable {model : ClassModel} {config : CacheConfig} {policy : DispatchPolicy} {logging : Bool}
  {actions : List DispatchAction} {start : Dispatcher}

theorem remembers_after (hasSlot : Kind → Operation → Bool) (h : start.Remembers [])
    (actions : List DispatchAction) :
    (start.after hasSlot actions).Remembers (start.moments hasSlot actions) := by
  induction actions with
  | nil => exact h
  | cons a earlier ih => exact ih.perform hasSlot a

theorem moments_split {later earlier : List Moment}
    (split : start.moments hasSlot actions = later ++ m :: earlier) :
    ∃ before a, m = ⟨start.after hasSlot before, a⟩ ∧ earlier = start.moments hasSlot before := by
  induction actions generalizing later with
  | nil => simp [moments] at split
  | cons a before ih =>
    cases later with
    | nil =>
      obtain ⟨rfl, rfl⟩ := List.cons.inj split
      exact ⟨before, a, rfl, rfl⟩
    | cons _ later => exact ih (List.cons.inj split).2

theorem counted_of_mem (mem : m ∈ start.moments hasSlot actions) :
    m.Counted hasSlot (m.after hasSlot) := by
  obtain ⟨later, earlier, split⟩ := List.append_of_mem mem
  obtain ⟨before, a, rfl, -⟩ := moments_split split
  exact perform_counted hasSlot _ a

/-- A pair is missed if and only if it was not asked for before under the same version. -/
theorem missed_iff_first (h : start.Remembers []) {later earlier : List Moment}
    (split : start.moments hasSlot actions = later ++ m :: earlier)
    (asked : m.lookup? = some (op, key)) :
    m.missed? = some (op, key) ↔
      ∀ m' ∈ earlier, m'.lookup? = some (op, key) → m'.before.version ≠ m.before.version := by
  obtain ⟨before, a, rfl, rfl⟩ := moments_split split
  have remembered := (remembers_after hasSlot h before).current_iff op key
  rw [Moment.missed?_eq_some_iff, ← Option.not_isSome_iff_eq_none, remembered]
  simp only [asked, true_and, not_exists, not_and]

def missesUnder (v : Nat) (op : Operation) (key : TypeKey) (history : List Moment) : Nat :=
  history.countP fun m => m.missed? = some (op, key) ∧ m.before.version = v

open Classical in
theorem missesUnder_eq (h : start.Remembers []) (hasSlot : Kind → Operation → Bool) (v : Nat)
    (op : Operation) (key : TypeKey) (actions : List DispatchAction) :
    missesUnder v op key (start.moments hasSlot actions) =
      if ∃ m ∈ start.moments hasSlot actions, m.lookup? = some (op, key) ∧ m.before.version = v
      then 1 else 0 := by
  induction actions with
  | nil => simp [missesUnder, moments]
  | cons a earlier ih =>
    have split : start.moments hasSlot (a :: earlier) =
        [] ++ ⟨start.after hasSlot earlier, a⟩ :: start.moments hasSlot earlier := rfl
    have first (asked : Moment.lookup? ⟨start.after hasSlot earlier, a⟩ = some (op, key)) :=
      missed_iff_first h split asked
    simp only [missesUnder] at ih
    simp only [missesUnder, moments, List.countP_cons, ih, List.exists_mem_cons_iff,
      decide_eq_true_eq]
    by_cases asked : Moment.lookup? ⟨start.after hasSlot earlier, a⟩ = some (op, key) ∧
        (start.after hasSlot earlier).version = v
    · obtain ⟨asked, rfl⟩ := asked
      by_cases again : ∃ m ∈ start.moments hasSlot earlier, m.lookup? = some (op, key) ∧
          m.before.version = (start.after hasSlot earlier).version
      · obtain ⟨m, mem, asked', same⟩ := again
        have hit : Moment.missed? ⟨start.after hasSlot earlier, a⟩ ≠ some (op, key) :=
          fun missed => (first asked).mp missed m mem asked' same
        rw [if_pos ⟨m, mem, asked', same⟩, if_neg fun both => hit both.1, if_pos (.inl ⟨asked, rfl⟩)]
      · have missed : Moment.missed? ⟨start.after hasSlot earlier, a⟩ = some (op, key) :=
          (first asked).mpr fun m mem asked' same => again ⟨m, mem, asked', same⟩
        rw [if_neg again, if_pos ⟨missed, rfl⟩, if_pos (.inl ⟨asked, rfl⟩)]
    · have other : ¬ (Moment.missed? ⟨start.after hasSlot earlier, a⟩ = some (op, key) ∧
          (start.after hasSlot earlier).version = v) :=
        fun both => asked ⟨(Moment.missed?_eq_some_iff.mp both.1).1, both.2⟩
      rw [if_neg other, Nat.add_zero]
      simp only [asked, false_or]

theorem Moment.length_lookup? (m : Moment) :
    m.lookup?.toList.length = m.hit?.toList.length + m.missed?.toList.length := by
  cases asked : m.lookup? with
  | none => simp [missed?_of_idle asked]
  | some k =>
    cases current : m.before.current? k.1 k.2 with
    | none => simp [missed?_of_absent asked current]
    | some t => simp [missed?_of_current asked current]

theorem length_filterMap_cons {α β : Type} (f : α → Option β) (a : α) (rest : List α) :
    ((a :: rest).filterMap f).length = (rest.filterMap f).length + (f a).toList.length := by
  cases found : f a <;> simp [found]

structure Tallies (history : List Moment) (d : Dispatcher) : Prop where
  lookups : d.hits + d.misses = (history.filterMap Moment.lookup?).length
  hits : d.hits = (history.filterMap Moment.hit?).length
  resolutions : d.resolutions = d.misses
  invalidations : d.invalidations = d.version
  version : d.version = history.countP Moment.invalidates

theorem tallies_initial (model : ClassModel) (config : CacheConfig) (policy : DispatchPolicy)
    (logging : Bool) : (initial model config policy logging).Tallies [] :=
  ⟨rfl, rfl, rfl, rfl, rfl⟩

theorem Tallies.perform (h : d.Tallies history) (hasSlot : Kind → Operation → Bool)
    (a : DispatchAction) : (d.perform hasSlot a).Tallies (⟨d, a⟩ :: history) := by
  have counted := perform_counted hasSlot d a
  have split := Moment.length_lookup? ⟨d, a⟩
  constructor
  · rw [length_filterMap_cons, ← h.lookups, counted.hits, counted.misses, split]
    exact Nat.add_add_add_comm _ _ _ _
  · rw [length_filterMap_cons, ← h.hits, counted.hits]
  · rw [counted.resolutions, counted.misses, h.resolutions]
  · rw [counted.invalidations, counted.version, h.invalidations]
  · rw [counted.version, List.countP_cons, ← h.version]
    cases Moment.invalidates ⟨d, a⟩ <;> rfl

theorem tallies_after (hasSlot : Kind → Operation → Bool) (h : start.Tallies [])
    (actions : List DispatchAction) :
    (start.after hasSlot actions).Tallies (start.moments hasSlot actions) := by
  induction actions with
  | nil => exact h
  | cons a earlier ih => exact ih.perform hasSlot a

theorem Remembers.length_entries (h : d.Remembers history) :
    d.entries.length = (history.filterMap Moment.lookup?).toFinset.card := by
  have same : (history.filterMap Moment.lookup?).toFinset = (d.entries.map Prod.fst).toFinset := by
    ext k
    rw [List.mem_toFinset, List.mem_toFinset, h.known_iff, List.mem_filterMap]
  rw [same, List.toFinset_card_of_nodup h.distinct, List.length_map]

def inquiryLine (slot : Nat × String) : String := s!"{slot.1}.{slot.2}"

theorem ask_connected {model : ClassModel} (connected : model.connected = true)
    (slot : Nat × String) :
    model.ask slot = { model with lookups := inquiryLine slot :: model.lookups } := by
  simp [ClassModel.ask, ClassModel.resolveSlot, connected, inquiryLine]

/-- As long as nobody puts other classes in their place or reads off what they noted, they have noted
one line for each slot that they were asked for. -/
theorem model_after (connected : start.model.connected = true)
    (untouched : ∀ m ∈ start.moments hasSlot actions, m.model = m.before.model) :
    (start.after hasSlot actions).model =
      { start.model with
        lookups := ((start.moments hasSlot actions).flatMap Moment.inquiries).map inquiryLine ++
          start.model.lookups } := by
  induction actions with
  | nil => rfl
  | cons a earlier ih =>
    have before := ih fun m mem => untouched m (List.mem_cons_of_mem _ mem)
    have counted := perform_counted hasSlot (start.after hasSlot earlier) a
    simp only [after, moments, List.flatMap_cons, List.map_append, List.append_assoc]
    rw [counted.model, untouched _ List.mem_cons_self]
    simp only [before]
    unfold Moment.inquiries
    split
    · simp [ask_connected, connected]
    · simp

/-- The account of a run. Every lookup is counted once, as a hit or as a miss; a miss is followed by
one resolution; the world moves on by one with each invalidation, and with nothing else; the cache has
one entry for each pair that was ever asked for. The classes are asked once on a miss on one of them,
and never otherwise. A pair is missed when it is asked for the first time under a version, and only
then: at most once in any version, and once in each in which it is used. -/
structure Accounts (hasSlot : Kind → Operation → Bool) (history : List Moment) (d : Dispatcher) :
    Prop where
  lookups : d.stats.hits + d.stats.misses = (history.filterMap Moment.lookup?).length
  hits : d.stats.hits = (history.filterMap Moment.hit?).length
  resolutions : d.stats.resolutions = d.stats.misses
  invalidations : d.stats.invalidations = d.stats.worldVersion
  worldVersion : d.stats.worldVersion = history.countP Moment.invalidates
  moved : ∀ m ∈ history, (m.after hasSlot).version = m.before.version + m.invalidates.toNat
  entries : d.stats.entries = (history.filterMap Moment.lookup?).toFinset.card
  asked : ∀ m ∈ history, (m.after hasSlot).model = m.inquiries.foldl ClassModel.ask m.model
  first : ∀ later m earlier op key, history = later ++ m :: earlier → m.lookup? = some (op, key) →
    (m.missed? = some (op, key) ↔
      ∀ m' ∈ earlier, m'.lookup? = some (op, key) → m'.before.version ≠ m.before.version)
  once : ∀ v op key, missesUnder v op key history ≤ 1
  again : ∀ m ∈ history, ∀ op key, m.lookup? = some (op, key) →
    missesUnder m.before.version op key history = 1

theorem accounts_after (hasSlot : Kind → Operation → Bool) (model : ClassModel)
    (config : CacheConfig) (policy : DispatchPolicy) (logging : Bool)
    (actions : List DispatchAction) :
    Accounts hasSlot ((initial model config policy logging).moments hasSlot actions)
      ((initial model config policy logging).after hasSlot actions) := by
  have remembers := remembers_initial model config policy logging
  have tallies := tallies_after hasSlot (tallies_initial model config policy logging) actions
  refine ⟨tallies.lookups, tallies.hits, tallies.resolutions, tallies.invalidations,
    tallies.version, ?_, ?_, ?_, ?_, ?_, ?_⟩
  · exact fun m mem => (counted_of_mem mem).version
  · exact (remembers_after hasSlot remembers actions).length_entries
  · exact fun m mem => (counted_of_mem mem).model
  · exact fun later m earlier op key split asked => missed_iff_first remembers split asked
  · intro v op key
    rw [missesUnder_eq remembers]
    split
    · exact Nat.le_refl 1
    · exact Nat.zero_le 1
  · intro m mem op key asked
    rw [missesUnder_eq remembers, if_pos ⟨m, mem, asked, rfl⟩]

/-- The version, everything that the cache and the sites hold and all counters are the same. -/
structure Unmoved (d d' : Dispatcher) : Prop where
  version : d'.version = d.version
  entries : d'.entries = d.entries
  sites : d'.sites = d.sites
  stats : d'.stats = d.stats

theorem unmoved_setPolicy {next : DispatchPolicy} (kept : d.policy.reshapes next = false) :
    Unmoved d (d.setPolicy next) := by
  rw [setPolicy_settled next kept]
  exact ⟨rfl, rfl, rfl, rfl⟩

/-- Every run of the dispatch layer, from the first state on and by whatever operations, can be
accounted for; connected classes that are left alone have noted exactly what they were asked for. A
limit that stays a limit, a policy of the present shape and a tracer set while nothing is traced move
nothing. -/
theorem run_accounted (hasSlot : Kind → Operation → Bool) (model : ClassModel)
    (config : CacheConfig) (policy : DispatchPolicy) (logging : Bool)
    (actions : List DispatchAction) :
    let start := initial model config policy logging
    let history := start.moments hasSlot actions
    let d := start.after hasSlot actions
    Accounts hasSlot history d ∧
    (model.connected = true → (∀ m ∈ history, m.model = m.before.model) →
      d.model.lookups = (history.flatMap Moment.inquiries).map inquiryLine ++ model.lookups) ∧
    (∀ limit limit', d.policy.recursionLimit = some limit →
      Unmoved d (d.setRecursionLimit (some limit'))) ∧
    (∀ next, next.tracing = d.policy.tracing →
      next.recursionLimit.isSome = d.policy.recursionLimit.isSome → Unmoved d (d.setPolicy next)) ∧
    ∀ tracer, d.policy.tracing = false → Unmoved d (d.setTracer tracer) := by
  intro start history d
  refine ⟨accounts_after hasSlot model config policy logging actions, ?_, ?_, ?_, ?_⟩
  · intro connected untouched
    exact congrArg ClassModel.lookups (model_after connected untouched)
  · intro limit limit' limited
    exact unmoved_setPolicy (by simp [DispatchPolicy.reshapes, limited])
  · intro next tracing limited
    exact unmoved_setPolicy (by simp [DispatchPolicy.reshapes, tracing, limited])
  · intro tracer untraced
    rw [setTracer_settled untraced]
    exact ⟨rfl, rfl, rfl, rfl⟩

/-- A class is asked once for two lookups, again after its slots have changed, and for another slot;
lists are not among the classes. -/
example :
    let bag := ClassModel.mk #[⟨some "Bag", [("__len__", .native 1 "size" [])]⟩] [] true
    let d := (initial bag {} {} false).after Kind.hasSlot
      [.resolve .len (.builtin .list), .resolve .truth (.userClass 0),
        .change (.setRecursionLimit (some 9)), .resolve .len (.userClass 0),
        .change (.typeChanged 0), .resolve .len (.userClass 0), .resolve .len (.userClass 0)]
    d.stats = { hits := 1, misses := 4, resolutions := 4, invalidations := 1, worldVersion := 1,
                entries := 3 } ∧
      d.model.lookups = ["0.__bool__", "0.__len__", "0.__len__"] := by
  decide +kernel

end Runs

end Dispatcher

namespace Script

/-- The dispatch layer is somewhere on a run from the given state. -/
def running (start : Dispatcher) : Conduct where
  Step _ _ := True
  Allowed _ := True
  Kept d := ∃ actions, d = start.after Kind.hasSlot actions
  Strict := False
  refl _ := trivial
  trans _ _ := trivial
  allowed _ := trivial
  retained _ := trivial
  dispatched _ := trivial
  traced _ := trivial
  nested _ := trivial
  printed _ := trivial
  limited _ := trivial
  told := by
    rintro d tracer event ⟨actions, rfl⟩
    exact ⟨.tell tracer event :: actions, rfl⟩
  resolved := by
    rintro d op key ⟨actions, rfl⟩
    exact ⟨.resolve op key :: actions, rfl⟩
  fits strict := strict.elim

theorem running_free (start : Dispatcher) : (running start).Free where
  lax := id
  writes _ _ _ := trivial
  session _ _ := trivial
  performed := by
    rintro d a ⟨actions, rfl⟩
    exact ⟨a :: actions, rfl⟩
  redefined := by
    rintro d model ⟨actions, rfl⟩
    -- Classes that change without a word come with a policy that is the present one.
    let policy := (start.after Kind.hasSlot actions).policy
    refine ⟨.redefine model (.setPolicy policy) :: actions, ?_⟩
    have kept : policy.reshapes policy = false := by simp [DispatchPolicy.reshapes]
    exact (Dispatcher.setPolicy_settled (d := { start.after Kind.hasSlot actions with model })
      policy kept).symm

theorem runSteps_accounted {model : ClassModel} {config : CacheConfig} {policy : DispatchPolicy}
    {logging : Bool} {w : World} (starts : w.dispatcher = .initial model config policy logging)
    (n : Nat) (last : Value) (steps : List Step) :
    ∃ actions, (runSteps (hooks n) last steps w).2.dispatcher =
        w.dispatcher.after Kind.hasSlot actions ∧
      Dispatcher.Accounts Kind.hasSlot (w.dispatcher.moments Kind.hasSlot actions)
        (runSteps (hooks n) last steps w).2.dispatcher := by
  have free := running_free w.dispatcher
  have obeys := runSteps_obeys free (hooks_conducts free n) last steps
  obtain ⟨⟨actions, ran⟩, -, -⟩ := obeys w ⟨[], rfl⟩
  refine ⟨actions, ran, ?_⟩
  rw [ran, starts]
  exact Dispatcher.accounts_after Kind.hasSlot model config policy logging actions

end Script

end DynamicObjects
