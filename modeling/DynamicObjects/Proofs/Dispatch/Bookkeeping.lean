import Mathlib.Data.List.Nodup
import DynamicObjects.Proofs.Dispatch.Courses

/-!
The books of the registry. A site that is alive is never lost and never listed twice, and the counters,
which live apart from the list, never drift from it. So an invalidation reaches every live site, and a
sweep leaves exactly those.
-/
namespace DynamicObjects

def Registry.link (r : Registry) (site : Nat) : Registry :=
  { r with handles := site :: r.handles, count := r.count + 1 }

/-- What a sweep of `r` does and reports: the dead handles go, wherever they stand, the others stay in
their order, and every handle is accounted for. -/
structure Registry.Sweeps (r : Registry) (alive : Nat → Bool) (o : SweepOutcome) (r' : Registry) :
    Prop where
  handles : r'.handles = r.handles.filter alive
  removed : o.removed = r.handles.countP (!alive ·)
  kept : o.kept = r.handles.countP alive
  all : o.removed + o.kept = r.handles.length
  count : r'.count = r.count - o.removed
  reclaimed : r'.reclaimed = r.reclaimed + o.removed

theorem Registry.sweeps_sweep (r : Registry) (alive : Nat → Bool) :
    r.Sweeps alive (r.sweep alive).1 (r.sweep alive).2 := by
  have removed : (r.sweep alive).1.removed = r.handles.countP (!alive ·) := by
    simp [sweep, unlinkDead_eq, List.countP_eq_length_filter]
  have kept : (r.sweep alive).1.kept = r.handles.countP alive := by
    simp [sweep, unlinkDead_eq, List.countP_eq_length_filter]
  refine ⟨?_, removed, kept, ?_, rfl, rfl⟩
  · simp [sweep, unlinkDead_eq]
  · rw [removed, kept, Nat.add_comm]
    simpa using (List.length_eq_countP_add_countP alive (l := r.handles)).symm

theorem Registry.register_cases (r : Registry) (alive : Nat → Bool) (site : Nat) :
    r.register alive site = (none, r.link site) ∨
    r.register alive site =
      (some ((r.link site).sweep alive).1, ((r.link site).sweep alive).2) := by
  simp only [register]
  split
  · exact .inr rfl
  · exact .inl rfl

def DispatchAction.registered : DispatchAction → Nat
  | .openSite _ => 1
  | _ => 0

namespace Dispatcher

def registrations : List Moment → Nat
  | [] => 0
  | m :: history => m.action.registered + registrations history

variable {hasSlot : Kind → Operation → Bool} {d d' : Dispatcher} {made : Nat}
  {history : List Moment}

/-- The books are right after `made` registrations: no handle occurs twice, every live site has one,
the count is that of the handles, and each of the sites registered is either counted or reclaimed. -/
structure Orderly (made : Nat) (d : Dispatcher) : Prop where
  nodup : d.registry.handles.Nodup
  known : ∀ i ∈ d.registry.handles, i < d.sites.size
  listed : ∀ i, d.isAlive i → i ∈ d.registry.handles
  counted : d.registry.count = d.registry.handles.length
  total : d.registry.count + d.registry.reclaimed = made

theorem orderly_initial (model : ClassModel) (config : CacheConfig) (policy : DispatchPolicy)
    (logging : Bool) : (initial model config policy logging).Orderly 0 where
  nodup := List.nodup_nil
  known := by
    intro i mem
    cases mem
  listed := by
    intro i alive
    cases alive
  counted := rfl
  total := rfl

theorem Orderly.congr (h : d.Orderly made) (handles : d'.registry.handles = d.registry.handles)
    (count : d'.registry.count = d.registry.count)
    (reclaimed : d'.registry.reclaimed = d.registry.reclaimed)
    (size : d'.sites.size = d.sites.size) (alive : ∀ i, d'.isAlive i → d.isAlive i) :
    d'.Orderly made where
  nodup := handles ▸ h.nodup
  known := by
    rw [handles, size]
    exact h.known
  listed := by
    rw [handles]
    exact fun i living => h.listed i (alive i living)
  counted := by rw [handles, count, h.counted]
  total := by rw [count, reclaimed, h.total]

theorem Orderly.sweep (h : d.Orderly made) :
    Orderly made { d with registry := (d.registry.sweep d.isAlive).2 } := by
  have swept := d.registry.sweeps_sweep d.isAlive
  refine ⟨?_, ?_, ?_, ?_, ?_⟩
  · rw [swept.handles]
    exact h.nodup.filter _
  · rw [swept.handles]
    exact fun i mem => h.known i (List.mem_filter.mp mem).1
  · rw [swept.handles]
    exact fun i alive => List.mem_filter.mpr ⟨h.listed i alive, alive⟩
  · rw [swept.count, swept.handles, ← List.countP_eq_length_filter, ← swept.kept, h.counted,
      ← swept.all]
    omega
  · have total := h.total
    have counted := h.counted
    have all := swept.all
    rw [swept.count, swept.reclaimed]
    omega

theorem isAlive_withSite (d : Dispatcher) (op : Operation) (i : Nat) :
    (d.withSite op).isAlive i = (i == d.sites.size || d.isAlive i) := by
  unfold isAlive withSite
  simp only [Array.getElem?_push]
  by_cases new : i = d.sites.size
  · simp [new]
  · simp [new]

theorem Orderly.link (h : d.Orderly made) (op : Operation) :
    Orderly (made + 1) { d.withSite op with registry := d.registry.link d.sites.size } := by
  have size : (d.withSite op).sites.size = d.sites.size + 1 := by simp [withSite]
  refine ⟨?_, ?_, ?_, ?_, ?_⟩
  · exact List.nodup_cons.mpr ⟨fun mem => Nat.lt_irrefl _ (h.known _ mem), h.nodup⟩
  · intro i mem
    show i < (d.withSite op).sites.size
    rw [size]
    rcases List.mem_cons.mp mem with rfl | mem
    · exact Nat.lt_succ_self _
    · exact Nat.lt_succ_of_lt (h.known i mem)
  · intro i alive
    have cases : i = d.sites.size ∨ d.isAlive i := by
      simpa using (isAlive_withSite d op i).symm.trans alive
    exact List.mem_cons.mpr (cases.imp_right (h.listed i))
  · show d.registry.count + 1 = _
    rw [h.counted]
    rfl
  · show d.registry.count + 1 + d.registry.reclaimed = made + 1
    have total := h.total
    omega

theorem Orderly.openSite (h : d.Orderly made) (op : Operation) :
    (d.openSite op).2.Orderly (made + 1) := by
  obtain ⟨log, opened⟩ := openSite_eq d op
  rw [opened]
  rcases d.registry.register_cases (d.withSite op).isAlive d.sites.size with quiet | swept
  · rw [quiet]
    exact (h.link op).congr rfl rfl rfl rfl fun _ => id
  · rw [swept]
    exact (h.link op).sweep.congr rfl rfl rfl rfl fun _ => id

theorem size_eq_of_map {sites sites' : Array Site} {f : Nat → Site → Site}
    (all : ∀ i : Nat, sites'[i]? = (sites[i]?).map (f i)) : sites'.size = sites.size := by
  have same : ∀ i : Nat, sites'.size ≤ i ↔ sites.size ≤ i := by
    intro i
    rw [← Array.getElem?_eq_none_iff, all, Option.map_eq_none_iff, Array.getElem?_eq_none_iff]
  exact Nat.le_antisymm ((same _).mpr (Nat.le_refl _)) ((same _).mp (Nat.le_refl _))

theorem Orderly.bump (h : d.Orderly made) (reason : String) :
    (d.bump reason).Orderly made := by
  obtain ⟨log, recorders, sites, bumped, all⟩ := bump_eq d reason
  rw [bumped]
  refine h.congr rfl rfl rfl ?_ fun i alive => ?_
  · exact size_eq_of_map all
  · obtain ⟨s, found, held⟩ := isAlive_iff.mp alive
    obtain ⟨s', found', rfl⟩ := Option.map_eq_some_iff.mp ((all i).symm.trans found)
    exact isAlive_iff.mpr ⟨s', found', held⟩

theorem Orderly.change (h : d.Orderly made) (c : WorldChange) :
    (d.change c).Orderly made := by
  obtain ⟨policy, tracer, log, ⟨changed, -, -⟩ | ⟨reason, changed⟩⟩ := change_cases d c
  · rw [changed]
    exact h.congr rfl rfl rfl rfl fun _ => id
  · rw [changed]
    refine Orderly.bump ?_ reason
    exact h.congr rfl rfl rfl rfl fun _ => id

theorem Orderly.resolve (h : d.Orderly made) (op : Operation) (key : TypeKey) :
    (d.resolve hasSlot op key).2.Orderly made := by
  obtain ⟨t, log, recorders, -, resolved⟩ | ⟨-, log, recorders, lookups, resolved⟩ :=
    resolve_cases hasSlot d op key
  all_goals
    rw [resolved]
    exact h.congr rfl rfl rfl rfl fun _ => id

/-- A change of one site keeps the books right as long as it does not revive the site. -/
theorem Orderly.modifySite (h : d.Orderly made) (i : Nat) {f : Site → Site}
    (alive : ∀ s, d.sites[i]? = some s → 0 < (f s).holders → 0 < s.holders) :
    (d.modifySite i f).Orderly made := by
  refine h.congr rfl rfl rfl (by simp [Dispatcher.modifySite]) fun j living => ?_
  obtain ⟨s, found, held⟩ := isAlive_iff.mp living
  rw [sites_modifySite] at found
  obtain ⟨s', found', rfl⟩ := Option.map_eq_some_iff.mp found
  refine isAlive_iff.mpr ⟨s', found', ?_⟩
  split at held
  next same => exact alive s' (same ▸ found') held
  next => exact held

theorem Orderly.perform (h : d.Orderly made) {a : DispatchAction} (allowed : d.Allows a) :
    (d.perform hasSlot a).Orderly (made + a.registered) := by
  cases a with
  | resolve op key => exact h.resolve op key
  | change c => exact h.change c
  | redefine model c =>
    refine Orderly.change ?_ c
    exact h.congr rfl rfl rfl rfl fun _ => id
  | openSite op => exact h.openSite op
  | resolveSite site key =>
    obtain ⟨s, found, -⟩ := isAlive_iff.mp allowed
    obtain ⟨t, -, resolved⟩ | ⟨-, resolved⟩ := resolveSite_cases hasSlot d found key
    · simp only [Dispatcher.perform, resolved, Option.map_some, Option.getD_some]
      exact h
    · simp only [Dispatcher.perform, resolved, Option.map_some, Option.getD_some]
      exact (h.resolve s.op key).modifySite site fun _ _ => id
  | holdSite site =>
    refine h.modifySite site fun s found _ => ?_
    obtain ⟨s', found', held⟩ := isAlive_iff.mp allowed
    obtain rfl := Option.some.inj (found'.symm.trans found)
    exact held
  | releaseSite site => exact h.modifySite site fun s _ held => Nat.lt_of_lt_of_le held (Nat.sub_le _ 1)
  | sweep =>
    obtain ⟨log, swept⟩ := sweepNow_eq d
    simp only [Dispatcher.perform, swept]
    exact h.sweep.congr rfl rfl rfl rfl fun _ => id
  | tell tracer event =>
    simp only [Dispatcher.perform]
    rw [tell_eq]
    exact h.congr rfl rfl rfl rfl fun _ => id
  | addRecorder => exact h.congr rfl rfl rfl rfl fun _ => id
  | putBooks log recorders lookups => exact h.congr rfl rfl rfl rfl fun _ => id

theorem Course.orderly {model : ClassModel} {config : CacheConfig} {policy : DispatchPolicy}
    {logging : Bool} (course : Course hasSlot (initial model config policy logging) history d) :
    d.Orderly (registrations history) := by
  induction course with
  | start => exact orderly_initial model config policy logging
  | next _ a allowed ih =>
    rw [registrations, Nat.add_comm]
    exact ih.perform allowed

theorem Orderly.liveSites_eq (h : d.Orderly made) :
    d.liveSites = (List.range d.sites.size).countP d.isAlive := by
  rw [List.countP_eq_length_filter]
  apply List.Perm.length_eq
  refine (List.perm_ext_iff_of_nodup (h.nodup.filter _) (List.nodup_range.filter _)).mpr fun i => ?_
  simp only [List.mem_filter, List.mem_range]
  exact and_congr_left fun alive => ⟨h.known i, fun _ => h.listed i alive⟩

theorem Orderly.sites_invalidate (h : d.Orderly made) (i : Nat) :
    d.invalidate.2.sites[i]? = (d.sites[i]?).map fun s => if d.isAlive i then s.outdated else s := by
  obtain ⟨sites, invalidated, all⟩ := invalidate_eq d
  rw [invalidated]
  refine (all i).trans (Option.map_congr fun s found => ?_)
  cases alive : d.isAlive i with
  | true =>
    obtain ⟨s', found', held⟩ := isAlive_iff.mp alive
    obtain rfl := Option.some.inj (found'.symm.trans found)
    simp [aged, held, h.listed i alive, Site.outdated]
  | false =>
    have released : ¬ 0 < s.holders := fun held =>
      Bool.eq_false_iff.mp alive (isAlive_iff.mpr ⟨s, found, held⟩)
    simp [aged, released]

/-- Whatever the dispatch layer has been through, the list has every live site exactly once, the
counters agree with it and with what happened, an invalidation marks the live sites and no others and
reports their number, and a sweep, be it asked for or set off by a registration, removes the dead
handles and no others and reports both numbers. -/
theorem registry_in_step {model : ClassModel} {config : CacheConfig} {policy : DispatchPolicy}
    {logging : Bool} (course : Course hasSlot (initial model config policy logging) history d) :
    (∀ i, d.isAlive i → d.registry.handles.count i = 1) ∧
    d.liveSites = (List.range d.sites.size).countP d.isAlive ∧
    d.registry.count = d.registry.handles.length ∧
    d.registry.count + d.registry.reclaimed = registrations history ∧
    d.invalidate.1 = (d.version + 1, d.liveSites) ∧
    (∀ i : Nat, d.invalidate.2.sites[i]? =
      (d.sites[i]?).map fun s => if d.isAlive i then s.outdated else s) ∧
    d.registry.Sweeps d.isAlive (d.registry.sweep d.isAlive).1 d.sweepNow.2.registry ∧
    ∀ op o r, d.registry.register (d.withSite op).isAlive d.sites.size = (some o, r) →
      (d.registry.link d.sites.size).Sweeps (d.withSite op).isAlive o r ∧
        (d.openSite op).2.registry = r := by
  have orderly := course.orderly
  refine ⟨?_, orderly.liveSites_eq, orderly.counted, orderly.total, ?_, orderly.sites_invalidate, ?_,
    ?_⟩
  · exact fun i alive => List.count_eq_one_of_mem orderly.nodup (orderly.listed i alive)
  · obtain ⟨sites, invalidated, -⟩ := invalidate_eq d
    rw [invalidated]
    rfl
  · obtain ⟨log, swept⟩ := sweepNow_eq d
    rw [swept]
    exact d.registry.sweeps_sweep d.isAlive
  · intro op o r registered
    obtain ⟨log, opened⟩ := openSite_eq d op
    refine ⟨?_, by rw [opened, registered]⟩
    rcases d.registry.register_cases (d.withSite op).isAlive d.sites.size with quiet | swept
    · cases quiet.symm.trans registered
    · obtain ⟨same, rfl⟩ := Prod.mk.inj (swept.symm.trans registered)
      obtain rfl := Option.some.inj same
      exact Registry.sweeps_sweep _ _

/-- Of three sites two are dropped, so that the registration of a fourth sets off a sweep that finds
both behind the front; then the fourth is dropped and found at the front. -/
theorem registry_in_step_churn :
    ∃ history d, Course (fun _ _ => false)
        (initial .empty { initialCleanupThreshold := 3, backgroundSweep := false } {} false) history d ∧
      d.registry.sweeps = 2 ∧ d.registry.handles = [1] ∧ d.registry.reclaimed = 3 ∧
      (d.isAlive 1 ∧ d.registry.handles.count 1 = 1) ∧
      d.registry.count + d.registry.reclaimed = 4 ∧
      d.invalidate.1 = (d.version + 1, d.liveSites) := by
  have course := ((((((((@Course.start (fun _ _ => false)
    (initial .empty { initialCleanupThreshold := 3, backgroundSweep := false } {} false)).next
    (.openSite .len) trivial).next (.openSite .len) trivial).next (.openSite .len) trivial).next
    (.releaseSite 0) (by simp only [Allows]; decide +kernel)).next
    (.releaseSite 2) (by simp only [Allows]; decide +kernel)).next (.openSite .len) trivial).next
    (.releaseSite 3) (by simp only [Allows]; decide +kernel)).next .sweep trivial
  obtain ⟨once, -, -, total, reported, -⟩ := registry_in_step course
  refine ⟨_, _, course, by decide +kernel, by decide +kernel, by decide +kernel, ⟨?alive, once 1 ?alive⟩,
    total.trans (by decide +kernel), reported⟩
  decide +kernel

end Dispatcher

end DynamicObjects
