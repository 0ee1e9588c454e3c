import DynamicObjects.Proofs.Dispatch.Bookkeeping
import DynamicObjects.Proofs.Doubles.Counts

/-!
When the next sweep is due. A sweep that finds no handle sets the trigger back to its initial value. A
sweep that finds handles reads their number before it takes away what it removed, so even if it
removes all of them it tunes the trigger as for any other share, and here the share is one.
-/
namespace DynamicObjects

namespace Registry

/-- The trigger after a sweep that removed every handle: the old one stretched by the goal alone, or
put off by the backoff if that gives no positive number. -/
def stretched (config : CacheConfig) (next : Int) : Int :=
  let ratio := Double.one.div config.removalGoal
  let proposal := if ratio.isZero then -1 else toTrigger ((Double.ofInt next).div ratio)
  if 0 < proposal then proposal else saturate (next + trigger config.cleanupBackoff)

theorem saturate_toTrigger (d : Double) : saturate (toTrigger d) = toTrigger d := by
  unfold toTrigger
  split
  · rfl
  · split
    · split <;> rfl
    · unfold saturate Word.least Word.greatest
      omega

/-- If all of the handles go, their number does not matter, however it is rounded. -/
theorem retune_all (config : CacheConfig) {n : Nat} (pos : 0 < n) (size : n ≤ Word.sizeMax)
    (next : Int) : retune config n n next = stretched config next := by
  have whole := Double.ofNat_div_self pos (Nat.lt_succ_of_le size)
  have zero : trigger 0 = 0 := rfl
  simp only [retune, stretched, whole, Nat.ne_of_gt pos, if_false, Nat.sub_self, zero, Int.zero_add,
    saturate_toTrigger]

variable {config : CacheConfig} {r : Registry} {alive : Nat → Bool}

theorem nextCleanup_sweep (r : Registry) (alive : Nat → Bool) :
    (r.sweep alive).2.nextCleanup =
      retune r.config r.count (r.sweep alive).1.removed r.nextCleanup := rfl

/-- A sweep that leaves nothing has removed as many handles as it found. -/
theorem nextCleanup_emptied (counted : r.count = r.handles.length)
    (emptied : (r.sweep alive).2.handles = []) :
    (r.sweep alive).2.nextCleanup =
      retune r.config r.handles.length r.handles.length r.nextCleanup := by
  have sweeps := r.sweeps_sweep alive
  have kept : (r.sweep alive).1.kept = 0 := by
    rw [sweeps.kept, List.countP_eq_length_filter, ← sweeps.handles, emptied]
    rfl
  have removed : (r.sweep alive).1.removed = r.handles.length := by
    rw [← sweeps.all, kept, Nat.add_zero]
  rw [nextCleanup_sweep, counted, removed]

/-- What a history leaves of the settings: they stay, and so does the first trigger up to the first
sweep. -/
structure Tuned (config : CacheConfig) (r : Registry) : Prop where
  settings : r.config = config
  unswept : r.sweeps = 0 → r.nextCleanup = trigger config.initialCleanupThreshold

theorem Tuned.sweep (h : r.Tuned config) (alive : Nat → Bool) : (r.sweep alive).2.Tuned config where
  settings := h.settings
  unswept := fun never => absurd never (Nat.succ_ne_zero r.sweeps)

theorem Tuned.register (h : r.Tuned config) (alive : Nat → Bool) (site : Nat) :
    (r.register alive site).2.Tuned config := by
  have linked : (r.link site).Tuned config := ⟨h.settings, h.unswept⟩
  rcases r.register_cases alive site with quiet | swept
  · rw [quiet]
    exact linked
  · rw [swept]
    exact linked.sweep alive

end Registry

namespace Dispatcher

open Registry (Tuned trigger stretched)

variable {hasSlot : Kind → Operation → Bool} {d : Dispatcher} {history : List Moment}
  {model : ClassModel} {config : CacheConfig} {policy : DispatchPolicy} {logging : Bool}

/-- Outside of registrations and sweeps the registry changes in its version only. -/
theorem registry_perform {a : DispatchAction} (allowed : d.Allows a) :
    (∃ version, (d.perform hasSlot a).registry = { d.registry with version }) ∨
    (∃ alive site, (d.perform hasSlot a).registry = (d.registry.register alive site).2) ∨
    ∃ alive, (d.perform hasSlot a).registry = (d.registry.sweep alive).2 := by
  have changed (d : Dispatcher) (c : WorldChange) :
      ∃ version, (d.change c).registry = { d.registry with version } := by
    obtain ⟨policy, tracer, log, ⟨quiet, -, -⟩ | ⟨reason, bumped⟩⟩ := change_cases d c
    · exact ⟨_, by rw [quiet]⟩
    · obtain ⟨log', recorders, sites, moved, -⟩ := bump_eq { d with policy, tracer, log } reason
      exact ⟨_, by rw [bumped, moved]; rfl⟩
  have resolved (op : Operation) (key : TypeKey) :
      (d.resolve hasSlot op key).2.registry = d.registry := by
    obtain ⟨t, log, recorders, -, hit⟩ | ⟨-, log, recorders, lookups, built⟩ :=
      resolve_cases hasSlot d op key
    · rw [hit]
    · rw [built]
  cases a with
  | resolve op key => exact .inl ⟨_, resolved op key⟩
  | change c => exact .inl (changed d c)
  | redefine model c => exact .inl (changed { d with model } c)
  | openSite op =>
    obtain ⟨log, opened⟩ := openSite_eq d op
    simp only [perform, opened]
    exact .inr (.inl ⟨_, _, rfl⟩)
  | resolveSite site key =>
    obtain ⟨s, found, -⟩ := isAlive_iff.mp allowed
    refine .inl ⟨d.registry.version, ?_⟩
    obtain ⟨t, -, answered⟩ | ⟨-, answered⟩ := resolveSite_cases hasSlot d found key
    · simp only [perform, answered, Option.map_some, Option.getD_some]
    · simp only [perform, answered, Option.map_some, Option.getD_some]
      exact resolved s.op key
  | sweep =>
    obtain ⟨log, swept⟩ := sweepNow_eq d
    simp only [perform, swept]
    exact .inr (.inr ⟨_, rfl⟩)
  | tell tracer event =>
    simp only [perform]
    rw [tell_eq]
    exact .inl ⟨_, rfl⟩
  | holdSite | releaseSite | addRecorder | putBooks => exact .inl ⟨_, rfl⟩

theorem Course.tuned (course : Course hasSlot (initial model config policy logging) history d) :
    d.registry.Tuned config := by
  refine course.invariant (I := fun d => d.registry.Tuned config) ⟨rfl, fun _ => rfl⟩
    fun d a h allowed => ?_
  obtain ⟨version, same⟩ | ⟨alive, site, same⟩ | ⟨alive, same⟩ :=
    @registry_perform hasSlot d a allowed
  · rw [same]
    exact ⟨h.settings, h.unswept⟩
  · rw [same]
    exact h.register alive site
  · rw [same]
    exact h.sweep alive

/-- A site is alive when it is registered, so no sweep that a registration sets off removes them all. -/
theorem handles_openSite_ne_nil (d : Dispatcher) (op : Operation) :
    (d.openSite op).2.registry.handles ≠ [] := by
  have living : (d.withSite op).isAlive d.sites.size = true := by simp [isAlive_withSite]
  obtain ⟨log, opened⟩ := openSite_eq d op
  rw [opened]
  rcases d.registry.register_cases (d.withSite op).isAlive d.sites.size with quiet | swept
  · rw [quiet]
    exact List.cons_ne_nil _ _
  · rw [swept]
    refine List.ne_nil_of_mem (a := d.sites.size) ?_
    rw [(Registry.sweeps_sweep _ _).handles]
    exact List.mem_filter.mpr ⟨List.mem_cons_self, living⟩

/-- The trigger is the initial one up to the first sweep. A sweep that leaves no handle sets it back
to that if there was no handle either before it; if it removed handles, and so all of them, it
stretches the trigger that it found. Only a sweep that is asked for can leave no handle. -/
theorem trigger_when_emptied
    (course : Course hasSlot (initial model config policy logging) history d) :
    (d.registry.sweeps = 0 → d.registry.nextCleanup = trigger config.initialCleanupThreshold) ∧
    (d.sweepNow.2.registry.handles = [] →
      (d.registry.handles = [] →
        d.sweepNow.2.registry.nextCleanup = trigger config.initialCleanupThreshold) ∧
      (d.registry.handles ≠ [] → d.registry.handles.length ≤ Word.sizeMax →
        d.sweepNow.2.registry.nextCleanup = stretched config d.registry.nextCleanup)) ∧
    ∀ op, (d.openSite op).2.registry.handles ≠ [] := by
  refine ⟨course.tuned.unswept, fun emptied => ?_, handles_openSite_ne_nil d⟩
  obtain ⟨log, swept⟩ := sweepNow_eq d
  rw [swept] at emptied ⊢
  have retuned := Registry.nextCleanup_emptied course.orderly.counted emptied
  rw [course.tuned.settings] at retuned
  refine ⟨fun nothing => ?_, fun found size => ?_⟩
  · rw [nothing] at retuned
    exact retuned
  · rw [Registry.retune_all config (List.length_pos_of_ne_nil found) size] at retuned
    exact retuned

/-- One site is dropped and swept away: the trigger is halved. The next sweep finds no handle and sets
it back. -/
theorem trigger_when_emptied_twice :
    ∃ history d, Course (fun _ _ => false) (initial .empty {} {} false) history d ∧
      d.registry.sweeps = 1 ∧ d.registry.handles = [] ∧ d.registry.nextCleanup = stretched {} 200 ∧
      stretched {} 200 = 100 ∧ d.sweepNow.2.registry.nextCleanup = 200 := by
  have dropped := ((@Course.start (fun _ _ => false) (initial .empty {} {} false)).next
    (.openSite .len) trivial).next (.releaseSite 0) (by simp only [Allows]; decide +kernel)
  have swept := dropped.next .sweep trivial
  refine ⟨_, _, swept, by decide +kernel, by decide +kernel, ?_, by decide +kernel, ?_⟩
  · exact ((trigger_when_emptied dropped).2.1 (by decide +kernel)).2 (by decide +kernel)
      (by decide +kernel)
  · exact ((trigger_when_emptied swept).2.1 (by decide +kernel)).1 (by decide +kernel)

/-- So not every sweep that leaves no handle sets the trigger back. -/
theorem trigger_not_set_back :
    ∃ history d, Course (fun _ _ => false) (initial .empty {} {} false) history d ∧
      d.sweepNow.2.registry.handles = [] ∧
      d.sweepNow.2.registry.nextCleanup ≠ trigger ({} : CacheConfig).initialCleanupThreshold :=
  ⟨_, _, ((@Course.start (fun _ _ => false) (initial .empty {} {} false)).next
    (.openSite .len) trivial).next (.releaseSite 0) (by simp only [Allows]; decide +kernel),
    by decide +kernel, by decide +kernel⟩

end Dispatcher

end DynamicObjects
