import DynamicObjects.Proofs.Dispatch.Freshness
import DynamicObjects.Proofs.Dispatch.Bookkeeping

/-!
Call sites agree with the cache. A site keeps a prepared call of its own and hears of invalidations
only through the registry. Since the registry loses no live site, a call at hand that is not marked is
the one in the cache, and a marked one is behind the world. What a site tells about itself, its mark
and how often it was resolved anew, is read off the history.
-/
namespace DynamicObjects

namespace Dispatcher

variable {hasSlot : Kind → Operation → Bool} {d d' : Dispatcher} {history : List Moment}
  {made : Nat} {op op' : Operation} {key key' : TypeKey} {t : Thunk}

/-! ## What the history says about a site -/

def Moment.site? (m : Moment) : Option Nat :=
  match m.action with
  | .openSite _ => some m.before.sites.size
  | .resolveSite site _ => some site
  | _ => none

/-- How many invalidations there were since the site was made or resolved for the last time. -/
def invalidationsSince (hasSlot : Kind → Operation → Bool) (i : Nat) : List Moment → Nat
  | [] => 0
  | m :: earlier =>
    if m.site? = some i then 0
    else invalidationsSince hasSlot i earlier +
      (if (m.after hasSlot).version = m.before.version then 0 else 1)

def atHand? (d : Dispatcher) (i : Nat) : Option (TypeKey × Thunk) := (d.sites[i]?).bind Site.entry

/-- A resolution of the site by which another call takes the place of the one at hand. -/
def Moment.Replaces (hasSlot : Kind → Operation → Bool) (i : Nat) (m : Moment) : Prop :=
  (∃ key, m.action = .resolveSite i key) ∧
    ∃ e, m.before.atHand? i = some e ∧ (m.after hasSlot).atHand? i ≠ some e

open Classical in
/-- How many resolutions of a site replaced the call that it had at hand. -/
noncomputable def replacements (hasSlot : Kind → Operation → Bool) (i : Nat) : List Moment → Nat
  | [] => 0
  | m :: earlier => replacements hasSlot i earlier + (if m.Replaces hasSlot i then 1 else 0)

theorem Moment.Replaces.site? {m : Moment} {i : Nat} (replaces : m.Replaces hasSlot i) :
    m.site? = some i := by
  obtain ⟨⟨key, resolving⟩, -⟩ := replaces
  simp [Moment.site?, resolving]

theorem Moment.Replaces.known {m : Moment} {i : Nat} (replaces : m.Replaces hasSlot i) :
    i < m.before.sites.size := by
  obtain ⟨-, e, held, -⟩ := replaces
  obtain ⟨s, found, -⟩ := Option.bind_eq_some_iff.mp held
  exact (Array.getElem?_eq_some_iff.mp found).1

/-! ## What is current stays current -/

theorem version_resolve (hasSlot : Kind → Operation → Bool) (d : Dispatcher) (op : Operation)
    (key : TypeKey) : (d.resolve hasSlot op key).1.version = d.version := by
  obtain ⟨t, log, recorders, current, resolved⟩ | ⟨-, log, recorders, lookups, resolved⟩ :=
    resolve_cases hasSlot d op key
  · rw [resolved]
    exact (current?_eq_some_iff.mp current).2
  · rw [resolved]
    rfl

theorem current?_resolve_self (hasSlot : Kind → Operation → Bool) (d : Dispatcher) (op : Operation)
    (key : TypeKey) :
    (d.resolve hasSlot op key).2.current? op key = some (d.resolve hasSlot op key).1 := by
  obtain ⟨t, log, recorders, current, resolved⟩ | ⟨-, log, recorders, lookups, resolved⟩ :=
    resolve_cases hasSlot d op key
  · rw [resolved]
    exact current
  · rw [resolved, current?_eq_some_iff]
    exact ⟨by simp [ entry?, lookup_setEntry], rfl⟩

theorem resolve_of_current (current : d.current? op key = some t) :
    (d.resolve hasSlot op key).1 = t := by
  obtain ⟨t', log, recorders, current', resolved⟩ | ⟨absent, -⟩ := resolve_cases hasSlot d op key
  · rw [resolved]
    exact Option.some.inj (current'.symm.trans current)
  · cases absent.symm.trans current

theorem current?_resolve (current : d.current? op' key' = some t) :
    (d.resolve hasSlot op key).2.current? op' key' = some t := by
  obtain ⟨t', log, recorders, -, resolved⟩ | ⟨absent, log, recorders, lookups, resolved⟩ :=
    resolve_cases hasSlot d op key
  · rw [resolved]
    exact current
  · rw [resolved]
    obtain ⟨found, same⟩ := current?_eq_some_iff.mp current
    refine current?_eq_some_iff.mpr ⟨?_, same⟩
    simp only [ entry?, lookup_setEntry]
    split
    next asked =>
      obtain ⟨rfl, rfl⟩ := Prod.mk.inj asked
      cases absent.symm.trans current
    next => exact found

/-! ## The invariant -/

/-- What a site has at hand and what it tells: an unmarked call is the one in the cache, a marked one
is behind, the mark says whether the world has moved on, and replacements are counted. -/
structure Sound (hasSlot : Kind → Operation → Bool) (d : Dispatcher) (history : List Moment)
    (i : Nat) (s : Site) : Prop where
  current : s.stale = false → ∀ key t, s.entry = some (key, t) → d.current? s.op key = some t
  behind : s.stale = true → ∀ key t, s.entry = some (key, t) → t.version < d.version
  stale_iff : s.stale = true ↔ 0 < invalidationsSince hasSlot i history
  recomputes_eq : s.recomputes = replacements hasSlot i history

theorem siteCurrent?_eq_some_iff {s : Site} :
    d.siteCurrent? s key = some t ↔
      s.stale = false ∧ s.entry = some (key, t) ∧ t.version = d.version := by
  unfold siteCurrent?
  cases s.entry with
  | none => simp
  | some e =>
    obtain ⟨cachedKey, thunk⟩ := e
    simp only [Option.ite_none_right_eq_some, Bool.and_eq_true, Bool.not_eq_true', beq_iff_eq,
      Option.some.injEq, Prod.mk.injEq]
    constructor
    · rintro ⟨⟨⟨fresh, rfl⟩, version⟩, rfl⟩
      exact ⟨fresh, ⟨rfl, rfl⟩, version⟩
    · rintro ⟨fresh, ⟨rfl, rfl⟩, version⟩
      exact ⟨⟨⟨fresh, rfl⟩, version⟩, rfl⟩

/-- Every site that is held is sound, and nothing was ever replaced at a site that is still to come. -/
structure Watchful (hasSlot : Kind → Operation → Bool) (history : List Moment) (d : Dispatcher) :
    Prop where
  sound : ∀ (i : Nat) s, d.sites[i]? = some s → 0 < s.holders → Sound hasSlot d history i s
  unborn : ∀ i, d.sites.size ≤ i → replacements hasSlot i history = 0

theorem watchful_initial (model : ClassModel) (config : CacheConfig) (policy : DispatchPolicy)
    (logging : Bool) : (initial model config policy logging).Watchful hasSlot [] where
  sound := by
    intro i s found
    simp [initial, make] at found
  unborn _ _ := rfl

/-- What is current stays current, and apart from the site that is made or resolved, the sites that
are held were held before and keep everything but the number of their holders. -/
structure Quiet (touched : Option Nat) (d d' : Dispatcher) : Prop where
  version : d'.version = d.version
  size : d.sites.size ≤ d'.sites.size
  current : ∀ op key t, d.current? op key = some t → d'.current? op key = some t
  others : ∀ (i : Nat) s', touched ≠ some i → d'.sites[i]? = some s' → 0 < s'.holders →
    ∃ holders, d.sites[i]? = some { s' with holders } ∧ 0 < holders

theorem invalidationsSince_cons_of_eq {m : Moment} {i : Nat} (other : m.site? ≠ some i)
    (same : (m.after hasSlot).version = m.before.version) :
    invalidationsSince hasSlot i (m :: history) = invalidationsSince hasSlot i history := by
  rw [invalidationsSince, if_neg other, if_pos same, Nat.add_zero]

theorem invalidationsSince_cons_of_ne {m : Moment} {i : Nat} (other : m.site? ≠ some i)
    (moved : (m.after hasSlot).version ≠ m.before.version) :
    invalidationsSince hasSlot i (m :: history) = invalidationsSince hasSlot i history + 1 := by
  rw [invalidationsSince, if_neg other, if_neg moved]

theorem replacements_cons_of_ne {m : Moment} {i : Nat} (other : m.site? ≠ some i) :
    replacements hasSlot i (m :: history) = replacements hasSlot i history := by
  rw [replacements, if_neg fun replaces => other replaces.site?, Nat.add_zero]

theorem Watchful.unborn_cons (h : d.Watchful hasSlot history) (a : DispatchAction)
    (size : d.sites.size ≤ d'.sites.size) (i : Nat) (new : d'.sites.size ≤ i) :
    replacements hasSlot i (⟨d, a⟩ :: history) = 0 := by
  have new' : d.sites.size ≤ i := Nat.le_trans size new
  rw [replacements, h.unborn i new', if_neg fun replaces => Nat.not_lt.mpr new' replaces.known]

/-- Without an invalidation, only the site that is made or resolved has to be looked at. -/
theorem Watchful.quiet (h : d.Watchful hasSlot history) {a : DispatchAction}
    (quiet : Quiet (Moment.site? ⟨d, a⟩) d (d.perform hasSlot a))
    (touched : ∀ (i : Nat) s, Moment.site? ⟨d, a⟩ = some i →
      (d.perform hasSlot a).sites[i]? = some s → 0 < s.holders →
        Sound hasSlot (d.perform hasSlot a) (⟨d, a⟩ :: history) i s) :
    (d.perform hasSlot a).Watchful hasSlot (⟨d, a⟩ :: history) := by
  refine ⟨fun i s' found held => ?_, h.unborn_cons a quiet.size⟩
  by_cases same : Moment.site? ⟨d, a⟩ = some i
  · exact touched i s' same found held
  · obtain ⟨holders, found', held'⟩ := quiet.others i s' same found held
    have sound := h.sound i _ found' held'
    refine ⟨?_, ?_, ?_, ?_⟩
    · exact fun fresh key t entry => quiet.current _ _ _ (sound.current fresh key t entry)
    · rw [quiet.version]
      exact sound.behind
    · rw [invalidationsSince_cons_of_eq same quiet.version]
      exact sound.stale_iff
    · rw [replacements_cons_of_ne same]
      exact sound.recomputes_eq

/-- An invalidation reaches every site that is held, since all of them have handles. -/
theorem Watchful.bump (h : d.Watchful hasSlot history) (orderly : d.Orderly made)
    {a : DispatchAction} {d₁ : Dispatcher} {reason : String}
    (performed : d.perform hasSlot a = d₁.bump reason) (other : Moment.site? ⟨d, a⟩ = none)
    (sites : d₁.sites = d.sites) (registry : d₁.registry = d.registry) :
    (d.perform hasSlot a).Watchful hasSlot (⟨d, a⟩ :: history) := by
  obtain ⟨log, recorders, marked, bumped, all⟩ := bump_eq d₁ reason
  rw [sites, registry] at all
  have moved : (d.perform hasSlot a).version = d.version + 1 := by
    rw [performed, bumped, version, version, ← registry]
    rfl
  have after : (d.perform hasSlot a).sites = marked := by rw [performed, bumped]
  refine ⟨fun i s' found held => ?_, h.unborn_cons a ?_⟩
  · rw [after, all i] at found
    obtain ⟨s, found', rfl⟩ := Option.map_eq_some_iff.mp found
    have held' : 0 < s.holders := held
    have sound := h.sound i s found' held'
    have listed := orderly.listed i (isAlive_iff.mpr ⟨s, found', held'⟩)
    have stale : (aged (d.registry.handles.contains i) s).stale = true := by
      simp [aged, held', listed]
    refine ⟨?_, ?_, ?_, ?_⟩
    · intro fresh
      rw [stale] at fresh
      cases fresh
    · intro _ key t entry
      rw [moved]
      cases before : s.stale with
      | true => exact Nat.lt_succ_of_lt (sound.behind before key t entry)
      | false =>
        have current := sound.current before key t entry
        exact Nat.lt_succ_of_le (Nat.le_of_eq (current?_eq_some_iff.mp current).2)
    · rw [stale, invalidationsSince_cons_of_ne (by simp [other])
        (Nat.ne_of_gt (moved ▸ Nat.lt_succ_self _))]
      simp
    · rw [replacements_cons_of_ne (by simp [other])]
      exact sound.recomputes_eq
  · exact Nat.le_of_eq (after ▸ (size_eq_of_map all).symm)

theorem quiet_refl (touched : Option Nat) (d : Dispatcher) : Quiet touched d d where
  version := rfl
  size := Nat.le_refl _
  current _ _ _ := id
  others _ s' _ found held := ⟨s'.holders, found, held⟩

/-- Where the version, the entries and the sites are as before, nothing can be noticed. -/
theorem quiet_of_eq (touched : Option Nat) (version : d'.version = d.version)
    (entries : d'.entries = d.entries) (sites : d'.sites = d.sites) : Quiet touched d d' where
  version := version
  size := Nat.le_of_eq (congrArg Array.size sites.symm)
  current op key t current := by
    rw [current?_eq_some_iff] at current ⊢
    rwa [ entry?, entries, version]
  others i s' _ found held := ⟨s'.holders, sites ▸ found, held⟩

theorem sites_resolve (hasSlot : Kind → Operation → Bool) (d : Dispatcher) (op : Operation)
    (key : TypeKey) : (d.resolve hasSlot op key).2.sites = d.sites := by
  obtain ⟨t, log, recorders, -, resolved⟩ | ⟨-, log, recorders, lookups, resolved⟩ :=
    resolve_cases hasSlot d op key
  all_goals rw [resolved]

theorem quiet_resolve (touched : Option Nat) (d : Dispatcher) (op : Operation) (key : TypeKey) :
    Quiet touched d (d.resolve hasSlot op key).2 where
  version := by
    obtain ⟨t, log, recorders, -, resolved⟩ | ⟨-, log, recorders, lookups, resolved⟩ :=
      resolve_cases hasSlot d op key
    all_goals
      rw [resolved]
      rfl
  size := Nat.le_of_eq (congrArg Array.size (sites_resolve hasSlot d op key).symm)
  current _ _ _ := current?_resolve
  others i s' _ found held := ⟨s'.holders, sites_resolve hasSlot d op key ▸ found, held⟩

theorem Quiet.modifySite {i : Nat} (quiet : Quiet (some i) d d') (f : Site → Site) :
    Quiet (some i) d (d'.modifySite i f) where
  version := quiet.version
  size := by simpa [Dispatcher.modifySite] using quiet.size
  current := quiet.current
  others j s' other found held := by
    have different : ¬ i = j := fun same => other (congrArg some same)
    rw [sites_modifySite] at found
    simp only [different, if_false, Option.map_id'] at found
    exact quiet.others j s' other found held

theorem quiet_holders (i : Nat) (held : d.isAlive i) (f : Nat → Nat) :
    Quiet none d (d.modifySite i fun s => { s with holders := f s.holders }) where
  version := rfl
  size := by simp [Dispatcher.modifySite]
  current _ _ _ := id
  others j s' _ found held' := by
    rw [sites_modifySite] at found
    obtain ⟨s, found', rfl⟩ := Option.map_eq_some_iff.mp found
    by_cases same : i = j
    · subst same
      obtain ⟨s₁, found₁, held₁⟩ := isAlive_iff.mp held
      obtain rfl := Option.some.inj (found₁.symm.trans found')
      exact ⟨s₁.holders, by simpa using found', held₁⟩
    · simp only [same, if_false] at held' ⊢
      exact ⟨s.holders, found', held'⟩

theorem Watchful.openSite (h : d.Watchful hasSlot history) (op : Operation) :
    (d.openSite op).2.Watchful hasSlot (⟨d, .openSite op⟩ :: history) := by
  obtain ⟨log, opened⟩ := openSite_eq d op
  have sites : (d.openSite op).2.sites = d.sites.push ⟨op, none, false, 0, 1⟩ := by rw [opened]; rfl
  refine h.quiet ⟨?_, ?_, ?_, ?_⟩ ?_
  · show (d.openSite op).2.version = d.version
    rw [opened]
    exact version_register _ _ _
  · show d.sites.size ≤ (d.openSite op).2.sites.size
    simp [sites]
  · intro op' key t current
    show (d.openSite op).2.current? op' key = some t
    rw [current?_eq_some_iff] at current ⊢
    rw [opened]
    exact ⟨current.1, current.2.trans (version_register _ _ _).symm⟩
  · intro i s' other found held
    have found : (d.openSite op).2.sites[i]? = some s' := found
    have old : ¬ i = d.sites.size := fun same => other (congrArg some same.symm)
    rw [sites, Array.getElem?_push, if_neg old] at found
    exact ⟨s'.holders, found, held⟩
  · intro i s' new found held
    have found : (d.openSite op).2.sites[i]? = some s' := found
    obtain rfl : d.sites.size = i := Option.some.inj new
    rw [sites, Array.getElem?_push, if_pos rfl] at found
    obtain rfl := Option.some.inj found
    refine ⟨?_, ?_, ?_, ?_⟩
    · intro _ key t entry
      cases entry
    · intro stale
      cases stale
    · simp [invalidationsSince, Moment.site?]
    · have size : d.sites.size ≤ d.sites.size := Nat.le_refl _
      exact (h.unborn_cons _ size _ size).symm

/-- A call that is not at hand any more differs from what the site gets instead: it was prepared for
another key, or under an earlier version. -/
theorem Watchful.replaced (h : d.Watchful hasSlot history) {i : Nat} {s : Site}
    (found : d.sites[i]? = some s) (held : 0 < s.holders) (absent : d.siteCurrent? s key = none) :
    s.entry ≠ some (key, (d.resolve hasSlot s.op key).1) := by
  intro entry
  have version := version_resolve hasSlot d s.op key
  cases stale : s.stale with
  | true =>
    exact Nat.lt_irrefl _ (version ▸ (h.sound i s found held).behind stale _ _ entry)
  | false => cases absent.symm.trans (siteCurrent?_eq_some_iff.mpr ⟨stale, entry, version⟩)

theorem Watchful.keep (h : d.Watchful hasSlot history) {i : Nat} {s : Site} {t : Thunk}
    (found : d.sites[i]? = some s) (held : 0 < s.holders) (current : d.siteCurrent? s key = some t)
    (performed : d.perform hasSlot (.resolveSite i key) = d) :
    (d.perform hasSlot (.resolveSite i key)).Watchful hasSlot
      (⟨d, .resolveSite i key⟩ :: history) := by
  have sound := h.sound i s found held
  refine h.quiet (performed.symm ▸ quiet_refl _ d) ?_
  intro j s' same found' _
  obtain rfl : i = j := Option.some.inj same
  rw [performed] at found' ⊢
  obtain rfl := Option.some.inj (found'.symm.trans found)
  have fresh : s'.stale = false := (siteCurrent?_eq_some_iff.mp current).1
  refine ⟨sound.current, sound.behind, ?_, ?_⟩
  · simp [fresh, invalidationsSince, Moment.site?]
  · rw [replacements, if_neg]
    · exact sound.recomputes_eq
    · rintro ⟨-, e, before, after⟩
      exact after (by rw [Moment.after, performed]; exact before)

/-- A resolution that does not find the call at hand replaces the one that is there, if any. -/
theorem Watchful.replaces_iff (h : d.Watchful hasSlot history) {i : Nat} {s : Site}
    (found : d.sites[i]? = some s) (held : 0 < s.holders) (absent : d.siteCurrent? s key = none)
    (installed : (d.perform hasSlot (.resolveSite i key)).sites[i]? =
      some (s.install key (d.resolve hasSlot s.op key).1)) :
    Moment.Replaces hasSlot i ⟨d, .resolveSite i key⟩ ↔ s.entry.isSome := by
  constructor
  · rintro ⟨-, e, before, -⟩
    simp only [atHand?, found, Option.bind_some] at before
    simp [before]
  · intro some
    obtain ⟨e, entry⟩ := Option.isSome_iff_exists.mp some
    refine ⟨⟨key, rfl⟩, e, by simp [atHand?, found, entry], ?_⟩
    rw [Moment.after, atHand?, installed]
    intro same
    exact h.replaced found held absent (entry.trans same.symm)

/-- A site that does not have the call at hand gets it from the cache. -/
theorem Watchful.install (h : d.Watchful hasSlot history) {i : Nat} {s : Site}
    (found : d.sites[i]? = some s) (held : 0 < s.holders) (absent : d.siteCurrent? s key = none)
    (performed : d.perform hasSlot (.resolveSite i key) =
      (d.resolve hasSlot s.op key).2.modifySite i
        (Site.install key (d.resolve hasSlot s.op key).1)) :
    (d.perform hasSlot (.resolveSite i key)).Watchful hasSlot
      (⟨d, .resolveSite i key⟩ :: history) := by
  have installed : (d.perform hasSlot (.resolveSite i key)).sites[i]? =
      some (s.install key (d.resolve hasSlot s.op key).1) := by
    rw [performed, sites_modifySite, sites_resolve, found]
    simp
  refine h.quiet (performed ▸ (quiet_resolve _ d s.op key).modifySite _) ?_
  intro j s' same found' _
  obtain rfl : i = j := Option.some.inj same
  obtain rfl := Option.some.inj (installed.symm.trans found')
  refine ⟨?_, ?_, ?_, ?_⟩
  · intro _ key' t' entry
    obtain ⟨rfl, rfl⟩ := Prod.mk.inj (Option.some.inj entry)
    rw [performed]
    exact current?_resolve_self hasSlot d s.op key
  · intro stale
    cases stale
  · simp [Site.install, invalidationsSince, Moment.site?]
  · rw [replacements, ← (h.sound i s found held).recomputes_eq]
    simp only [h.replaces_iff found held absent installed]
    rfl

theorem Watchful.resolveSite (h : d.Watchful hasSlot history) {i : Nat} (alive : d.isAlive i)
    (key : TypeKey) :
    (d.perform hasSlot (.resolveSite i key)).Watchful hasSlot
      (⟨d, .resolveSite i key⟩ :: history) := by
  obtain ⟨s, found, held⟩ := isAlive_iff.mp alive
  obtain ⟨t, current, resolved⟩ | ⟨absent, resolved⟩ := resolveSite_cases hasSlot d found key
  · exact h.keep found held current (by simp [Dispatcher.perform, resolved])
  · exact h.install found held absent (by simp [Dispatcher.perform, resolved])

theorem Watchful.change (h : d.Watchful hasSlot history) (orderly : d.Orderly made)
    (c : WorldChange) :
    (d.change c).Watchful hasSlot (⟨d, .change c⟩ :: history) := by
  obtain ⟨policy, tracer, log, ⟨changed, -, -⟩ | ⟨reason, changed⟩⟩ := change_cases d c
  · refine h.quiet ?_ fun i s touched => nomatch touched
    simp only [Dispatcher.perform, changed]
    exact quiet_of_eq _ rfl rfl rfl
  · exact h.bump orderly changed rfl rfl rfl

theorem Watchful.redefine (h : d.Watchful hasSlot history) (orderly : d.Orderly made)
    {model : ClassModel} {c : WorldChange} (allowed : d.Allows (.redefine model c)) :
    ({ d with model }.change c).Watchful hasSlot (⟨d, .redefine model c⟩ :: history) := by
  obtain ⟨policy, tracer, log, ⟨changed, -, -⟩ | ⟨reason, changed⟩⟩ :=
    change_cases { d with model } c
  · exact absurd (congrArg version changed) allowed
  · exact h.bump orderly changed rfl rfl rfl

theorem Watchful.perform (h : d.Watchful hasSlot history) (orderly : d.Orderly made)
    {a : DispatchAction} (allowed : d.Allows a) :
    (d.perform hasSlot a).Watchful hasSlot (⟨d, a⟩ :: history) := by
  -- The operations below that make or resolve no site have no site to look at.
  have untouched (site? : Moment.site? ⟨d, a⟩ = none)
      (quiet : Quiet none d (d.perform hasSlot a)) :
      (d.perform hasSlot a).Watchful hasSlot (⟨d, a⟩ :: history) :=
    h.quiet (site?.symm ▸ quiet) fun i s touched => nomatch site?.symm.trans touched
  cases a with
  | resolve op key => exact untouched rfl (quiet_resolve none d op key)
  | change c => exact h.change orderly c
  | redefine model c => exact h.redefine orderly allowed
  | openSite op => exact h.openSite op
  | resolveSite site key => exact h.resolveSite allowed key
  | holdSite site => exact untouched rfl (quiet_holders site allowed (· + 1))
  | releaseSite site => exact untouched rfl (quiet_holders site allowed (· - 1))
  | sweep =>
    refine untouched rfl ?_
    obtain ⟨log, swept⟩ := sweepNow_eq d
    simp only [Dispatcher.perform, swept]
    exact quiet_of_eq none rfl rfl rfl
  | tell tracer event =>
    refine untouched rfl ?_
    simp only [Dispatcher.perform]
    rw [tell_eq]
    exact quiet_of_eq none rfl rfl rfl
  | addRecorder => exact untouched rfl (quiet_of_eq none rfl rfl rfl)
  | putBooks log recorders lookups => exact untouched rfl (quiet_of_eq none rfl rfl rfl)

variable {model : ClassModel} {config : CacheConfig} {policy : DispatchPolicy} {logging : Bool}

theorem Course.watchful (course : Course hasSlot (initial model config policy logging) history d) :
    d.Watchful hasSlot history := by
  induction course with
  | start => exact watchful_initial model config policy logging
  | next course a allowed ih => exact ih.perform course.orderly allowed

/-- Whatever the dispatch layer has been through, a site that is alive gives the very call that the
cache would give; if its own is of the present version and for the key, it gives that one, and nothing
changes at all; it is marked if and only if the world has moved on since it was made or resolved; and
it has counted the resolutions by which its call was replaced. -/
theorem site_agrees (course : Course hasSlot (initial model config policy logging) history d)
    {i : Nat} {s : Site} (found : d.sites[i]? = some s) (alive : d.isAlive i) :
    (∀ key, ∃ d', d.resolveSite hasSlot i key = some ((d.resolve hasSlot s.op key).1, d')) ∧
    (∀ key t, s.entry = some (key, t) → t.version = d.version →
      d.resolveSite hasSlot i key = some (t, d)) ∧
    (s.stale = true ↔ 0 < invalidationsSince hasSlot i history) ∧
    s.recomputes = replacements hasSlot i history := by
  obtain ⟨s', found', held⟩ := isAlive_iff.mp alive
  obtain rfl := Option.some.inj (found'.symm.trans found)
  have sound := course.watchful.sound i s' found held
  refine ⟨fun key => ?_, fun key t entry version => ?_, sound.stale_iff, sound.recomputes_eq⟩
  · obtain ⟨t, current, resolved⟩ | ⟨-, resolved⟩ := resolveSite_cases hasSlot d found key
    · obtain ⟨fresh, entry, -⟩ := siteCurrent?_eq_some_iff.mp current
      refine ⟨d, ?_⟩
      rw [resolved, resolve_of_current (sound.current fresh key t entry)]
    · exact ⟨_, resolved⟩
  · cases stale : s'.stale with
    | true => exact absurd version (Nat.ne_of_lt (sound.behind stale key t entry))
    | false =>
      have current := siteCurrent?_eq_some_iff.mpr ⟨stale, entry, version⟩
      simp [Dispatcher.resolveSite, found, current]

/-- A site is resolved for one class, the world moves on and the cache is filled without the site; then
the site is resolved for that class again and for another one, and the world moves on once more. -/
theorem site_agrees_polymorphic :
    ∃ history d s, Course Kind.hasSlot (initial .empty {} {} false) history d ∧
      d.sites[0]? = some s ∧ d.isAlive 0 ∧ s.stale = true ∧ s.recomputes = 2 ∧
      0 < invalidationsSince Kind.hasSlot 0 history ∧ replacements Kind.hasSlot 0 history = 2 ∧
      ∃ d', d.resolveSite Kind.hasSlot 0 (.userClass 1) =
        some ((d.resolve Kind.hasSlot s.op (.userClass 1)).1, d') := by
  have course := (((((((@Course.start Kind.hasSlot (initial .empty {} {} false)).next
    (.openSite .len) trivial).next
    (.resolveSite 0 (.userClass 0)) (by simp only [Allows]; decide +kernel)).next
    (.change .invalidateAll) trivial).next
    (.resolve .len (.userClass 0)) trivial).next
    (.resolveSite 0 (.userClass 0)) (by simp only [Allows]; decide +kernel)).next
    (.resolveSite 0 (.userClass 1)) (by simp only [Allows]; decide +kernel)).next
    (.change (.setTracing true)) trivial
  generalize last : perform Kind.hasSlot _ (.change (.setTracing true)) = d at course
  have alive : d.isAlive 0 := by
    subst last
    decide +kernel
  have told : (d.sites[0]?).map (fun s => (s.stale, s.recomputes)) = some (true, 2) := by
    subst last
    decide +kernel
  obtain ⟨s, found, told⟩ := Option.map_eq_some_iff.mp told
  obtain ⟨stale, recomputes⟩ := Prod.mk.inj told
  obtain ⟨agrees, -, stale_iff, counted⟩ := site_agrees course found alive
  exact ⟨_, d, s, course, found, alive, stale, recomputes, stale_iff.mp stale,
    counted.symm.trans recomputes, agrees (.userClass 1)⟩

end Dispatcher

end DynamicObjects
