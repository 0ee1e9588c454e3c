import DynamicObjects.Proofs.Lists.Changes
import DynamicObjects.Proofs.MergeSort

/-!
Sorting a list while other code runs. The key function and the comparisons may fail, give any answer
and change the list that is being sorted. A sort goes through undisturbed calls of other code, after
each of which the list has the same count. If all calls were undisturbed, the list is a permutation of
what it was. Otherwise the sort ends with the first call that was not: during the keys the list is
left as that call left it, and during the comparisons it is put back as it was.
-/
namespace DynamicObjects

/-- A call that stops a sort: it fails by itself, or it answers and has changed the list. -/
def Interrupts {α : Type} (r : ListRef) (version : Nat) (error : Error) (x : Run α) (w : World)
    (failure : Run.Failure) (w' : World) : Prop :=
  x w = (failure.outcome, w') ∨
    (∃ a, x w = (.ok a, w')) ∧ (w'.store.list r).version ≠ version ∧ failure = .error error

/-- Calls of a key function, one for each item in order, each of them undisturbed. -/
inductive Keyed (h : Hooks) (r : ListRef) (version : Nat) (f : Value) :
    List Value → List Value → World → World → Prop
  | nil (w : World) : Keyed h r version f [] [] w w
  | cons {item key : Value} {items keys : List Value} {w₁ w₂ w₃ : World}
    (called : h.invoke f [item] w₁ = (.ok key, w₂)) (same : (w₂.store.list r).version = version)
    (rest : Keyed h r version f items keys w₂ w₃) :
    Keyed h r version f (item :: items) (key :: keys) w₁ w₃

def Compared (h : Hooks) (r : ListRef) (version : Nat) (keys : Array Value) (w w' : World) : Prop :=
  ∃ a ∈ keys, ∃ b ∈ keys, ∃ less, Protocol.lessThan h a b w = (.ok less, w') ∧
    (w'.store.list r).version = version

abbrev Comparisons (h : Hooks) (r : ListRef) (version : Nat) (keys : Array Value) :
    World → World → Prop :=
  Relation.ReflTransGen (Compared h r version keys)

def ComparisonStops (h : Hooks) (r : ListRef) (version : Nat) (keys : Array Value) (w : World)
    (failure : Run.Failure) (w' : World) : Prop :=
  ∃ a ∈ keys, ∃ b ∈ keys,
    Interrupts r version .mutatedDuringSort (Protocol.lessThan h a b) w failure w'

/-- The keys of a sort: the items themselves, or what the key function makes of them. -/
def KeysFound (h : Hooks) (r : ListRef) (version : Nat) (keyFunction : Option Value)
    (items keys : List Value) (w w' : World) : Prop :=
  match keyFunction with
  | none => keys = items ∧ w' = w
  | some f => Keyed h r version f items keys w w'

/-- The key function stops the sort, at some item. Nothing but its calls has happened then. -/
def KeysStop (h : Hooks) (r : ListRef) (version : Nat) (keyFunction : Option Value)
    (items : List Value) (w : World) (failure : Run.Failure) (w' : World) : Prop :=
  ∃ f before item after keys w₁, keyFunction = some f ∧ items = before ++ item :: after ∧
    Keyed h r version f before keys w w₁ ∧
    Interrupts r version .mutatedDeterminingKeys (h.invoke f [item]) w₁ failure w'

/-- The comparisons begin: there are keys, the list has not changed, and it is emptied now. -/
def ComparisonsBegin (h : Hooks) (r : ListRef) (keyFunction : Option Value) (o : ListObject)
    (w : World) (keys : List Value) (start : World) : Prop :=
  ∃ w₁ o₁, KeysFound h r o.version keyFunction o.buffer.toList keys w w₁ ∧
    w₁.list? r = some o₁ ∧ o₁.version = o.version ∧ o₁.buffer.items = o.buffer.items ∧
    start = w₁.putList r (o₁.holding o₁.buffer.detached)

/-- How a sort of a list that holds `o` can end. A list that is put back holds exactly what it held. -/
inductive SortEnds (h : Hooks) (r : ListRef) (keyFunction : Option Value) (o : ListObject)
    (w : World) : Outcome Unit × World → Prop
  | keysStop {failure : Run.Failure} {w' : World}
    (stops : KeysStop h r o.version keyFunction o.buffer.toList w failure w') :
    SortEnds h r keyFunction o w (failure.outcome, w')
  | sorted {keys : List Value} {start w₁ : World} {o' : ListObject}
    (begins : ComparisonsBegin h r keyFunction o w keys start)
    (undisturbed : Comparisons h r (o.version + 1) keys.toArray start w₁)
    (put : (w₁.putList r o').list? r = some o')
    (perm : o'.buffer.toList.Perm o.buffer.toList) :
    SortEnds h r keyFunction o w (.ok (), w₁.putList r o')
  | restored {keys : List Value} {start w₁ w₂ : World} {o' : ListObject} {e : Error}
    (begins : ComparisonsBegin h r keyFunction o w keys start)
    (undisturbed : Comparisons h r (o.version + 1) keys.toArray start w₁)
    (stops : ComparisonStops h r (o.version + 1) keys.toArray w₁ (.error e) w₂)
    (put : (w₂.putList r o').list? r = some o') (same : o'.buffer.items = o.buffer.items) :
    SortEnds h r keyFunction o w (.error e, w₂.putList r o')
  | endless {keys : List Value} {start w₁ w₂ : World}
    (begins : ComparisonsBegin h r keyFunction o w keys start)
    (undisturbed : Comparisons h r (o.version + 1) keys.toArray start w₁)
    (stops : ComparisonStops h r (o.version + 1) keys.toArray w₁ .outOfFuel w₂) :
    SortEnds h r keyFunction o w (.outOfFuel, w₂)

variable {h : Hooks} {r : ListRef} {version : Nat} {f : Value} {keys : Array Value} {w w' : World}

theorem Keyed.length_eq {items keyList : List Value} (keyed : Keyed h r version f items keyList w w') :
    keyList.length = items.length := by
  induction keyed with
  | nil => rfl
  | cons _ _ _ ih => simp [ih]

theorem Keyed.touches {items keyList : List Value}
    (invokes : ∀ v, Run.Within (Touches r) (h.invoke f [v]))
    (keyed : Keyed h r version f items keyList w w') : Touches r w w' := by
  induction keyed with
  | nil => exact .elsewhere rfl
  | @cons item key items keys w₁ w₂ w₃ called _ _ ih =>
    have first := invokes item w₁
    rw [called] at first
    exact first.trans ih

theorem Keyed.version_eq {items keyList : List Value} (start : (w.store.list r).version = version)
    (keyed : Keyed h r version f items keyList w w') : (w'.store.list r).version = version := by
  induction keyed with
  | nil => exact start
  | cons _ same _ ih => exact ih same

theorem keysOf_cases (h : Hooks) (r : ListRef) (version : Nat) (f : Value) (items : List Value)
    (w : World) :
    (∃ keyList w', r.keysOf h f version items w = (.ok keyList, w') ∧
      Keyed h r version f items keyList w w') ∨
    ∃ before item after keyList w₁ failure w', items = before ++ item :: after ∧
      Keyed h r version f before keyList w w₁ ∧
      Interrupts r version .mutatedDeterminingKeys (h.invoke f [item]) w₁ failure w' ∧
      r.keysOf h f version items w = (failure.outcome, w') := by
  induction items generalizing w with
  | nil => exact .inl ⟨[], w, rfl, .nil w⟩
  | cons item rest ih =>
    rw [ListRef.keysOf]
    rcases Run.outcome_cases (h.invoke f [item]) w with ⟨key, w₁, called⟩ | ⟨failure, w', called⟩
    · have read : r.version w₁ = (.ok (w₁.store.list r).version, w₁) := rfl
      rw [Run.bind_ok called, Run.bind_ok read]
      by_cases same : (w₁.store.list r).version = version
      · simp only [same, ne_eq, not_true_eq_false, if_false]
        rcases ih w₁ with ⟨keyList, w', ran, keyed⟩ |
          ⟨before, item', after, keyList, w₂, failure, w', cut, keyed, stops, ran⟩
        · exact .inl ⟨key :: keyList, w', Run.bind_ok ran, .cons called same keyed⟩
        · exact .inr ⟨item :: before, item', after, key :: keyList, w₂, failure, w', by simp [cut],
            .cons called same keyed, stops, Run.bind_failure ran⟩
      · simp only [ne_eq, same, not_false_eq_true, if_true]
        exact .inr ⟨[], item, rest, [], w, .error .mutatedDeterminingKeys, w₁, rfl, .nil w,
          .inr ⟨⟨key, called⟩, same, rfl⟩, rfl⟩
    · exact .inr ⟨[], item, rest, [], w, failure, w', rfl, .nil w, .inl called,
        Run.bind_failure called⟩

theorem Comparisons.touches (compares : ∀ a b, Run.Within (Touches r) (Protocol.lessThan h a b))
    (steps : Comparisons h r version keys w w') : Touches r w w' := by
  induction steps with
  | refl => exact .elsewhere rfl
  | @tail w₁ w₂ _ step ih =>
    obtain ⟨a, -, b, -, less, answered, -⟩ := step
    have last := compares a b w₁
    rw [answered] at last
    exact ih.trans last

theorem ComparisonStops.touches
    (compares : ∀ a b, Run.Within (Touches r) (Protocol.lessThan h a b)) {failure : Run.Failure}
    (stops : ComparisonStops h r version keys w failure w') : Touches r w w' := by
  obtain ⟨a, -, b, -, stopped⟩ := stops
  have last := compares a b w
  rcases stopped with failed | ⟨⟨less, answered⟩, -⟩
  · rwa [failed] at last
  · rwa [answered] at last

theorem Comparisons.version_eq (start : (w.store.list r).version = version)
    (steps : Comparisons h r version keys w w') : (w'.store.list r).version = version := by
  induction steps with
  | refl => exact start
  | tail _ step _ =>
    obtain ⟨a, -, b, -, less, -, same⟩ := step
    exact same

theorem guardedLess_holds {a b : Value} (ha : a ∈ keys) (hb : b ∈ keys) :
    (Run.Judgement.untilStopped (Comparisons h r version keys)
      (ComparisonStops h r version keys)).Holds (fun _ => True) (r.guardedLess h version a b) := by
  intro w
  rw [ListRef.guardedLess]
  rcases Run.outcome_cases (Protocol.lessThan h a b) w with ⟨less, w₁, ran⟩ | ⟨failure, w', ran⟩
  · have read : r.version w₁ = (.ok (w₁.store.list r).version, w₁) := rfl
    rw [Run.bind_ok ran, Run.bind_ok read]
    by_cases same : (w₁.store.list r).version = version
    · rw [if_pos same]
      exact .inl ⟨less, w₁, rfl, .single ⟨a, ha, b, hb, less, ran, same⟩, trivial⟩
    · rw [if_neg same]
      exact .inr ⟨w, .error .mutatedDuringSort, w₁, .refl,
        ⟨a, ha, b, hb, .inr ⟨⟨less, ran⟩, same, rfl⟩⟩, rfl⟩
  · exact .inr ⟨w, failure, w', .refl, ⟨a, ha, b, hb, .inl ran⟩, Run.bind_failure ran⟩

theorem sortKeys_cases (h : Hooks) (r : ListRef) (version : Nat) (keys : Array Value)
    (backwards : Bool) (w : World) :
    (∃ order w', MergeSort.sortKeys keys backwards (r.guardedLess h version) w = (.ok order, w') ∧
      Comparisons h r version keys w w' ∧ order.Perm (List.range keys.size)) ∨
    ∃ w₁ failure w', Comparisons h r version keys w w₁ ∧
      ComparisonStops h r version keys w₁ failure w' ∧
      MergeSort.sortKeys keys backwards (r.guardedLess h version) w = (failure.outcome, w') := by
  exact MergeSort.sortKeys_perm (Run.Judgement.untilStopped (Comparisons h r version keys)
    (ComparisonStops h r version keys)) backwards (fun a ha b hb => guardedLess_holds ha hb) w

theorem arrange_perm {items : Array Value} {order : List Nat}
    (perm : order.Perm (List.range items.size)) :
    (ListRef.arrange items order).toList.Perm items.toList := by
  have all : ∀ l : List Value, (List.range l.length).filterMap (fun i => l[i]?) = l := by
    intro l
    induction l with
    | nil => rfl
    | cons v rest ih =>
      simpa [List.range_succ_eq_map, List.filterMap_map, Function.comp_def] using ih
  rw [ListRef.arrange]
  refine (perm.filterMap _).trans (.of_eq ?_)
  simpa using all items.toList

theorem sortDetached_cases {o : ListObject} (live : w.list? r = some o)
    (compares : ∀ a b, Run.Within (Touches r) (Protocol.lessThan h a b)) (detached : Buffer Value)
    (keys : Array Value) (backwards : Bool) :
    (∃ order w₁ o₁, order.Perm (List.range keys.size) ∧ Comparisons h r o.version keys w w₁ ∧
      w₁.list? r = some o₁ ∧
      r.sortDetached h detached keys backwards w =
        (.ok (), w₁.putList r
          (o₁.holding (Buffer.ofArray (ListRef.arrange detached.items order))))) ∨
    (∃ w₁ e w₂ o₂, Comparisons h r o.version keys w w₁ ∧
      ComparisonStops h r o.version keys w₁ (.error e) w₂ ∧ w₂.list? r = some o₂ ∧
      r.sortDetached h detached keys backwards w =
        (.error e, w₂.putList r (o₂.holding detached))) ∨
    ∃ w₁ w₂, Comparisons h r o.version keys w w₁ ∧
      ComparisonStops h r o.version keys w₁ .outOfFuel w₂ ∧
      r.sortDetached h detached keys backwards w = (.outOfFuel, w₂) := by
  have start : (w.store.list r).version = o.version := by rw [World.list_of_list? live]
  rw [ListRef.sortDetached, Run.bind_ok (ListRef.version_apply live)]
  rcases sortKeys_cases h r o.version keys backwards w with
    ⟨order, w₁, ran, steps, perm⟩ | ⟨w₁, failure, w₂, steps, stops, ran⟩
  · have attempted : (MergeSort.sortKeys keys backwards (r.guardedLess h o.version)).attempt w =
        (.ok (.ok order), w₁) := by
      simp only [Run.attempt, ran]
    obtain ⟨o₁, live₁, -⟩ := (Comparisons.touches compares steps).counted live
    have same : o₁.version = o.version := by
      rw [← World.list_of_list? live₁]
      exact Comparisons.version_eq start steps
    refine .inl ⟨order, w₁, o₁, perm, steps, live₁, ?_⟩
    rw [Run.bind_ok attempted, Run.bind_ok (ListRef.version_apply live₁)]
    simp only [same, ne_eq, not_true_eq_false, if_false]
    exact ListRef.write_apply live₁ _
  · cases failure with
    | outOfFuel =>
      have attempted : (MergeSort.sortKeys keys backwards (r.guardedLess h o.version)).attempt w =
          (.outOfFuel, w₂) := by
        simp only [Run.attempt, ran]
        rfl
      exact .inr (.inr ⟨w₁, w₂, steps, stops, Run.bind_outOfFuel attempted⟩)
    | error e =>
      have attempted : (MergeSort.sortKeys keys backwards (r.guardedLess h o.version)).attempt w =
          (.ok (.error e), w₂) := by
        simp only [Run.attempt, ran]
        rfl
      have path := (Comparisons.touches compares steps).trans (stops.touches compares)
      obtain ⟨o₂, live₂, -⟩ := path.counted live
      refine .inr (.inl ⟨w₁, e, w₂, o₂, steps, stops, live₂, ?_⟩)
      rw [Run.bind_ok attempted, Run.bind_ok (ListRef.version_apply live₂)]
      exact Run.bind_ok (ListRef.write_apply live₂ detached)

theorem detach_apply {o : ListObject} (live : w.list? r = some o) :
    r.detach w = (.ok o.buffer, w.putList r (o.holding o.buffer.detached)) := by
  rw [ListRef.detach, Run.bind_ok (ListRef.buffer_apply live),
    Run.bind_ok (ListRef.update_apply live _)]
  rfl

theorem sort_some_apply {o : ListObject} (live : w.list? r = some o) (f : Value) (backwards : Bool) :
    r.sort h (some f) backwards w = (do
      let keys ← r.keysOf h f o.version o.buffer.toList
      if (← r.version) ≠ o.version then Run.raise .mutatedDeterminingKeys
      else
        let detached ← r.detach
        r.sortDetached h detached keys.toArray backwards : Run Unit) w := by
  simp only [ListRef.sort, ListRef.computeKeys, bind_assoc, pure_bind]
  rw [Run.bind_ok (ListRef.version_apply live), Run.bind_ok (ListRef.items_apply live)]

section

variable {keyFunction : Option Value} {o : ListObject} (live : w.list? r = some o)
  (invokes : ∀ f, keyFunction = some f → ∀ v, Run.Within (Touches r) (h.invoke f [v]))

include live invokes

theorem sort_cases (backwards : Bool) :
    (∃ failure w', r.sort h keyFunction backwards w = (failure.outcome, w') ∧
      KeysStop h r o.version keyFunction o.buffer.toList w failure w') ∨
    ∃ keyList w₁ o₁, KeysFound h r o.version keyFunction o.buffer.toList keyList w w₁ ∧
      w₁.list? r = some o₁ ∧ o₁.version = o.version ∧ o₁.buffer.items = o.buffer.items ∧
      keyList.length = o.buffer.items.size ∧
      r.sort h keyFunction backwards w = (do
        let detached ← r.detach
        r.sortDetached h detached keyList.toArray backwards : Run Unit) w₁ := by
  cases keyFunction with
  | none =>
    refine .inr ⟨o.buffer.toList, w, o, ⟨rfl, rfl⟩, live, rfl, rfl, by simp [Buffer.toList], ?_⟩
    rw [ListRef.sort, Run.bind_ok (detach_apply live), Run.bind_ok (detach_apply live)]
    simp [Buffer.toList]
  | some f =>
    have start : (w.store.list r).version = o.version := by rw [World.list_of_list? live]
    rw [sort_some_apply live]
    rcases keysOf_cases h r o.version f o.buffer.toList w with
      ⟨keyList, w₁, ran, keyed⟩ | ⟨before, item, after, keyList, w₁, failure, w', cut, keyed, stops, ran⟩
    · obtain ⟨o₁, live₁, -, unchanged⟩ := (keyed.touches (invokes f rfl)).counted live
      have same : o₁.version = o.version := by
        rw [← World.list_of_list? live₁]
        exact keyed.version_eq start
      refine .inr ⟨keyList, w₁, o₁, keyed, live₁, same, unchanged same, ?_, ?_⟩
      · simpa [Buffer.toList] using keyed.length_eq
      · rw [Run.bind_ok ran, Run.bind_ok (ListRef.version_apply live₁), same]
        exact congrFun (if_neg (not_not.mpr rfl)) w₁
    · refine .inl ⟨failure, w', Run.bind_failure ran, f, before, item, after, keyList, w₁, rfl, cut,
        keyed, stops⟩

variable (compares : ∀ a b, Run.Within (Touches r) (Protocol.lessThan h a b))

include compares

theorem sort_ends (backwards : Bool) :
    SortEnds h r keyFunction o w (r.sort h keyFunction backwards w) := by
  rcases sort_cases live invokes backwards with ⟨failure, w', ran, stops⟩ |
    ⟨keyList, w₁, o₁, found, live₁, version, items, count, ran⟩
  · rw [ran]
    exact .keysStop stops
  have begins : ComparisonsBegin h r keyFunction o w keyList
      (w₁.putList r (o₁.holding o₁.buffer.detached)) :=
    ⟨w₁, o₁, found, live₁, version, items, rfl⟩
  have emptied := World.list?_putList live₁ (o₁.holding o₁.buffer.detached)
  have counted : (o₁.holding o₁.buffer.detached).version = o.version + 1 := by
    rw [ListObject.holding, version]
  rw [Run.bind_ok (detach_apply live₁)] at ran
  rw [ran]
  rcases sortDetached_cases emptied compares o₁.buffer keyList.toArray backwards with
    ⟨order, w₂, o₂, perm, steps, live₂, ended⟩ | ⟨w₂, e, w₃, o₃, steps, stops, live₃, ended⟩ |
    ⟨w₂, w₃, steps, stops, ended⟩
  · rw [counted] at steps
    rw [ended]
    refine .sorted begins steps (World.list?_putList live₂ _) ?_
    rw [List.size_toArray, count, ← items] at perm
    refine (arrange_perm perm).trans ?_
    rw [items]
    exact .refl _
  · rw [counted] at steps stops
    rw [ended]
    exact .restored begins steps stops (World.list?_putList live₃ _) items
  · rw [counted] at steps stops
    rw [ended]
    exact .endless begins steps stops

omit live invokes in
/-- As long as nothing is counted, the list reads as empty, also in the middle of a comparison. -/
theorem items_empty {keyList : List Value} {start w₁ w₂ : World}
    (begins : ComparisonsBegin h r keyFunction o w keyList start)
    (steps : Comparisons h r (o.version + 1) keyList.toArray start w₁) (touches : Touches r w₁ w₂)
    (same : (w₂.store.list r).version = o.version + 1) :
    (w₂.store.list r).buffer.items = #[] := by
  obtain ⟨w', o', -, live', version, -, rfl⟩ := begins
  have emptied := World.list?_putList live' (o'.holding o'.buffer.detached)
  have path := (Comparisons.touches compares steps).trans touches
  obtain ⟨o₂, live₂, -, unchanged⟩ := path.counted emptied
  rw [World.list_of_list? live₂] at same ⊢
  exact unchanged (by rw [same, ListObject.holding, version])

end

def ListRef.meddle (r : ListRef) : Run Unit := do
  r.append .none
  r.set 0 (.bool true)
  r.append .none
  r.delete 0
  r.sort .silent none false
  r.clear

theorem meddle_within (r : ListRef) : Run.Within (Touches r) r.meddle := by
  refine Run.within_bind (ListRef.append_within r _) fun _ => ?_
  refine Run.within_bind (ListRef.set_within r _ _) fun _ => ?_
  refine Run.within_bind (ListRef.append_within r _) fun _ => ?_
  refine Run.within_bind (ListRef.delete_within r _) fun _ => ?_
  refine Run.within_bind (ListRef.sort_within Hooks.silent_within r _ _) fun _ => ?_
  exact ListRef.clear_within r

def Hooks.meddling (r : ListRef) : Hooks where
  fuel := 0
  hasSlot _ _ := true
  builtin _ _ _ := do
    r.meddle
    return .bool true
  invoke _ _ := do
    r.meddle
    return .bool true
  enumerate _ := Run.outOfFuel

theorem meddling_within (r : ListRef) : (Hooks.meddling r).Within (Touches r) where
  builtin _ _ _ := Run.within_bind (meddle_within r) fun _ => Run.within_pure _
  invoke _ _ := Run.within_bind (meddle_within r) fun _ => Run.within_pure _

/-- Two tuples, which only other code can compare. -/
def pairOfTuples : ListObject := ⟨257, .ofArray #[.tuple 258 [], .tuple 259 []], 0⟩

def World.withPair : World :=
  { World.blank with store := { Store.empty with lists := #[pairOfTuples] } }

end DynamicObjects
