import DynamicObjects.Proofs.Lists.Sorting

/-!
The order that a sort gives. With comparisons that answer as a strict weak order does, the sort is
stable in both directions. There is only one such order, so sorting backwards is the same as turning
the list round, sorting it and turning it round again.
-/
namespace DynamicObjects

namespace MergeSort

/-- A stable sort: every position once, keys that never fall, or never rise if backwards, and
positions of equivalent keys in their old order. -/
structure Sorts {α : Type} (keys : Array α) (backwards : Bool) (lt : α → α → Bool)
    (order : List Nat) : Prop where
  perm : order.Perm (List.range keys.size)
  ordered : order.Pairwise fun p q => ∀ a b, keys[p]? = some a → keys[q]? = some b →
    (if backwards then lt a b else lt b a) = false
  stable : order.Pairwise fun p q => ∀ a b, keys[p]? = some a → keys[q]? = some b →
    lt a b = false → lt b a = false → p < q

section Sorts

variable {α : Type} {keys : Array α} {backwards : Bool} {lt : α → α → Bool} {order : List Nat}

theorem sorts_of_before (perm : order.Perm (List.range keys.size))
    (sorted : order.Pairwise (Before (inversion keys backwards lt))) :
    Sorts keys backwards lt order where
  perm := perm
  ordered := by
    refine sorted.imp fun {p q} before a b ha hb => ?_
    have first := before.1
    simpa only [inversion, ha, hb] using first
  stable := by
    refine sorted.imp fun {p q} before a b ha hb ab ba => ?_
    rcases before.2 with inverted | less
    · cases backwards <;> simp [inversion, ha, hb, ab, ba] at inverted
    · exact less

theorem before_antisymm {inv : Nat → Nat → Bool} {p q : Nat} (first : Before inv p q)
    (second : Before inv q p) : p = q := by
  obtain ⟨pq, first⟩ := first
  obtain ⟨qp, second⟩ := second
  simp only [pq, qp, Bool.false_eq_true, false_or] at first second
  omega

theorem eq_of_before {inv : Nat → Nat → Bool} {order order' : List Nat}
    (perm : order.Perm order') (sorted : order.Pairwise (Before inv))
    (sorted' : order'.Pairwise (Before inv)) : order = order' :=
  perm.eq_of_pairwise (fun _ _ _ _ first second => before_antisymm first second) sorted sorted'

def mirrored (n : Nat) (order : List Nat) : List Nat := (order.map (n - 1 - ·)).reverse

theorem inversion_reverse {p q : Nat} (hp : p < keys.size) (hq : q < keys.size) :
    inversion keys.reverse false lt p q =
      inversion keys true lt (keys.size - 1 - q) (keys.size - 1 - p) := by
  rw [inversion_eq (by simpa using hp) (by simpa using hq), inversion_eq (by omega) (by omega)]
  simp

theorem mirrored_perm {n : Nat} (perm : order.Perm (List.range n)) :
    (mirrored n order).Perm (List.range n) := by
  have turned : (List.range n).map (n - 1 - ·) = (List.range n).reverse := by
    apply List.ext_getElem
    · simp
    · intro i _ _
      simp
  calc (mirrored n order).Perm (order.map (n - 1 - ·)) := List.reverse_perm _
    _ |>.Perm ((List.range n).map (n - 1 - ·)) := perm.map _
    _ = (List.range n).reverse := turned
    _ |>.Perm (List.range n) := List.reverse_perm _

theorem mirrored_before (perm : order.Perm (List.range keys.size))
    (sorted : order.Pairwise (Before (inversion keys.reverse false lt))) :
    (mirrored keys.size order).Pairwise (Before (inversion keys true lt)) := by
  rw [mirrored, List.pairwise_reverse, List.pairwise_map]
  refine sorted.imp_of_mem fun {p q} memP memQ before => ?_
  have hp : p < keys.size := List.mem_range.mp (perm.mem_iff.mp memP)
  have hq : q < keys.size := List.mem_range.mp (perm.mem_iff.mp memQ)
  obtain ⟨pq, order⟩ := before
  rw [inversion_reverse hp hq] at pq
  rw [inversion_reverse hq hp] at order
  refine ⟨pq, ?_⟩
  rcases order with qp | less
  · exact .inl qp
  · exact .inr (by omega)

end Sorts

end MergeSort

theorem arrange_mirrored {items : Array Value} {order : List Nat}
    (perm : order.Perm (List.range items.size)) :
    ListRef.arrange items (MergeSort.mirrored items.size order) =
      (ListRef.arrange items.reverse order).reverse := by
  have turned : order.filterMap (fun i => items[items.size - 1 - i]?) =
      order.filterMap fun i => items.reverse[i]? := by
    refine List.filterMap_congr fun i mem => ?_
    have bound : i < items.size := List.mem_range.mp (perm.mem_iff.mp mem)
    rw [Array.getElem?_reverse bound]
  simp only [ListRef.arrange, MergeSort.mirrored, List.filterMap_reverse, List.filterMap_map]
  rw [← List.reverse_toArray]
  exact congrArg (fun l => (List.toArray l).reverse) turned

theorem sortKeys_yields {α : Type} {keys : Array α} {less : α → α → Run Bool}
    {lt : α → α → Bool} {I : World → Prop} (weak : MergeSort.StrictWeak keys lt)
    (answers : ∀ a ∈ keys, ∀ b ∈ keys, Run.Answers I (less a b) (lt a b)) (backwards : Bool) :
    Run.Yields I (fun order => order.Perm (List.range keys.size) ∧
        order.Pairwise (MergeSort.Before (MergeSort.inversion keys backwards lt)))
      (MergeSort.sortKeys keys backwards less) := by
  have holds := MergeSort.sortKeys_holds (Run.Judgement.yields I) (fun _ : True => weak) backwards
    fun a ha b hb w quiet => by
      obtain ⟨w', ran, quiet'⟩ := answers a ha b hb w quiet
      exact ⟨lt a b, w', ran, quiet', fun _ => rfl⟩
  intro w quiet
  obtain ⟨order, w', ran, quiet', perm, sorted⟩ := holds w quiet
  exact ⟨order, w', ran, quiet', perm, sorted trivial⟩

/-- The key function and the comparisons only give answers, for these items, in calm states and
whatever the lists hold. -/
structure CalmSort (h : Hooks) (keyFunction : Option Value) (calm : World → Prop)
    (key : Value → Value) (lt : Value → Value → Bool) (items : Array Value) : Prop where
  keys : ∀ v ∈ items, match keyFunction with
    | none => key v = v
    | some f => ∀ lists, Run.Answers (fun w => calm w ∧ w.store.lists = lists) (h.invoke f [v]) (key v)
  less : ∀ a ∈ items.map key, ∀ b ∈ items.map key, ∀ lists,
    Run.Answers (fun w => calm w ∧ w.store.lists = lists) (Protocol.lessThan h a b) (lt a b)
  store : ∀ {w}, calm w → ∀ lists, calm { w with store := { w.store with lists } }

section Calm

variable {h : Hooks} {r : ListRef} {keyFunction : Option Value} {calm : World → Prop}
  {key : Value → Value} {lt : Value → Value → Bool} {w : World} {o : ListObject}
  {lists : Array ListObject}

theorem version_answers (there : lists[r.number]? = some o) :
    Run.Answers (fun w => calm w ∧ w.store.lists = lists) r.version o.version := by
  intro w quiet
  have live : w.list? r = some o := by rw [World.list?, quiet.2, there]
  exact ⟨w, ListRef.version_apply live, quiet⟩

theorem keysOf_answers {f : Value} (there : lists[r.number]? = some o) (items : List Value)
    (answers : ∀ v ∈ items, Run.Answers (fun w => calm w ∧ w.store.lists = lists)
      (h.invoke f [v]) (key v)) :
    Run.Answers (fun w => calm w ∧ w.store.lists = lists) (r.keysOf h f o.version items)
      (items.map key) := by
  induction items with
  | nil => exact Run.answers_pure
  | cons item rest ih =>
    refine Run.answers_bind (answers item List.mem_cons_self) ?_
    refine Run.answers_bind (version_answers there) ?_
    simp only [ne_eq, not_true_eq_false, if_false]
    have others := ih fun v mem => answers v (List.mem_cons_of_mem _ mem)
    exact Run.answers_bind others Run.answers_pure

theorem guardedLess_answers {a b : Value} (there : lists[r.number]? = some o)
    (answers : Run.Answers (fun w => calm w ∧ w.store.lists = lists) (Protocol.lessThan h a b)
      (lt a b)) :
    Run.Answers (fun w => calm w ∧ w.store.lists = lists) (r.guardedLess h o.version a b)
      (lt a b) := by
  refine Run.answers_bind answers (Run.answers_bind (version_answers there) ?_)
  rw [if_pos rfl]
  exact Run.answers_pure

theorem sortDetached_calm {keys : Array Value} (quiet : calm w) (live : w.list? r = some o)
    (weak : MergeSort.StrictWeak keys lt)
    (answers : ∀ a ∈ keys, ∀ b ∈ keys, ∀ lists,
      Run.Answers (fun w => calm w ∧ w.store.lists = lists) (Protocol.lessThan h a b) (lt a b))
    (detached : Buffer Value) (backwards : Bool) :
    ∃ order w₁, calm w₁ ∧ w₁.list? r = some o ∧ order.Perm (List.range keys.size) ∧
      order.Pairwise (MergeSort.Before (MergeSort.inversion keys backwards lt)) ∧
      r.sortDetached h detached keys backwards w =
        (.ok (), w₁.putList r
          (o.holding (Buffer.ofArray (ListRef.arrange detached.items order)))) := by
  obtain ⟨order, w₁, ran, ⟨quiet₁, same⟩, perm, sorted⟩ :=
    sortKeys_yields weak (fun a ha b hb => guardedLess_answers live (answers a ha b hb w.store.lists))
      backwards w ⟨quiet, rfl⟩
  have live₁ : w₁.list? r = some o := (World.list?_of_lists_eq same).trans live
  have attempted : (MergeSort.sortKeys keys backwards (r.guardedLess h o.version)).attempt w =
      (.ok (.ok order), w₁) := by
    simp only [Run.attempt, ran]
  refine ⟨order, w₁, quiet₁, live₁, perm, sorted, ?_⟩
  rw [ListRef.sortDetached, Run.bind_ok (ListRef.version_apply live), Run.bind_ok attempted,
    Run.bind_ok (ListRef.version_apply live₁)]
  simp only [ne_eq, not_true_eq_false, if_false]
  exact ListRef.write_apply live₁ _

def EndsSorted (r : ListRef) (calm : World → Prop) (backwards : Bool) (key : Value → Value)
    (lt : Value → Value → Bool) (items : Array Value) (ended : Outcome Unit × World) : Prop :=
  ∃ order w' o', ended = (.ok (), w') ∧ calm w' ∧ w'.list? r = some o' ∧
    o'.buffer.items = ListRef.arrange items order ∧ order.Perm (List.range items.size) ∧
    order.Pairwise (MergeSort.Before (MergeSort.inversion (items.map key) backwards lt))

theorem sort_calm (quiet : calm w) (live : w.list? r = some o)
    (peace : CalmSort h keyFunction calm key lt o.buffer.items)
    (weak : MergeSort.StrictWeak (o.buffer.items.map key) lt) (backwards : Bool) :
    EndsSorted r calm backwards key lt o.buffer.items (r.sort h keyFunction backwards w) := by
  -- once the keys are there, both kinds of sorts go on alike
  have rest : ∀ w₁, calm w₁ → w₁.store.lists = w.store.lists →
      EndsSorted r calm backwards key lt o.buffer.items ((do
        let detached ← r.detach
        r.sortDetached h detached (o.buffer.items.map key) backwards : Run Unit) w₁) := by
    intro w₁ quiet₁ same
    have live₁ : w₁.list? r = some o := (World.list?_of_lists_eq same).trans live
    have emptied := World.list?_putList live₁ (o.holding o.buffer.detached)
    have quiet₂ : calm (w₁.putList r (o.holding o.buffer.detached)) := peace.store quiet₁ _
    obtain ⟨order, w₂, quiet₃, live₂, perm, sorted, ran⟩ :=
      sortDetached_calm quiet₂ emptied weak peace.less o.buffer backwards
    rw [Array.size_map] at perm
    let o' := (o.holding o.buffer.detached).holding
      (Buffer.ofArray (ListRef.arrange o.buffer.items order))
    refine ⟨order, w₂.putList r o', o', ?_, peace.store quiet₃ _, World.list?_putList live₂ o', rfl,
      perm, sorted⟩
    rw [Run.bind_ok (detach_apply live₁), ran]
  cases keyFunction with
  | none =>
    have same : o.buffer.items.map key = o.buffer.items := by
      refine (Array.map_congr_left peace.keys).trans ?_
      simp
    have ended := rest w quiet rfl
    rw [Run.bind_ok (detach_apply live), same] at ended
    rw [ListRef.sort, Run.bind_ok (detach_apply live)]
    exact ended
  | some f =>
    have keyed : Run.Answers (fun w₁ => calm w₁ ∧ w₁.store.lists = w.store.lists)
        (r.keysOf h f o.version o.buffer.toList) (o.buffer.toList.map key) :=
      keysOf_answers live _ fun v mem => peace.keys v (Array.mem_toList_iff.mp mem) _
    obtain ⟨w₁, ran, quiet₁, same⟩ := keyed w ⟨quiet, rfl⟩
    have live₁ : w₁.list? r = some o := (World.list?_of_lists_eq same).trans live
    have arrays : (o.buffer.toList.map key).toArray = o.buffer.items.map key := by
      rw [Buffer.toList, ← Array.toList_map, Array.toArray_toList]
    rw [sort_some_apply live, Run.bind_ok ran, Run.bind_ok (ListRef.version_apply live₁), arrays]
    simp only [ne_eq, not_true_eq_false, if_false]
    exact rest w₁ quiet₁ same

theorem CalmSort.reverse {items : Array Value} (peace : CalmSort h keyFunction calm key lt items) :
    CalmSort h keyFunction calm key lt items.reverse where
  keys v mem := peace.keys v (by simpa using mem)
  less a ha b hb := peace.less a (by simpa using ha) b (by simpa using hb)
  store := peace.store

theorem strictWeak_reverse {keys : Array Value} (weak : MergeSort.StrictWeak keys lt) :
    MergeSort.StrictWeak keys.reverse lt where
  irrefl := by simpa using weak.irrefl
  trans := by simpa using weak.trans
  tie_trans := by simpa using weak.tie_trans

def sortTurned (h : Hooks) (r : ListRef) (keyFunction : Option Value) : Run Unit := do
  r.reverse
  r.sort h keyFunction false
  r.reverse

theorem sortTurned_calm (quiet : calm w) (live : w.list? r = some o)
    (peace : CalmSort h keyFunction calm key lt o.buffer.items)
    (weak : MergeSort.StrictWeak (o.buffer.items.map key) lt) :
    EndsSorted r calm true key lt o.buffer.items (sortTurned h r keyFunction w) := by
  have turned := World.list?_putList live (o.holding o.buffer.reverse)
  have quiet₁ : calm (w.putList r (o.holding o.buffer.reverse)) := peace.store quiet _
  have weak₁ : MergeSort.StrictWeak (o.buffer.items.reverse.map key) lt := by
    rw [Array.map_reverse]
    exact strictWeak_reverse weak
  obtain ⟨order, w₂, o₂, ran, quiet₂, live₂, items, perm, sorted⟩ :=
    sort_calm quiet₁ turned peace.reverse weak₁ false
  have perm' : order.Perm (List.range o.buffer.items.size) := by
    simpa [ListObject.holding, Buffer.reverse] using perm
  have sorted' : order.Pairwise (MergeSort.Before
      (MergeSort.inversion (o.buffer.items.map key).reverse false lt)) := by
    rw [← Array.map_reverse]
    exact sorted
  refine ⟨MergeSort.mirrored o.buffer.items.size order,
    w₂.putList r (o₂.holding o₂.buffer.reverse), o₂.holding o₂.buffer.reverse, ?_,
    peace.store quiet₂ _, World.list?_putList live₂ _, ?_, MergeSort.mirrored_perm perm', ?_⟩
  · rw [sortTurned, ListRef.reverse, Run.bind_ok (ListRef.update_apply live _), Run.bind_ok ran,
      ListRef.update_apply live₂]
  · rw [arrange_mirrored perm']
    exact congrArg Array.reverse items
  · rw [← Array.size_map] at perm'
    have mirrored := MergeSort.mirrored_before perm' sorted'
    rwa [Array.size_map] at mirrored

theorem EndsSorted.items_eq {backwards : Bool} {items : Array Value}
    {ended ended' : Outcome Unit × World} (first : EndsSorted r calm backwards key lt items ended)
    (second : EndsSorted r calm backwards key lt items ended') :
    ∃ w₁ w₂ o₁ o₂, ended = (.ok (), w₁) ∧ ended' = (.ok (), w₂) ∧ w₁.list? r = some o₁ ∧
      w₂.list? r = some o₂ ∧ o₁.buffer.items = o₂.buffer.items := by
  obtain ⟨order₁, w₁, o₁, ran₁, -, live₁, items₁, perm₁, sorted₁⟩ := first
  obtain ⟨order₂, w₂, o₂, ran₂, -, live₂, items₂, perm₂, sorted₂⟩ := second
  have same := MergeSort.eq_of_before (perm₁.trans perm₂.symm) sorted₁ sorted₂
  exact ⟨w₁, w₂, o₁, o₂, ran₁, ran₂, live₁, live₂, by rw [items₁, items₂, same]⟩

end Calm

def Value.intLess (a b : Value) : Bool :=
  decide ((a.asInt?.getD 0).toInt < (b.asInt?.getD 0).toInt)

theorem strictWeak_intLess (keys : Array Value) : MergeSort.StrictWeak keys Value.intLess where
  irrefl := by simp [Value.intLess]
  trans := by
    intro a _ b _ c _ ab bc
    simp only [Value.intLess, decide_eq_true_eq] at *
    omega
  tie_trans := by
    intro a _ b _ c _ ab ba bc cb
    simp only [Value.intLess, decide_eq_false_iff_not] at *
    omega

def mixedNumbers : ListObject := ⟨257, .ofArray #[.int 1, .bool true, .int 0], 0⟩

def World.withNumbers : World :=
  { World.blank with store := { Store.empty with lists := #[mixedNumbers] } }

theorem calmSort_numbers :
    CalmSort .silent none (fun _ => True) id Value.intLess mixedNumbers.buffer.items where
  keys _ _ := rfl
  less := by
    simp only [mixedNumbers, Buffer.ofArray, Array.map_id, List.mem_toArray, List.mem_cons,
      List.not_mem_nil, or_false]
    rintro a (rfl | rfl | rfl) b (rfl | rfl | rfl) lists w quiet <;> exact ⟨w, rfl, quiet⟩
  store _ _ := trivial

end DynamicObjects
