import DynamicObjects.Dicts.Views
import DynamicObjects.Proofs.Termination.Walks

/-!
Hashable data within the limits on recursion. Tuples use a level of nested data when they are hashed
or compared, tuples and sets a call when they are compared; a dictionary and its views use one more of
each. Where so many are left nothing fails, and where they are not, a limit on recursion is the only
error that there can be.
-/
namespace DynamicObjects

open Script (hooks)
open Run

/-- Hashable data of built-in kinds in which tuples and sets nest at most so many levels deep. -/
inductive Store.Shallow (s : Store) : Nat → Value → Prop
  | leaf {levels : Nat} {v : Value} (coded : (s.code? v).isSome = true)
    (simple : v.kind ≠ .tuple ∧ v.kind ≠ .frozenSet) : s.Shallow levels v
  | tuple {levels : Nat} {id : Identity} {items : List Value}
    (inside : ∀ x ∈ items, s.Shallow levels x) : s.Shallow (levels + 1) (.tuple id items)
  | frozenSet {levels : Nat} {id : Identity} {t : SetTable}
    (inside : ∀ x ∈ t.keys, s.Shallow levels x) : s.Shallow (levels + 1) (.frozenSet id t)

/-- So many levels of nested data are left, and one call more. -/
def World.Room (levels : Nat) (w : World) : Prop :=
  w.dataDepth + levels ≤ dataDepthLimit ∧ ∀ limit, w.limit = some limit → w.depth + levels < limit

variable {s : Store} {bound : Identity} {P : Value → Prop} {levels n : Nat} {a b v : Value}

namespace Store.Shallow

theorem mono (shallow : s.Shallow levels v) {levels' : Nat} (le : levels ≤ levels') :
    s.Shallow levels' v := by
  induction shallow generalizing levels' with
  | leaf coded simple => exact .leaf coded simple
  | tuple _ ih =>
    obtain ⟨more, rfl⟩ : ∃ more, levels' = more + 1 := ⟨levels' - 1, by omega⟩
    exact .tuple fun x mem => ih x mem (Nat.le_of_succ_le_succ le)
  | frozenSet _ ih =>
    obtain ⟨more, rfl⟩ : ∃ more, levels' = more + 1 := ⟨levels' - 1, by omega⟩
    exact .frozenSet fun x mem => ih x mem (Nat.le_of_succ_le_succ le)

theorem codes?_isSome {values : List Value} :
    (s.codes? values).isSome = true ↔ ∀ x ∈ values, (s.code? x).isSome = true := by
  induction values with
  | nil => simp [Store.codes?]
  | cons x rest ih =>
    rw [List.forall_mem_cons, ← ih, Store.codes?]
    cases s.code? x <;> simp

theorem coded (shallow : s.Shallow levels v) : (s.code? v).isSome = true := by
  induction shallow with
  | leaf coded _ => exact coded
  | tuple _ ih =>
    rw [Store.code?, Option.isSome_map]
    exact codes?_isSome.mpr ih
  | frozenSet => rfl

theorem common {values : List Value} (each : ∀ x ∈ values, ∃ levels, s.Shallow levels x) :
    ∃ levels, ∀ x ∈ values, s.Shallow levels x := by
  induction values with
  | nil => exact ⟨0, nofun⟩
  | cons x rest ih =>
    obtain ⟨own, first⟩ := each x List.mem_cons_self
    obtain ⟨levels, others⟩ := ih fun y mem => each y (List.mem_cons_of_mem _ mem)
    refine ⟨max own levels, List.forall_mem_cons.mpr ⟨first.mono (Nat.le_max_left _ _), ?_⟩⟩
    exact fun y mem => (others y mem).mono (Nat.le_max_right _ _)

end Store.Shallow

/-- Hashable data holds no references, so that it is nested only so deep. -/
theorem Plain.exists_shallow (plain : Plain s bound P) (mem : P v)
    (coded : (s.code? v).isSome = true) : ∃ levels, s.Shallow levels v := by
  induction size : sizeOf v using Nat.strongRecOn generalizing v with
  | ind _ ih =>
    subst size
    cases v
    case tuple id items =>
      rw [Store.code?, Option.isSome_map] at coded
      have each := Store.Shallow.codes?_isSome.mp coded
      obtain ⟨levels, inside⟩ := Store.Shallow.common fun x (listed : x ∈ items) => by
        have := List.sizeOf_lt_of_mem listed
        exact ih _ (by simp only [Value.tuple.sizeOf_spec]; omega) (plain.parts _ mem x listed)
          (each x listed) rfl
      exact ⟨levels + 1, .tuple inside⟩
    case frozenSet id t =>
      have each : ∀ x ∈ t.keys, (s.code? x).isSome = true := by
        refine Table.forall_mem_keys.mpr fun e listed => ?_
        rw [(plain.set id t mem).coded e listed]
        rfl
      obtain ⟨levels, inside⟩ := Store.Shallow.common fun x (listed : x ∈ t.keys) =>
        ih _ (sizeOf_key_lt listed id) (plain.parts _ mem x listed) (each x listed) rfl
      exact ⟨levels + 1, .frozenSet inside⟩
    all_goals exact ⟨0, .leaf coded ⟨nofun, nofun⟩⟩

/-- The heap is that of `s`, and if there is ample room, it is known how much is used: so many levels of
nested data, and at most so many calls of the `top` that there may be. -/
structure Situated (s : Store) (bound : Identity) (ample : Prop) (top used depth : Nat) (w : World) :
    Prop where
  calm : Calm s bound w
  levels : ample →
    w.dataDepth = used ∧ w.depth ≤ depth ∧ ∀ limit, w.limit = some limit → top ≤ limit

/-- A limit on recursion is met, and there was not ample room. -/
abbrev Spent (ample : Prop) (e : Error) : Prop := e = .recursionLimit ∧ ¬ ample

variable {ample : Prop} {top used depth : Nat}

theorem steady_situated (s : Store) (bound : Identity) (ample : Prop) (top used : Nat) :
    Steady (Situated s bound ample top used) where
  honest i := i.calm.honest
  dispatched i honest policy :=
    ⟨⟨i.calm.store, i.calm.bound, honest⟩, by simpa only [World.limit, policy] using i.levels⟩
  identified i later :=
    ⟨⟨by rw [i.calm.store], Nat.le_trans i.calm.bound later, i.calm.honest⟩, i.levels⟩
  entered i :=
    ⟨⟨i.calm.store, i.calm.bound, i.calm.honest⟩, fun room =>
      ⟨(i.levels room).1, Nat.succ_le_succ (i.levels room).2.1, (i.levels room).2.2⟩⟩
  left i i' :=
    ⟨⟨i'.calm.store, i'.calm.bound, i'.calm.honest⟩, fun room =>
      ⟨(i'.levels room).1, (i.levels room).2.1, (i'.levels room).2.2⟩⟩

theorem situated_nested {α : Type} {Q : α → Prop} {x : Run α} (left : ample → used < dataDepthLimit)
    (inner : Finishes (Situated s bound ample top (used + 1) depth) Q (Spent ample) x) :
    Finishes (Situated s bound ample top used depth) Q (Spent ample) (nested x) := by
  refine finishes_nested (fun w i none => ⟨rfl, fun room => ?_⟩) inner (fun w i _ => ?_) fun w i => ?_
  · obtain ⟨rfl, -⟩ := i.levels room
    exact absurd none (Nat.not_le.mpr (left room))
  · refine ⟨⟨i.calm.store, i.calm.bound, i.calm.honest⟩, fun room => ?_⟩
    exact ⟨congrArg (· + 1) (i.levels room).1, (i.levels room).2⟩
  · refine ⟨⟨i.calm.store, i.calm.bound, i.calm.honest⟩, fun room => ?_⟩
    exact ⟨congrArg (· - 1) (i.levels room).1, (i.levels room).2⟩

/-- So many levels and calls are not used up yet. -/
def Spare (ample : Prop) (top used depth levels : Nat) : Prop :=
  ample → used + levels ≤ dataDepthLimit ∧ depth + levels ≤ top

theorem Spare.of_le (spare : Spare ample top used depth levels) {depth' : Nat} (le : depth' ≤ depth) :
    Spare ample top used depth' levels := by
  intro room
  have := spare room
  omega

theorem Spare.fewer (spare : Spare ample top used depth (levels + 1)) :
    Spare ample top used depth levels := by
  intro room
  have := spare room
  omega

theorem Spare.called (spare : Spare ample top used depth (levels + 1)) :
    Spare ample top used (depth + 1) levels := by
  intro room
  have := spare room
  omega

theorem Spare.inner (spare : Spare ample top used depth (levels + 1)) {deeper : Nat}
    (le : deeper ≤ depth + 1) : Spare ample top (used + 1) deeper levels := by
  intro room
  have := spare room
  omega

theorem Spare.within (spare : Spare ample top used depth levels) (room : ample) :
    used + levels ≤ dataDepthLimit :=
  (spare room).1

theorem Spare.level (spare : Spare ample top used depth (levels + 1)) (room : ample) :
    used < dataDepthLimit := by
  have := spare.within room
  omega

theorem Spare.refusal (spare : Spare ample top used (depth + 1) levels) (w : World) (limit : Nat)
    (i : Situated s bound ample top used depth w) (found : w.limit = some limit)
    (reached : limit ≤ w.depth) : Spent ample .recursionLimit := by
  refine ⟨rfl, fun room => ?_⟩
  obtain ⟨-, calls, most⟩ := i.levels room
  have := most limit found
  have := (spare room).2
  omega

/-- Hashable values that equality does not decide at once are two tuples or two sets. -/
theorem nested_of_undecided (ha : (s.code? a).isSome = true) (hb : (s.code? b).isSome = true)
    (undecided : s.intrinsicEq? a b = none) :
    (∃ id xs id' ys, a = .tuple id xs ∧ b = .tuple id' ys) ∨
      ∃ id t id' t', a = .frozenSet id t ∧ b = .frozenSet id' t' := by
  cases a
  case list | dict | byteArray | dictKeys | dictItems | slice | object => cases ha
  case tuple id xs =>
    cases b
    case tuple id' ys => exact .inl ⟨id, xs, id', ys, rfl, rfl⟩
    case object => cases hb
    all_goals cases undecided
  case frozenSet id t =>
    cases b
    case frozenSet id' t' => exact .inr ⟨id, t, id', t', rfl, rfl⟩
    case object | dictKeys | dictItems => cases hb
    all_goals cases undecided
  all_goals
    cases b
    case object => cases hb
    all_goals cases undecided

namespace Store.Shallow

theorem hash_finishes (shallow : s.Shallow levels v)
    (left : ample → used + levels ≤ dataDepthLimit) :
    Finishes (Situated s bound ample top used depth) (fun _ => True) (Spent ample)
      (Protocol.hash (hooks n) v) := by
  have steady (used : Nat) := steady_situated s bound ample top used
  induction shallow generalizing used with
  | @leaf levels v coded simple =>
    cases v
    case tuple => exact absurd rfl simple.1
    case native | dictValues =>
      unfold Protocol.hash
      exact (steady used).slotHash_finishes depth rfl rfl
    case list | dict | byteArray | dictKeys | dictItems | slice | object => cases coded
    all_goals
      unfold Protocol.hash
      exact finishes_pure trivial
  | @tuple levels id items _ ih =>
    unfold Protocol.hash
    refine situated_nested (fun room => Nat.lt_of_lt_of_le (by omega) (left room)) ?_
    refine finishes_bind (P := fun _ => True) (hashAll_finishes fun x mem => ih x mem fun room => ?_)
      fun _ _ => finishes_pure trivial
    have := left room
    omega
  | frozenSet =>
    unfold Protocol.hash
    exact finishes_pure trivial

theorem tuple_inside {id : Identity} {items : List Value}
    (shallow : s.Shallow levels (.tuple id items)) :
    ∃ below, levels = below + 1 ∧ ∀ x ∈ items, s.Shallow below x := by
  cases shallow with
  | leaf _ simple => exact absurd rfl simple.1
  | tuple inside => exact ⟨_, rfl, inside⟩

theorem set_inside {id : Identity} {t : SetTable} (shallow : s.Shallow levels (.frozenSet id t)) :
    ∃ below, levels = below + 1 ∧ ∀ x ∈ t.keys, s.Shallow below x := by
  cases shallow with
  | leaf _ simple => exact absurd rfl simple.2
  | frozenSet inside => exact ⟨_, rfl, inside⟩

theorem equals_finishes (ha : s.Shallow levels a) (hb : s.Shallow levels b) (enough : levels ≤ n)
    (spare : Spare ample top used depth levels) :
    Finishes (Situated s bound ample top used depth) (fun _ => True) (Spent ample)
      (Protocol.equals (hooks n) a b) := by
  induction levels using Nat.strongRecOn generalizing a b n used depth with
  | ind levels ih =>
    unfold Protocol.equals
    split
    · exact finishes_pure trivial
    refine finishes_bind (finishes_readStore (P := fun o => o = s.intrinsicEq? a b)
      fun w i => by rw [i.calm.store]; rfl) ?_
    rintro o rfl
    have steady := steady_situated s bound ample top used
    cases undecided : s.intrinsicEq? a b with
    | some answer => exact finishes_pure trivial
    | none =>
      obtain ⟨id, xs, id', ys, rfl, rfl⟩ | ⟨id, t, id', t', rfl, rfl⟩ :=
        nested_of_undecided ha.coded hb.coded undecided
      · obtain ⟨below, rfl, left⟩ := ha.tuple_inside
        obtain ⟨_, ⟨⟩, right⟩ := hb.tuple_inside
        obtain ⟨n, rfl⟩ : ∃ m, n = m + 1 := ⟨n - 1, by omega⟩
        refine steady.compareBool_finishes (Tuple.compareSlot .eq) rfl (fun deeper le _ => ?_)
          spare.called.refusal rfl
        refine finishes_bool (situated_nested spare.level ?_)
        refine compareElements_finishes .eq (fun x mem y mem' => ?_) fun no => absurd rfl no
        exact ih below (Nat.lt_succ_self _) (left x mem) (right y mem')
          (Nat.le_of_succ_le_succ enough) (spare.inner le)
      · obtain ⟨below, rfl, left⟩ := ha.set_inside
        obtain ⟨_, ⟨⟩, right⟩ := hb.set_inside
        obtain ⟨n, rfl⟩ : ∃ m, n = m + 1 := ⟨n - 1, by omega⟩
        refine steady.compareBool_finishes (SetTable.compareSlot .eq) rfl
          (fun deeper le _ => ?_) spare.called.refusal rfl
        have inner {x y : Value} (hx : s.Shallow below x) (hy : s.Shallow below y) :=
          ih below (Nat.lt_succ_self _) hx hy (Nat.le_of_succ_le_succ enough) (spare.called.of_le le)
        exact finishes_bool (setCompare_finishes .eq fun x mem y mem' =>
          ⟨inner (left x mem) (right y mem'), inner (right y mem') (left x mem)⟩)

end Store.Shallow

/-- All that a dictionary holds is hashable and nested at most so deep. -/
def Store.ShallowDict (s : Store) (levels : Nat) (r : DictRef) : Prop :=
  ∀ x ∈ s.parts (.dict r), s.Shallow levels x

def SetTable.snapshotContains (h : Hooks) (v element : Value) : Run Bool := do
  match ← SetTable.snapshot? h v with
  | some t => Protocol.contains h (← Run.newFrozenSet t) element
  | none => return false

inductive SetView (r : DictRef) : Value → Prop
  | keys : SetView r (.dictKeys r)
  | items : SetView r (.dictItems r)

variable {r : DictRef}

theorem Store.ShallowDict.key (shallow : s.ShallowDict levels r) {k : Value}
    (mem : k ∈ (s.dict r).table.keys) : s.Shallow levels k :=
  shallow k (List.mem_append_left _ mem)

theorem Store.ShallowDict.value (shallow : s.ShallowDict levels r) {x : Value}
    (mem : x ∈ (s.dict r).table.values) : s.Shallow levels x :=
  shallow x (List.mem_append_right _ mem)

theorem Situated.calm₀ {w : World} (i : Situated s bound ample top used depth w) : Calm s 0 w :=
  i.calm.mono (Nat.zero_le _)

theorem Store.Shallow.ofValues_finishes {values : List Value}
    (shallow : ∀ x ∈ values, s.Shallow levels x) (enough : levels ≤ n)
    (spare : Spare ample top used depth levels) :
    Finishes (Situated s bound ample top used depth) (fun t => ∀ key ∈ t.keys, s.Shallow levels key)
      (Spent ample) (SetTable.ofValues (hooks n) values) :=
  insertAll_finishes (fun _ own => own.hash_finishes spare.within)
    (fun _ _ own other => own.equals_finishes other enough spare) values shallow nofun

theorem SetTable.contains_finishes {t : SetTable} (shallow : ∀ key ∈ t.keys, s.Shallow levels key)
    (element : s.Shallow levels v) (enough : levels ≤ n) (id : Identity)
    (spare : Spare ample top used (depth + 1) levels) :
    Finishes (Situated s bound ample top used depth) (fun _ => True) (Spent ample)
      (Protocol.contains (hooks (n + 1)) (.frozenSet id t) v) := by
  have steady := steady_situated s bound ample top used
  refine steady.contains_finishes SetTable.containsSlot rfl (fun deeper le _ => ?_)
    spare.refusal rfl
  have spare := spare.of_le le
  refine finishes_bool (finishes_bind (element.hash_finishes spare.within)
    fun hash _ => ?_)
  exact containsHashed_finishes hash fun key mem =>
    (shallow key mem).equals_finishes element enough spare

namespace SetView

variable (view : SetView r v) (shallow : s.ShallowDict levels r)

include view

theorem receiveSet_eq (h : Hooks) :
    DictView.receiveSet h v = DictView.elements v >>= SetTable.ofValues h := by
  cases view <;> rfl

theorem snapshot?_eq (h : Hooks) :
    SetTable.snapshot? h v = do return some (← DictView.receiveSet h v) := by
  cases view with
  | keys => exact (bind_assoc r.keys _ _).symm
  | items => exact (bind_assoc r.itemTuples _ _).symm

include shallow

theorem elements_finishes :
    Finishes (Situated s bound ample top used depth) (fun xs => ∀ x ∈ xs, s.Shallow (levels + 1) x)
      (Spent ample) (DictView.elements v) := by
  cases view with
  | keys =>
    refine (keys_finishes Situated.calm₀ r).imp ?_
    rintro _ rfl x mem
    exact (shallow.key mem).mono (Nat.le_succ _)
  | items =>
    have steady := steady_situated s bound ample top used
    refine (steady.itemTuples_finishes depth Situated.calm₀ r).imp fun xs retags x mem => ?_
    obtain ⟨item, listed, retagged⟩ := exists_of_retagged retags mem
    obtain ⟨p, among, rfl⟩ := List.mem_map.mp listed
    obtain ⟨key, value⟩ := mem_of_pair among
    have pair (id : Identity) : s.Shallow (levels + 1) (.tuple id [p.1, p.2]) :=
      .tuple (by simpa using ⟨shallow.key key, shallow.value value⟩)
    rcases retagged with rfl | ⟨id, id', items, same, rfl⟩
    · exact pair 0
    · obtain ⟨-, rfl⟩ := Value.tuple.inj same
      exact pair id'

variable (enough : levels + 1 ≤ n) (spare : Spare ample top used depth (levels + 1))

include enough

include spare in
theorem receiveSet_finishes :
    Finishes (Situated s bound ample top used depth)
      (fun t => ∀ key ∈ t.keys, s.Shallow (levels + 1) key) (Spent ample)
      (DictView.receiveSet (hooks n) v) := by
  rw [view.receiveSet_eq]
  exact finishes_bind (view.elements_finishes shallow) fun xs inside =>
    Store.Shallow.ofValues_finishes inside enough spare

include spare in
theorem snapshot?_finishes :
    Finishes (Situated s bound ample top used depth)
      (fun o => ∃ t, o = some t ∧ ∀ key ∈ t.keys, s.Shallow (levels + 1) key) (Spent ample)
      (SetTable.snapshot? (hooks n) v) := by
  rw [view.snapshot?_eq]
  exact finishes_map ((view.receiveSet_finishes shallow enough spare).imp fun t keys =>
    ⟨t, rfl, keys⟩)

theorem compareBool_finishes (op : CompareOp) {v' : Value} {r' : DictRef} (view' : SetView r' v')
    (shallow' : s.ShallowDict levels r') (spare : Spare ample top used (depth + 1) (levels + 1)) :
    Finishes (Situated s bound ample top used depth) (fun _ => True) (Spent ample)
      (Protocol.compareBool (hooks (n + 1)) op v v') := by
  have compared (deeper : Nat) (le : deeper ≤ depth + 1) :
      Finishes (Situated s bound ample top used deeper) (fun v => ∃ x, v = .bool x) (Spent ample)
        (compareSets (hooks n) op (DictView.receiveSet (hooks n) v) v') := by
    have spare := spare.of_le le
    refine finishes_bind (view'.snapshot?_finishes shallow' enough spare) ?_
    rintro _ ⟨theirs, rfl, right⟩
    refine finishes_bind (view.receiveSet_finishes shallow enough spare) fun mine left => ?_
    exact finishes_bool (setCompare_finishes op fun x mem y mem' =>
      ⟨(left x mem).equals_finishes (right y mem') enough spare,
        (right y mem').equals_finishes (left x mem) enough spare⟩)
  have steady := steady_situated s bound ample top used
  cases view with
  | keys =>
    exact steady.compareBool_finishes (DictView.compareSlot op) rfl
      (fun deeper le _ => compared deeper le) spare.refusal rfl
  | items =>
    exact steady.compareBool_finishes (DictView.compareSlot op) rfl
      (fun deeper le _ => compared deeper le) spare.refusal rfl

theorem snapshotContains_finishes {x : Value} (element : s.Shallow (levels + 1) x)
    (spare : Spare ample top used (depth + 1) (levels + 1)) :
    Finishes (Situated s bound ample top used depth) (fun _ => True) (Spent ample)
      (SetTable.snapshotContains (hooks (n + 1)) v x) := by
  have steady := steady_situated s bound ample top used
  refine finishes_bind (view.snapshot?_finishes shallow (Nat.le_succ_of_le enough)
    (spare.of_le (Nat.le_succ _))) ?_
  rintro _ ⟨t, rfl, keys⟩
  refine finishes_bind (steady.newFrozenSet_finishes depth t) ?_
  rintro _ ⟨id, rfl⟩
  exact SetTable.contains_finishes keys element enough id spare

end SetView

namespace Store.ShallowDict

variable (shallow : s.ShallowDict levels r) (enough : levels ≤ n)

include shallow enough

theorem get?_finishes {k : Value} (key : s.Shallow levels k)
    (spare : Spare ample top used depth levels) :
    Finishes (Situated s bound ample top used depth)
      (fun found => ∀ x, found = some x → s.Shallow levels x) (Spent ample)
      (r.get? (hooks n) k) := by
  refine Finishes.imp (DynamicObjects.get?_finishes (r := r) Situated.calm₀ ?_ fun k' mem => ?_)
    fun o inside x given => shallow.value (inside x given)
  · exact key.hash_finishes spare.within
  · exact (shallow.key mem).equals_finishes key enough spare

theorem contains_finishes {k : Value} (key : s.Shallow levels k)
    (spare : Spare ample top used (depth + 1) levels) :
    Finishes (Situated s bound ample top used depth) (fun _ => True) (Spent ample)
      (Protocol.contains (hooks (n + 1)) (.dict r) k) := by
  have steady := steady_situated s bound ample top used
  refine steady.contains_finishes DictRef.containsSlot rfl (fun deeper le _ => ?_)
    spare.refusal rfl
  have spare := spare.of_le le
  refine finishes_bool (finishes_bind (key.hash_finishes spare.within) fun hash _ => ?_)
  refine finishes_map (lookup_finishes (r := r) Situated.calm₀ hash fun k' mem => ?_).any
  exact (shallow.key mem).equals_finishes key enough spare

theorem containsItem_finishes {k x : Value} (key : s.Shallow levels k) (value : s.Shallow levels x)
    (id : Identity) (spare : Spare ample top used (depth + 1) levels) :
    Finishes (Situated s bound ample top used depth) (fun _ => True) (Spent ample)
      (Protocol.contains (hooks (n + 1)) (.dictItems r) (.tuple id [k, x])) := by
  have steady := steady_situated s bound ample top used
  refine steady.contains_finishes DictView.containsSlot rfl (fun deeper le _ => ?_)
    spare.refusal rfl
  have spare := spare.of_le le
  refine finishes_bool (finishes_bind (shallow.get?_finishes enough key spare) fun found inside => ?_)
  cases found with
  | none => exact finishes_pure trivial
  | some current =>
    dsimp only
    split
    · exact finishes_pure trivial
    · exact (inside current rfl).equals_finishes value enough spare

theorem compareBool_finishes {other : DictRef} (shallow' : s.ShallowDict levels other)
    (spare : Spare ample top used (depth + 1) (levels + 1)) :
    Finishes (Situated s bound ample top used depth) (fun _ => True) (Spent ample)
      (Protocol.compareBool (hooks (n + 1)) .eq (.dict r) (.dict other)) := by
  have steady := steady_situated s bound ample top used
  refine steady.compareBool_finishes (DictRef.compareSlot .eq) rfl (fun deeper le _ => ?_)
    spare.refusal rfl
  refine finishes_bool (dictEquals_finishes Situated.calm₀ (situated_nested spare.level ?_))
  have spare := spare.inner (Nat.le_succ_of_le le)
  refine agrees_finishes Situated.calm₀ (fun e listed => ?_) (fun e listed k mem => ?_)
    fun e listed x mem => ?_
  · exact (shallow.key (mem_of_pair listed).1).hash_finishes spare.within
  · exact (shallow'.key mem).equals_finishes (shallow.key (mem_of_pair listed).1) enough spare
  · exact (shallow.value (mem_of_pair listed).2).equals_finishes (shallow'.value mem) enough spare

end Store.ShallowDict

end DynamicObjects
