import DynamicObjects.Proofs.Equality.Codes
import DynamicObjects.Proofs.Termination.Hashable

/-!
Dictionaries of hashable data agree with their views. Dictionaries are compared by looking up keys,
views by making sets of new tuples. Both come to the same, since no two keys of a dictionary are alike
and alike tuples have one hash code. Main statement: equality and inclusion of views, membership of
items and the number of elements are what the entries say, and only a limit on recursion can keep any
of these questions from being answered.
-/
namespace DynamicObjects

open Script (hooks)

variable {s : Store} {bound : Identity} {P : Value → Prop} {levels n : Nat} {a b v : Value}
  {d e r : DictRef}

/-! ## Keys and items -/

def Store.HasKey (s : Store) (r : DictRef) (k : Value) : Prop :=
  ∃ key ∈ (s.dict r).table.keys, Alike s key k

def Store.HasItem (s : Store) (r : DictRef) (k x : Value) : Prop :=
  ∃ p ∈ (s.dict r).table.pairs, Alike s p.1 k ∧ Alike s p.2 x

namespace Plain

section Near

variable (plain : Plain s bound P)

include plain

theorem near_iff (ha : P a) (hb : P b) (coded : (s.code? a).isSome = true)
    (coded' : (s.code? b).isSome = true) : Near s a b ↔ Alike s a b := by
  obtain ⟨code, hashed⟩ := Option.isSome_iff_exists.mp coded
  obtain ⟨code', hashed'⟩ := Option.isSome_iff_exists.mp coded'
  refine ⟨And.right, fun alike => ⟨?_, alike⟩⟩
  rw [hashed, hashed', plain.code_eq a ha hb alike hashed hashed']

theorem near_tuple_iff {id id' : Identity} {xs ys : List Value}
    (left : ∀ x ∈ xs, P x ∧ (s.code? x).isSome = true)
    (right : ∀ y ∈ ys, P y ∧ (s.code? y).isSome = true) :
    Near s (.tuple id xs) (.tuple id' ys) ↔ List.Forall₂ (Alike s) xs ys := by
  have alike : Alike s (.tuple id xs) (.tuple id' ys) ↔ List.Forall₂ (Alike s) xs ys :=
    Alike.iff_matches
  obtain ⟨codes, hashed⟩ := Option.isSome_iff_exists.mp
    (Store.Shallow.codes?_isSome.mpr fun x mem => (left x mem).2)
  obtain ⟨codes', hashed'⟩ := Option.isSome_iff_exists.mp
    (Store.Shallow.codes?_isSome.mpr fun y mem => (right y mem).2)
  refine ⟨fun near => alike.mp near.2, fun items => ⟨?_, alike.mpr items⟩⟩
  rw [Store.code?, Store.code?, hashed, hashed', plain.codes_eq xs (fun x mem => (left x mem).1)
    (fun y mem => (right y mem).1) items hashed hashed']

end Near

section Entries

variable (plain : Plain s bound P) (hd : P (.dict d)) (he : P (.dict e))
  (left : s.ShallowDict levels d) (right : s.ShallowDict levels e)

theorem key_inside (plain : Plain s bound P) (mem : P (.dict r)) (shallow : s.ShallowDict levels r)
    {k : Value} (listed : k ∈ (s.dict r).table.keys) : P k ∧ (s.code? k).isSome = true :=
  ⟨plain.parts _ mem k (List.mem_append_left _ listed), (shallow.key listed).coded⟩

theorem value_inside (plain : Plain s bound P) (mem : P (.dict r)) (shallow : s.ShallowDict levels r)
    {x : Value} (listed : x ∈ (s.dict r).table.values) : P x ∧ (s.code? x).isSome = true :=
  ⟨plain.parts _ mem x (List.mem_append_right _ listed), (shallow.value listed).coded⟩

include plain hd left

theorem near_item_iff {p : Value × Value} (listed : p ∈ (s.dict d).table.pairs) {id : Identity}
    {k x : Value} (key : P k ∧ (s.code? k).isSome = true) (value : P x ∧ (s.code? x).isSome = true) :
    Near s (itemTuple p) (.tuple id [k, x]) ↔ Alike s p.1 k ∧ Alike s p.2 x := by
  obtain ⟨first, second⟩ := mem_of_pair listed
  rw [itemTuple, plain.near_tuple_iff]
  · simp
  · simpa using ⟨plain.key_inside hd left first, plain.value_inside hd left second⟩
  · simpa using ⟨key, value⟩

include he right

theorem covers_keys_iff :
    Covers (Near s) (s.dict d).table.keys (s.dict e).table.keys ↔
      ∀ k ∈ (s.dict d).table.keys, s.HasKey e k := by
  refine forall₂_congr fun k mem => exists_congr fun key => and_congr_right fun mem' => ?_
  obtain ⟨inside, coded⟩ := plain.key_inside hd left mem
  obtain ⟨inside', coded'⟩ := plain.key_inside he right mem'
  rw [plain.near_iff inside inside' coded coded', Alike.comm]

theorem covers_items_iff :
    Covers (Near s) ((s.dict d).table.pairs.map itemTuple) ((s.dict e).table.pairs.map itemTuple) ↔
      ∀ p ∈ (s.dict d).table.pairs, s.HasItem e p.1 p.2 := by
  unfold Covers
  rw [List.forall_mem_map]
  refine forall₂_congr fun p mem => ?_
  obtain ⟨key, value⟩ := mem_of_pair mem
  have item {q : Value × Value} (mem' : q ∈ (s.dict e).table.pairs) :
      Near s (itemTuple p) (itemTuple q) ↔ Alike s q.1 p.1 ∧ Alike s q.2 p.2 := by
    rw [Near.comm]
    exact plain.near_item_iff he right mem' (plain.key_inside hd left key)
      (plain.value_inside hd left value)
  constructor
  · rintro ⟨_, listed, near⟩
    obtain ⟨q, mem', rfl⟩ := List.mem_map.mp listed
    exact ⟨q, mem', (item mem').mp near⟩
  · rintro ⟨q, mem', alike⟩
    exact ⟨itemTuple q, List.mem_map_of_mem mem', (item mem').mpr alike⟩

theorem covers_pairs_iff :
    Covers (NearPair s) (s.dict d).table.pairs (s.dict e).table.pairs ↔
      ∀ p ∈ (s.dict d).table.pairs, s.HasItem e p.1 p.2 := by
  refine forall₂_congr fun p mem => exists_congr fun q => and_congr_right fun mem' => ?_
  obtain ⟨inside, coded⟩ := plain.key_inside hd left (mem_of_pair mem).1
  obtain ⟨inside', coded'⟩ := plain.key_inside he right (mem_of_pair mem').1
  have keys : Near s p.1 q.1 ↔ Alike s q.1 p.1 :=
    (plain.near_iff inside inside' coded coded').trans Alike.comm
  exact and_congr keys Alike.comm

theorem mutual_items_iff :
    Mutual (Near s) ((s.dict d).table.pairs.map itemTuple) ((s.dict e).table.pairs.map itemTuple) ↔
      Alike s (.dict d) (.dict e) := by
  have alike : Alike s (.dict d) (.dict e) ↔
      Mutual (NearPair s) (s.dict d).table.pairs (s.dict e).table.pairs := Alike.iff_matches
  rw [alike, mutual_iff_of_symm fun _ _ => NearPair.symm, mutual_near_iff,
    plain.covers_pairs_iff hd he left right, plain.covers_pairs_iff he hd right left,
    plain.covers_items_iff hd he left right, plain.covers_items_iff he hd right left]

end Entries

end Plain

/-! ## Answers -/

theorem SetView.eq_of_isSame (view : SetView r v) (either : v = a ∨ v = b)
    (same : a.isSame b = true) : a = b := by
  rcases either with rfl | rfl
  · cases view <;> cases b <;> simp [Value.isSame] at same
    all_goals rw [same]
  · cases view <;> cases a <;> simp [Value.isSame] at same
    all_goals rw [same]

theorem Plain.withViews (plain : Plain s bound P) :
    Plain s bound fun v => P v ∨ ∃ r, P (.dict r) ∧ SetView r v where
  builtin := by
    rintro v (mem | ⟨r, -, view⟩)
    · exact plain.builtin v mem
    · cases view <;> exact nofun
  parts := by
    rintro v (mem | ⟨r, mem, view⟩) x part
    · exact .inl (plain.parts v mem x part)
    · cases view with
      | keys => exact .inl (plain.parts _ mem x (List.mem_append_left _ part))
      | items => exact .inl (plain.parts _ mem x part)
  identity := by
    rintro a b (ha | ⟨r, -, view⟩) (hb | ⟨r', -, view'⟩) same
    · exact plain.identity a b ha hb same
    · exact view'.eq_of_isSame (.inr rfl) same
    · exact view.eq_of_isSame (.inl rfl) same
    · exact view.eq_of_isSame (.inl rfl) same
  older := by
    rintro id items (mem | ⟨r, -, view⟩)
    · exact plain.older id items mem
    · cases view
  set := by
    rintro id t (mem | ⟨r, -, view⟩)
    · exact plain.set id t mem
    · cases view
  dict := by
    rintro r ((mem | ⟨r', -, view⟩) | (mem | ⟨r', mem, view⟩) | mem | ⟨r', mem, view⟩)
    · exact plain.dict r (.inl mem)
    · cases view
    · exact plain.dict r (.inr (.inl mem))
    · cases view
      exact plain.dict r (.inl mem)
    · exact plain.dict r (.inr (.inr mem))
    · cases view
      exact plain.dict r (.inl mem)

theorem Protocol.contains_gives {k : Kind} (slot : Slot) {Q : Bool → Prop}
    (builtin : a.typeKey = .builtin k) (found : k.slot? .contains = some slot)
    (called : ∀ m, n = m + 1 →
      Run.Gives (Calm s bound) (fun v => ∃ x, v = .bool x ∧ Q x) (slot (hooks m) [a, b])) :
    Run.Gives (Calm s bound) Q (Protocol.contains (hooks n) a b) := by
  unfold Protocol.contains
  rw [builtin]
  refine Run.gives_bind (resolve_gives n .contains k) ?_
  rintro t ⟨op, key, target⟩
  have runs : t.target = .builtin := by rw [target, Kind.hasSlot, found]; rfl
  rw [if_neg (by simp [Thunk.isMissing, runs])]
  refine Run.gives_bind (P := fun v => ∃ x, v = .bool x ∧ Q x) (callThunk_gives ?_) ?_
  · simp only [Protocol.runTarget, runs, key, op]
    cases n with
    | zero => exact Run.gives_outOfFuel
    | succ m =>
      simp only [hooks, found]
      exact called m rfl
  · rintro _ ⟨x, rfl, answer⟩
    exact Run.gives_pure answer

theorem gives_bool {I : World → Prop} {Q : Bool → Prop} {y : Run Bool} (hy : Run.Gives I Q y) :
    Run.Gives I (fun v => ∃ x, v = .bool x ∧ Q x) (do return Value.bool (← y)) :=
  Run.gives_bind hy fun x q => Run.gives_pure ⟨x, rfl, q⟩

namespace Plain

variable (plain : Plain s bound P)

include plain

theorem compareBool_gives (op : CompareOp) (ha : P a) (hb : P b) :
    Run.Gives (Calm s bound) (Verdict s op a b) (Protocol.compareBool (hooks n) op a b) := by
  refine Run.gives_bind ((decided_at s n).2 bound P plain op a b ha hb) ?_
  rintro v ⟨x, rfl, verdict⟩
  exact Run.gives_pure verdict

section Dict

variable (mem : P (.dict r)) (shallow : s.ShallowDict levels r) {k x : Value}
  (key : P k ∧ (s.code? k).isSome = true)

include mem shallow key

theorem hasKey_iff : s.HasKey r k ↔ ∃ k' ∈ (s.dict r).table.keys, Near s k' k := by
  refine exists_congr fun k' => and_congr_right fun listed => ?_
  obtain ⟨inside, coded⟩ := plain.key_inside mem shallow listed
  exact (plain.near_iff inside key.1 coded key.2).symm

theorem contains_gives :
    Run.Gives (Calm s bound) (fun y => y = true ↔ s.HasKey r k)
      (Protocol.contains (hooks n) (.dict r) k) := by
  refine Protocol.contains_gives DictRef.containsSlot rfl rfl fun m _ => gives_bool ?_
  rw [plain.hasKey_iff mem shallow key]
  refine Run.gives_bind (plain.hash_gives k key.1) fun code hashed => ?_
  refine Run.gives_bind (DictRef.lookup_gives (decided_at s m).1 plain (plain.dict r (.inl mem))
    (fun _ listed => (plain.key_inside mem shallow listed).1) key.1 hashed) fun found located => ?_
  exact Run.gives_pure located.isSome_iff

theorem containsItem_gives (value : P x) (id : Identity) :
    Run.Gives (Calm s bound) (fun y => y = true ↔ s.HasItem r k x)
      (Protocol.contains (hooks n) (.dictItems r) (.tuple id [k, x])) := by
  refine Protocol.contains_gives DictView.containsSlot rfl rfl fun m _ => gives_bool ?_
  have keyed := plain.dict r (.inl mem)
  have near {p : Value × Value} (listed : p ∈ (s.dict r).table.pairs) :
      Near s p.1 k ↔ Alike s p.1 k := by
    obtain ⟨inside, coded⟩ := plain.key_inside mem shallow (mem_of_pair listed).1
    exact plain.near_iff inside key.1 coded key.2
  refine Run.gives_bind (DictRef.get?_gives (decided_at s m).1 plain keyed
    (fun _ listed => (plain.key_inside mem shallow listed).1) key.1) fun found holds => ?_
  cases found with
  | none =>
    refine Run.gives_pure ⟨nofun, ?_⟩
    rintro ⟨p, listed, alike, -⟩
    exact absurd ((near listed).mpr alike) (holds p listed)
  | some current =>
    obtain ⟨stored, listed, found⟩ := holds
    have inside := (plain.value_inside mem shallow (mem_of_pair listed).2).1
    -- no other entry has a key like this one
    have only : s.HasItem r k x ↔ Alike s current x := by
      constructor
      · rintro ⟨p, listed', alike, same⟩
        obtain rfl := keyed.pair_unique listed' listed ((near listed').mpr alike) found
        exact same
      · exact fun same => ⟨_, listed, found.2, same⟩
    dsimp only
    split
    next same => exact Run.gives_pure (by simpa [only] using plain.alike_of_isSame inside value same)
    next =>
      rw [only]
      exact (decided_at s m).1 bound P plain current x inside value

end Dict

end Plain

theorem StandsFor.contains_gives {G : Region s} {xs : List Value} {t : SetTable}
    (stands : StandsFor G xs t) (mem : G.Mem v) (id : Identity) :
    Run.Gives (Calm s G.bound) (fun y => y = true ↔ ∃ x ∈ xs, Near s x v)
      (Protocol.contains (hooks n) (.frozenSet id t) v) := by
  obtain ⟨forward, backward⟩ := Mutual.of_forall₂ stands.copies
  have same : (∃ key ∈ t.keys, Near s key v) ↔ ∃ x ∈ xs, Near s x v := by
    constructor
    · rintro ⟨key, listed, near⟩
      obtain ⟨x, listed', copies⟩ := forward key listed
      exact ⟨x, listed', (copies.near_iff ⟨rfl, rfl⟩).mp near⟩
    · rintro ⟨x, listed, near⟩
      obtain ⟨key, listed', copies⟩ := backward x listed
      exact ⟨key, listed', (copies.near_iff ⟨rfl, rfl⟩).mpr near⟩
  refine Protocol.contains_gives SetTable.containsSlot rfl rfl fun m _ => gives_bool ?_
  refine Run.gives_bind (G.plain.hash_gives v mem) fun code hashed => ?_
  rw [← same]
  exact SetTable.containsHashed_gives (decided_at s m).1 G.plain stands.keyed stands.inside mem
    hashed

theorem newFrozenSet_gives (t : SetTable) :
    Run.Gives (Calm s bound) (fun v => ∃ id, v = .frozenSet id t) (Run.newFrozenSet t) := by
  rintro w v w' calm ⟨⟩
  refine ⟨⟨?_, Nat.le_succ_of_le calm.bound, calm.honest⟩, _, rfl⟩
  rw [calm.store]

namespace SetView

variable (view : SetView r v) (plain : Plain s bound P) (mem : P (.dict r))

include view plain mem

theorem snapshot?_gives :
    Run.Gives (Calm s bound)
      (fun o => ∃ t, o = some t ∧ t.keys.length = (s.dict r).table.size ∧
        t.size = (s.dict r).table.size)
      (SetTable.snapshot? (hooks n) v) := by
  have keyed := plain.dict r (.inl mem)
  intro w o w' calm ran
  rcases snapshot?_spec (decided_at s n).1 (G := ⟨bound, _, plain.withViews⟩) (.inr ⟨r, mem, view⟩)
    calm ran with ⟨xs, t, content, rfl, G', larger, calm', stands⟩ | ⟨-, unlike, -⟩
  · have length : xs.length = (s.dict r).table.size := by
      cases view with
      | keys =>
        cases content
        exact keyed.length_keys
      | items =>
        cases content
        rw [List.length_map, keyed.length_pairs]
    have keys := stands.copies.length_eq.trans length
    exact ⟨calm'.mono larger.1, t, rfl, keys, stands.keyed.length_keys ▸ keys⟩
  · cases view <;> exact absurd rfl (unlike _)

end SetView

theorem Plain.snapshotContains_gives (plain : Plain s bound P) (hd : P (.dict d))
    (left : s.ShallowDict levels d) {k x : Value} (key : (s.code? k).isSome = true)
    (value : (s.code? x).isSome = true) {id : Identity} (pair : P (.tuple id [k, x])) :
    Run.Gives (Calm s bound) (fun y => y = true ↔ s.HasItem d k x)
      (SetTable.snapshotContains (hooks n) (.dictItems d) (.tuple id [k, x])) := by
  have parts := plain.parts _ pair
  have inside : P k ∧ P x := by simpa [Store.parts] using parts
  intro w y w' calm ran
  obtain ⟨o, w₁, taken, ran⟩ := Run.bind_eq_ok ran
  rcases snapshot?_spec (decided_at s n).1 (G := ⟨bound, _, plain.withViews⟩)
    (.inr ⟨d, hd, .items⟩) calm taken with
    ⟨xs, t, content, rfl, G', larger, calm₁, stands⟩ | ⟨-, unlike, -⟩
  · cases content
    have contained : Run.Gives (Calm s G'.bound)
        (fun y => y = true ↔
          ∃ x' ∈ (s.dict d).table.pairs.map itemTuple, Near s x' (.tuple id [k, x]))
        (do Protocol.contains (hooks n) (← Run.newFrozenSet t) (.tuple id [k, x])) := by
      refine Run.gives_bind (newFrozenSet_gives t) ?_
      rintro _ ⟨id', rfl⟩
      exact stands.contains_gives (larger.2 _ (.inl pair)) id'
    obtain ⟨calm', answer⟩ := contained w₁ y w' calm₁ ran
    refine ⟨calm'.mono larger.1, answer.trans ?_⟩
    simp only [List.mem_map, exists_exists_and_eq_and]
    refine exists_congr fun p => and_congr_right fun listed => ?_
    exact plain.near_item_iff hd left listed ⟨inside.1, key⟩ ⟨inside.2, value⟩
  · exact absurd rfl (unlike _)

/-! ## Agreement -/

/-- From every calm state the run gives a value as described, or else it meets a limit on recursion;
where there is room for so many levels it gives the value. -/
def Concludes {α : Type} (s : Store) (bound : Identity) (levels : Nat) (Q : α → Prop) (x : Run α) :
    Prop :=
  ∀ w, Calm s bound w →
    (∃ a, (x w).1 = .ok a ∧ Q a) ∨ ((x w).1 = .error .recursionLimit ∧ ¬ w.Room levels)

abbrev Decides (s : Store) (bound : Identity) (levels : Nat) (p : Prop) (x : Run Bool) : Prop :=
  Concludes s bound levels (fun y => y = true ↔ p) x

theorem concludes {α : Type} {Q : α → Prop} {x : Run α}
    (finishes : ∀ {ample : Prop} {top used depth : Nat}, Spare ample top used (depth + 1) levels →
      Run.Finishes (Situated s bound ample top used depth) (fun _ => True) (Spent ample) x)
    (gives : Run.Gives (Calm s bound) Q x) : Concludes s bound levels Q x := by
  intro w calm
  have spare : Spare (w.Room levels) (w.depth + 1 + levels) w.dataDepth (w.depth + 1) levels :=
    fun room => ⟨room.1, Nat.le_refl _⟩
  have situated : Situated s bound (w.Room levels) (w.depth + 1 + levels) w.dataDepth w.depth w := by
    refine ⟨calm, fun room => ⟨rfl, Nat.le_refl _, fun limit found => ?_⟩⟩
    have := room.2 limit found
    omega
  rcases (finishes spare).cases situated with ⟨a, w', ran, -, -⟩ | ⟨e, w', ran, -, rfl, short⟩
  · exact .inl ⟨a, by rw [ran], (gives w a w' calm ran).2⟩
  · exact .inr ⟨by rw [ran], short⟩

theorem Decides.ok_iff {p : Prop} {x : Run Bool} (decides : Decides s bound levels p x) {w : World}
    (calm : Calm s bound w) (room : w.Room levels) : (x w).1 = .ok true ↔ p := by
  rcases decides w calm with ⟨y, ran, answer⟩ | ⟨-, short⟩
  · rw [ran, Outcome.ok.injEq, answer]
  · exact absurd room short

/-- What can be asked of two dictionaries of hashable data and of their views, and the answers. The
answers are about the entries: what equality says is being alike. -/
structure DictViewsAgree (s : Store) (bound : Identity) (P : Value → Prop) (levels n : Nat)
    (d e : DictRef) : Prop where
  /-- Equality of keys and of values. -/
  values : ∀ a b, P a → P b → s.Shallow levels a → s.Shallow levels b →
    Decides s bound (levels + 1) (Alike s a b) (Protocol.equals (hooks n) a b)
  /-- Equality of the dictionaries. -/
  dicts : Decides s bound (levels + 1) (Alike s (.dict d) (.dict e))
    (Protocol.compareBool (hooks n) .eq (.dict d) (.dict e))
  /-- Equality of the items is that of the dictionaries. -/
  items : Decides s bound (levels + 1) (Alike s (.dict d) (.dict e))
    (Protocol.compareBool (hooks n) .eq (.dictItems d) (.dictItems e))
  /-- A key is in a dictionary. -/
  hasKey : ∀ k, P k → s.Shallow levels k →
    Decides s bound (levels + 1) (s.HasKey d k) (Protocol.contains (hooks n) (.dict d) k) ∧
    Decides s bound (levels + 1) (s.HasKey e k) (Protocol.contains (hooks n) (.dict e) k)
  /-- Equality of the keys is that every key of each dictionary is in the other. -/
  keys : Decides s bound (levels + 1)
    ((∀ k ∈ (s.dict d).table.keys, s.HasKey e k) ∧ ∀ k ∈ (s.dict e).table.keys, s.HasKey d k)
    (Protocol.compareBool (hooks n) .eq (.dictKeys d) (.dictKeys e))
  /-- Inclusion of the items is that every key is in the other dictionary with an equal value. -/
  included : Decides s bound (levels + 1)
    (∀ p ∈ (s.dict d).table.pairs, s.HasItem e p.1 p.2)
    (Protocol.compareBool (hooks n) .le (.dictItems d) (.dictItems e))
  /-- An item is in the view exactly when its tuple is in the set that the view stands for. -/
  hasItem : ∀ id k x, P (.tuple id [k, x]) → s.Shallow levels k → s.Shallow levels x →
    Decides s bound (levels + 1) (s.HasItem d k x)
      (Protocol.contains (hooks n) (.dictItems d) (.tuple id [k, x])) ∧
    Decides s bound (levels + 1) (s.HasItem d k x)
      (SetTable.snapshotContains (hooks n) (.dictItems d) (.tuple id [k, x]))
  /-- The sets have as many elements as the dictionary has entries. -/
  sizes : ∀ v, SetView d v → Concludes s bound (levels + 1)
    (fun o => ∃ t, o = some t ∧ t.keys.length = (s.dict d).table.size ∧
      t.size = (s.dict d).table.size)
    (SetTable.snapshot? (hooks n) v)

namespace Plain

theorem exists_shallowDicts (plain : Plain s bound P) (hd : P (.dict d)) (he : P (.dict e))
    (hashable : ∀ r, r = d ∨ r = e → ∀ x ∈ (s.dict r).table.values, (s.code? x).isSome = true) :
    ∃ levels, s.ShallowDict levels d ∧ s.ShallowDict levels e := by
  have each {r : DictRef} (mem : P (.dict r)) (either : r = d ∨ r = e) :
      ∀ x ∈ s.parts (.dict r), ∃ levels, s.Shallow levels x := by
    intro x part
    refine plain.exists_shallow (plain.parts _ mem x part) ?_
    rcases List.mem_append.mp part with key | value
    · obtain ⟨entry, listed, rfl⟩ := List.mem_map.mp key
      rw [(plain.dict r (.inl mem)).coded entry listed]
      rfl
    · exact hashable r either x value
  obtain ⟨levels, both⟩ := Store.Shallow.common (List.forall_mem_append.mpr
    ⟨each hd (.inl rfl), each he (.inr rfl)⟩)
  exact ⟨levels, List.forall_mem_append.mp both⟩

section Answers

variable (plain : Plain s bound P) (hd : P (.dict d)) (he : P (.dict e))
  (left : s.ShallowDict levels d) (right : s.ShallowDict levels e) (enough : levels + 1 ≤ n)

include plain hd left enough

theorem decides_hasKey {k : Value} (inside : P k) (key : s.Shallow levels k) :
    Decides s bound (levels + 1) (s.HasKey d k) (Protocol.contains (hooks (n + 1)) (.dict d) k) :=
  concludes (fun spare => left.contains_finishes (Nat.le_of_succ_le enough) key spare.fewer)
    (plain.contains_gives hd left ⟨inside, key.coded⟩)

theorem decides_hasItem {id : Identity} {k x : Value} (inside : P (.tuple id [k, x]))
    (key : s.Shallow levels k) (value : s.Shallow levels x) :
    Decides s bound (levels + 1) (s.HasItem d k x)
      (Protocol.contains (hooks (n + 1)) (.dictItems d) (.tuple id [k, x])) ∧
    Decides s bound (levels + 1) (s.HasItem d k x)
      (SetTable.snapshotContains (hooks (n + 1)) (.dictItems d) (.tuple id [k, x])) := by
  have parts : P k ∧ P x := by simpa [Store.parts] using plain.parts _ inside
  have element : s.Shallow (levels + 1) (.tuple id [k, x]) := .tuple (by simpa using ⟨key, value⟩)
  constructor
  · exact concludes
      (fun spare => left.containsItem_finishes (Nat.le_of_succ_le enough) key value id spare.fewer)
      (plain.containsItem_gives hd left ⟨parts.1, key.coded⟩ parts.2 id)
  · exact concludes (fun spare => SetView.items.snapshotContains_finishes left enough element spare)
      (plain.snapshotContains_gives hd left key.coded value.coded inside)

theorem concludes_size (view : SetView d v) :
    Concludes s bound (levels + 1)
      (fun o => ∃ t, o = some t ∧ t.keys.length = (s.dict d).table.size ∧
        t.size = (s.dict d).table.size)
      (SetTable.snapshot? (hooks (n + 1)) v) := by
  refine concludes (fun spare => ?_) (view.snapshot?_gives plain hd)
  exact (view.snapshot?_finishes left (Nat.le_succ_of_le enough) (spare.of_le (Nat.le_succ _))).any

include he right

theorem decides_alike_dicts :
    Decides s bound (levels + 1) (Alike s (.dict d) (.dict e))
      (Protocol.compareBool (hooks (n + 1)) .eq (.dict d) (.dict e)) :=
  concludes (fun spare => left.compareBool_finishes (Nat.le_of_succ_le enough) right spare)
    ((plain.compareBool_gives .eq hd he).imp fun _ verdict => verdict.alike_iff rfl)

theorem decides_views {a b : Value} {op : CompareOp} {p : Prop} (view : SetView d a)
    (view' : SetView e b) (verdict : ∀ x, Verdict s op a b x → (x = true ↔ p)) :
    Decides s bound (levels + 1) p (Protocol.compareBool (hooks (n + 1)) op a b) :=
  concludes (fun spare => view.compareBool_finishes left enough op view' right spare)
    ((plain.withViews.compareBool_gives op (.inr ⟨d, hd, view⟩) (.inr ⟨e, he, view'⟩)).imp verdict)

theorem decides_alike_items :
    Decides s bound (levels + 1) (Alike s (.dict d) (.dict e))
      (Protocol.compareBool (hooks (n + 1)) .eq (.dictItems d) (.dictItems e)) := by
  refine plain.decides_views hd he left right enough .items .items fun x verdict => ?_
  rw [← plain.mutual_items_iff hd he left right]
  exact (verdict.alike_iff rfl).trans Alike.iff_matches

theorem decides_keys :
    Decides s bound (levels + 1)
      ((∀ k ∈ (s.dict d).table.keys, s.HasKey e k) ∧ ∀ k ∈ (s.dict e).table.keys, s.HasKey d k)
      (Protocol.compareBool (hooks (n + 1)) .eq (.dictKeys d) (.dictKeys e)) := by
  refine plain.decides_views hd he left right enough .keys .keys fun x verdict => ?_
  rw [← plain.covers_keys_iff hd he left right, ← plain.covers_keys_iff he hd right left,
    ← mutual_near_iff]
  exact (verdict.alike_iff rfl).trans Alike.iff_matches

theorem decides_included :
    Decides s bound (levels + 1) (∀ p ∈ (s.dict d).table.pairs, s.HasItem e p.1 p.2)
      (Protocol.compareBool (hooks (n + 1)) .le (.dictItems d) (.dictItems e)) := by
  refine plain.decides_views hd he left right enough .items .items fun x verdict => ?_
  rw [← plain.covers_items_iff hd he left right]
  exact verdict.iff_of_states rfl

end Answers

end Plain

/-- Dictionaries of hashable data are nested only so deep, and with a little more fuel than that they
and their views agree. -/
theorem dict_views_agree (plain : Plain s bound P) (hd : P (.dict d)) (he : P (.dict e))
    (hashable : ∀ r, r = d ∨ r = e → ∀ x ∈ (s.dict r).table.values, (s.code? x).isSome = true) :
    (∃ levels, s.ShallowDict levels d ∧ s.ShallowDict levels e) ∧
      ∀ levels n, s.ShallowDict levels d → s.ShallowDict levels e → levels + 2 ≤ n →
        DictViewsAgree s bound P levels n d e := by
  refine ⟨plain.exists_shallowDicts hd he hashable, fun levels n left right enough => ?_⟩
  obtain ⟨n, rfl⟩ : ∃ m, n = m + 1 := ⟨n - 1, by omega⟩
  have enough : levels + 1 ≤ n := Nat.le_of_succ_le_succ enough
  exact {
    values := fun a b ha hb shallow shallow' =>
      concludes (fun spare => shallow.equals_finishes shallow' (by omega)
        (spare.fewer.of_le (Nat.le_succ _))) ((decided_at s (n + 1)).1 bound P plain a b ha hb)
    dicts := plain.decides_alike_dicts hd he left right enough
    items := plain.decides_alike_items hd he left right enough
    hasKey := fun k inside key =>
      ⟨plain.decides_hasKey hd left enough inside key, plain.decides_hasKey he right enough inside key⟩
    keys := plain.decides_keys hd he left right enough
    included := plain.decides_included hd he left right enough
    hasItem := fun id k x inside key value => plain.decides_hasItem hd left enough inside key value
    sizes := fun v view => plain.concludes_size hd left enough view }

namespace MixedItems

open MixedKeys (one nan table)

def left : DictRef := ⟨0⟩

def right : DictRef := ⟨1⟩

def truths : Value := .tuple 259 [.bool true]

def floats : Value := .tuple 260 [.float one]

/-- A heap with two dictionaries that have numbers equal to 1 and the NaN as keys, and tuples of such
numbers as values. -/
def store : Store :=
  ⟨262, #[], #[⟨257, table truths (.int 1), 2⟩, ⟨258, table floats (.bool true), 2⟩], #[]⟩

def item : Value := .tuple 261 [.float one, floats]

def Mem (v : Value) : Prop :=
  v ∈ [.dict left, .dict right, truths, floats, item, .int 1, .bool true, .float one, .float nan]

theorem parts_left : store.parts (.dict left) = [.int 1, .float nan, truths, truths] := by
  simp [store, left, Store.parts, Store.dict, MixedKeys.table, Table.keys, Table.values,
    Table.toList_insertNew, Table.toList_empty]

theorem parts_right : store.parts (.dict right) = [.bool true, .float nan, floats, floats] := by
  simp [store, right, Store.parts, Store.dict, MixedKeys.table, Table.keys, Table.values,
    Table.toList_insertNew, Table.toList_empty]

theorem plain : Plain store 262 Mem := by
  refine ⟨?_, ?_, ?_, ?_, ?_, ?_⟩
  · simp [Mem, truths, floats, item, Value.kind]
  · simp only [Mem, List.forall_mem_cons, parts_left, parts_right]
    simp [truths, floats, item, Store.parts]
  · simp only [Mem, List.mem_cons, List.not_mem_nil, or_false]
    rintro a b (rfl | rfl | rfl | rfl | rfl | rfl | rfl | rfl | rfl)
      (rfl | rfl | rfl | rfl | rfl | rfl | rfl | rfl | rfl) same
      <;> first | rfl | exact absurd same (by decide)
  · simp only [Mem, truths, floats, item, List.mem_cons, Value.tuple.injEq, reduceCtorEq,
      List.not_mem_nil, or_false, false_or]
    rintro id items (⟨rfl, -⟩ | ⟨rfl, -⟩ | ⟨rfl, -⟩) <;> decide
  · simp [Mem, truths, floats, item]
  · have first : WellKeyed store (store.dict left).table :=
      MixedKeys.keyed_table truths rfl rfl (by decide)
    have second : WellKeyed store (store.dict right).table :=
      MixedKeys.keyed_table floats rfl rfl (by decide)
    simpa [Mem, truths, floats, item] using ⟨first, second⟩

def world : World := { store, dispatcher := .initial ⟨#[], [], true⟩ {} {} false }

theorem calm : Calm store 262 world := ⟨rfl, Nat.le_refl _, Dispatcher.honest_initial _ _ _ _⟩

theorem room : world.Room 2 := by
  refine ⟨by decide, fun limit found => ?_⟩
  obtain rfl : defaultRecursionLimit = limit := Option.some.inj found
  decide

theorem shallow_number {v : Value} (among : v ∈ [.int 1, .bool true, .float one, .float nan])
    (levels : Nat) : store.Shallow levels v := by
  simp only [List.mem_cons, List.not_mem_nil, or_false] at among
  rcases among with rfl | rfl | rfl | rfl <;> exact .leaf rfl ⟨nofun, nofun⟩

theorem shallow_tuples : store.Shallow 1 truths ∧ store.Shallow 1 floats :=
  ⟨.tuple (List.forall_mem_singleton.mpr (shallow_number (by simp) 0)),
    .tuple (List.forall_mem_singleton.mpr (shallow_number (by simp) 0))⟩

theorem shallow (r : DictRef) (either : r = left ∨ r = right) : store.ShallowDict 1 r := by
  unfold Store.ShallowDict
  rcases either with rfl | rfl
  · rw [parts_left]
    simp [shallow_tuples, shallow_number]
  · rw [parts_right]
    simp [shallow_tuples, shallow_number]

end MixedItems

open MixedItems in
/-- The dictionaries are found equal, so their items are too. The item with the key 1.0 is found among
the items of the first one, so it is in the set of its items too. -/
theorem dict_views_agree_mixed :
    (Protocol.compareBool (hooks 3) .eq (.dict left) (.dict right) world).1 = .ok true ∧
    (Protocol.compareBool (hooks 3) .eq (.dictItems left) (.dictItems right) world).1 = .ok true ∧
    (Protocol.contains (hooks 3) (.dictItems left) item world).1 = .ok true ∧
    (SetTable.snapshotContains (hooks 3) (.dictItems left) item world).1 = .ok true := by
  obtain ⟨-, agree⟩ := dict_views_agree (d := left) (e := right) plain (by simp [Mem])
    (by simp [Mem]) fun r either x value => (shallow r either).value value |>.coded
  have views := agree 1 3 (shallow left (.inl rfl)) (shallow right (.inr rfl)) (Nat.le_refl _)
  have equal :
      (Protocol.compareBool (hooks 3) .eq (.dict left) (.dict right) world).1 = .ok true := by
    decide +kernel
  have found : (Protocol.contains (hooks 3) (.dictItems left) item world).1 = .ok true := by
    decide +kernel
  have hasItem := views.hasItem 261 (.float MixedKeys.one) floats (by simp [Mem, item])
    (shallow_number (by simp) 1) shallow_tuples.2
  refine ⟨equal, ?_, found, ?_⟩
  · exact (views.items.ok_iff calm room).mpr ((views.dicts.ok_iff calm room).mp equal)
  · exact (hasItem.2.ok_iff calm room).mpr ((hasItem.1.ok_iff calm room).mp found)

end DynamicObjects
