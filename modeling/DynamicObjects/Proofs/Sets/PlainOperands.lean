import DynamicObjects.Proofs.Sets.Operands
import DynamicObjects.Proofs.Dicts.Views

/-!
Hashable data of built-in kinds as operands of set operators. Whatever has a hash code without asking a
class may become a key; which of it exists is said by a region of plain data, and new items belong to a
larger region. Tuples and sets are nested so deep only as there are levels of nested data and calls
left, so hashing and comparing them meets no limit.
-/
namespace DynamicObjects

open Script (hooks)

variable {s : Store} {levels top used n depth level : Nat} {E : Value → Prop} {values : List Value}
  {r : DictRef} {id : Identity} {t : SetTable} {v x y : Value}

namespace Store

open Classical in
/-- Values that have a hash code by themselves. They are one key if they are alike. -/
noncomputable def hashable (s : Store) : KeySpace where
  IsKey v := (s.code? v).isSome = true
  code v := (s.code? v).getD 0
  equal a b := decide (Near s a b)
  equal_refl _ := decide_eq_true ⟨rfl, .refl _⟩
  equal_symm _ _ near := decide_eq_true (Near.symm (of_decide_eq_true near))
  equal_trans _ _ _ first second := by
    have first := of_decide_eq_true first
    have second := of_decide_eq_true second
    exact decide_eq_true ⟨first.1.trans second.1, first.2.trans second.2⟩
  code_eq _ _ near := congrArg (·.getD 0) (of_decide_eq_true near).1

theorem equal_hashable : s.hashable.equal x y = true ↔ Near s x y := by
  classical
  exact decide_eq_true_iff

theorem among_hashable : s.hashable.Among values x ↔ ∃ v ∈ values, Near s v x := by
  simp only [KeySpace.Among, equal_hashable]

theorem among_copies {others : List Value} (copies : List.Forall₂ (Copies s) values others) :
    s.hashable.Among values x ↔ s.hashable.Among others x := by
  obtain ⟨forward, backward⟩ := Mutual.of_forall₂ copies
  rw [among_hashable, among_hashable]
  constructor
  · rintro ⟨v, mem, near⟩
    obtain ⟨v', mem', copy⟩ := forward v mem
    exact ⟨v', mem', (copy.near_iff ⟨rfl, rfl⟩).mp near⟩
  · rintro ⟨v', mem', near⟩
    obtain ⟨v, mem, copy⟩ := backward v' mem'
    exact ⟨v, mem, (copy.near_iff ⟨rfl, rfl⟩).mpr near⟩

end Store

namespace Region

/-- The values of the region that are nested at most so many levels deep. -/
def Known (G : Region s) (levels : Nat) (v : Value) : Prop := G.Mem v ∧ s.Shallow levels v

/-- States with the heap of `s`, in which the values of a region exist, one from `base` on. So many
levels of nested data are used, and at least `top` calls may be open. -/
def Inhabited (base : Region s) (levels top used : Nat) : States := fun E depth w =>
  ∃ G, base ≤ G ∧ E = G.Known levels ∧ Situated s G.bound True top used depth w

variable {base : Region s}

/-- Leaving a call gives its level back, and what it has brought into existence stays. -/
theorem inhabited_back {E' : Value → Prop} {w w' : World} (i : base.Inhabited levels top used E depth w)
    (i' : base.Inhabited levels top used E' (depth + 1) w') :
    base.Inhabited levels top used E' depth { w' with depth := w.depth } := by
  obtain ⟨_, _, _, i⟩ := i
  obtain ⟨G, larger, same, i'⟩ := i'
  have calm := i'.calm
  exact ⟨G, larger, same, ⟨calm.store, calm.bound, calm.honest⟩, fun room =>
    ⟨(i'.levels room).1, (i.levels room).2.1, (i'.levels room).2.2⟩⟩

theorem steady_inhabited (base : Region s) (levels top used : Nat) (E : Value → Prop) :
    Steady (base.Inhabited levels top used E) where
  honest := by
    rintro _ _ ⟨G, -, -, i⟩
    exact i.calm.honest
  dispatched := by
    rintro _ _ _ ⟨G, larger, same, i⟩ honest policy
    exact ⟨G, larger, same, (steady_situated s G.bound True top used).dispatched i honest policy⟩
  identified := by
    rintro _ _ _ ⟨G, larger, same, i⟩ later
    exact ⟨G, larger, same, (steady_situated s G.bound True top used).identified i later⟩
  entered := by
    rintro _ _ ⟨G, larger, same, i⟩
    exact ⟨G, larger, same, (steady_situated s G.bound True top used).entered i⟩
  left := inhabited_back

theorem ends_of_finishes {α : Type} {bound : Identity} {P : α → Prop} {x : Run α}
    (finishes : Run.Finishes (Situated s bound True top used depth) (fun _ => True) (Spent True) x)
    (gives : Run.Gives (Calm s bound) P x) : Run.Yields (Situated s bound True top used depth) P x := by
  intro w i
  obtain ⟨a, w', ran, i', -⟩ := finishes.yields (fun _ spent => spent.2 trivial) w i
  exact ⟨a, w', ran, i', (gives w a w' i.calm ran).2⟩

theorem elements_hashable (enough : levels ≤ n) (spare : Spare True top used depth levels) :
    Elements (s.hashable.on E) (hooks n) (base.Inhabited levels top used E depth) where
  hash := by
    rintro v ⟨-, known⟩ w ⟨G, larger, rfl, i⟩
    obtain ⟨mem, shallow⟩ := known
    obtain ⟨code, w', ran, i', hashed⟩ := ends_of_finishes (shallow.hash_finishes spare.within)
      (G.plain.hash_gives v mem) w i
    have same : (s.hashable.on (G.Known levels)).code v = code := by
      show (s.code? v).getD 0 = code
      rw [hashed]
      rfl
    exact ⟨w', same ▸ ran, G, larger, rfl, i'⟩
  equals := by
    rintro a b ⟨coded, known⟩ ⟨coded', known'⟩ w ⟨G, larger, rfl, i⟩
    obtain ⟨mem, shallow⟩ := known
    obtain ⟨mem', shallow'⟩ := known'
    obtain ⟨answer, w', ran, i', alike⟩ := ends_of_finishes
      (shallow.equals_finishes shallow' enough spare)
      ((decided_at s n).1 G.bound G.Mem G.plain a b mem mem') w i
    have same : s.hashable.equal a b = answer := by
      rw [Bool.eq_iff_iff, Store.equal_hashable, G.plain.near_iff mem mem' coded coded', alike]
    exact ⟨w', same ▸ ran, G, larger, rfl, i'⟩

theorem workplace (base : Region s) (enough : levels ≤ n)
    (spare : Spare True top used (depth + 1) levels) :
    Workplace s.hashable n depth (base.Inhabited levels top used) where
  steady := base.steady_inhabited levels top used
  back _ _ _ _ _ := inhabited_back
  room := by
    rintro _ w limit ⟨_, _, _, i⟩ found
    obtain ⟨-, calls, most⟩ := i.levels trivial
    have := most limit found
    have := (spare trivial).2
    omega
  elements _ _ _ high := elements_hashable enough (spare.of_le high)

theorem lists (inside : ∀ v ∈ values, base.Known levels v) {w : World}
    (i : base.Inhabited levels top used E depth w) :
    s.hashable.Lists E (s.hashable.Among values) values := by
  obtain ⟨G, larger, rfl, -⟩ := i
  refine ⟨fun v mem => ?_, fun v mem => (inside v mem).2.coded, fun _ _ => Iff.rfl⟩
  exact ⟨larger.2 v (inside v mem).1, (inside v mem).2⟩

theorem presents_tuple (inside : ∀ v ∈ values, base.Known levels v) (fits : values.length < n) :
    Presents s.hashable n depth (base.Inhabited levels top used) (.tuple id values)
      (s.hashable.Among values) :=
  .tuple (fun _ _ _ i => lists inside i) fits

theorem presents_frozenSet (mem : base.Mem (.frozenSet id t))
    (shallow : ∀ v ∈ t.keys, s.Shallow levels v) :
    Presents s.hashable n depth (base.Inhabited levels top used) (.frozenSet id t)
      (s.hashable.Among t.keys) := by
  have keyed := base.plain.set id t mem
  refine .frozenSet ⟨keyed.valid, fun e listed => ?_, fun e listed => ?_, ?_, fun _ _ => Iff.rfl⟩ ?_
  · show (s.code? e.key).isSome = true
    rw [keyed.coded e listed]
    rfl
  · show e.hash = (s.code? e.key).getD 0
    rw [keyed.coded e listed]
    rfl
  · refine List.pairwise_map.mpr (keyed.distinct.imp fun unlike => ?_)
    rw [Bool.eq_false_iff, ne_eq, Store.equal_hashable]
    exact fun near => unlike near.2
  · rintro E level w ⟨G, larger, rfl, -⟩ v listed
    exact ⟨larger.2 v (base.plain.parts _ mem v listed), shallow v listed⟩

section Views

variable (mem : base.Mem (.dict r))

include mem

theorem presents_keys (shallow : s.ShallowDict levels r) :
    Presents s.hashable n depth (base.Inhabited levels top used) (.dictKeys r)
      (s.hashable.Among (s.dict r).table.keys) := by
  refine .view .keys fun E level _ _ w i => ?_
  have inside : ∀ k ∈ (s.dict r).table.keys, base.Known levels k := fun k listed =>
    ⟨base.plain.parts _ mem k (List.mem_append_left _ listed), shallow.key listed⟩
  obtain ⟨G, -, -, situated⟩ := id i
  exact ⟨_, w, E, situated.calm.keys_apply r, le_refl E, i, lists inside i⟩

theorem presents_items (shallow : s.ShallowDict levels r) :
    Presents s.hashable n depth (base.Inhabited (levels + 1) top used) (.dictItems r)
      (s.hashable.Among ((s.dict r).table.pairs.map itemTuple)) := by
  refine .view .items fun E level _ _ w i => ?_
  obtain ⟨G, larger, rfl, i⟩ := i
  let pairs := (s.dict r).table.pairs
  have known {p : Value × Value} (listed : p ∈ pairs) :
      (G.Mem p.1 ∧ G.Mem p.2) ∧ s.Shallow levels p.1 ∧ s.Shallow levels p.2 := by
    obtain ⟨key, value⟩ := mem_of_pair listed
    have parts := base.plain.parts _ mem
    exact ⟨⟨larger.2 _ (parts _ (List.mem_append_left _ key)),
      larger.2 _ (parts _ (List.mem_append_right _ value))⟩, shallow.key key, shallow.value value⟩
  let G' := G.withTuples w.store.nextId i.calm.bound pairs fun p listed => (known listed).1
  have more : G ≤ G' := G.le_withTuples _ _
  have item {v : Value} (listed : v ∈ minted w.store.nextId pairs) : G'.Known (levels + 1) v := by
    refine ⟨.inr listed, ?_⟩
    obtain ⟨place, p, found, rfl⟩ := mem_minted.mp listed
    obtain ⟨-, key, value⟩ := known (List.mem_of_getElem? found)
    exact .tuple (by simpa using ⟨key, value⟩)
  refine ⟨_, _, G'.Known (levels + 1), i.calm.itemTuples_apply r,
    fun v known => ⟨more.2 v known.1, known.2⟩,
    ⟨G', le_trans larger more, rfl, ⟨?_, Nat.le_refl _, i.calm.honest⟩, i.levels⟩,
    fun _ => item, fun _ listed => (item listed).2.coded, fun _ _ => ?_⟩
  · rw [i.calm.store]
  · exact Store.among_copies (minted_copies s _ pairs)

end Views

/-- Operands whose elements are of the region and nested at most so many levels deep, with these
elements. Fuel is needed to walk over a tuple. -/
inductive Operand (base : Region s) (n : Nat) : Nat → Value → List Value → Prop
  | frozenSet {levels : Nat} {id : Identity} {t : SetTable} (mem : base.Mem (.frozenSet id t))
    (shallow : ∀ v ∈ t.keys, s.Shallow levels v) : Operand base n levels (.frozenSet id t) t.keys
  | keys {levels : Nat} {r : DictRef} (mem : base.Mem (.dict r)) (shallow : s.ShallowDict levels r) :
    Operand base n levels (.dictKeys r) (s.dict r).table.keys
  | items {levels : Nat} {r : DictRef} (mem : base.Mem (.dict r)) (shallow : s.ShallowDict levels r) :
    Operand base n (levels + 1) (.dictItems r) ((s.dict r).table.pairs.map itemTuple)
  | tuple {levels : Nat} {id : Identity} {values : List Value}
    (inside : ∀ v ∈ values, base.Known levels v) (fits : values.length < n) :
    Operand base n levels (.tuple id values) values

theorem Operand.presents (operand : base.Operand n levels v values) :
    Presents s.hashable n depth (base.Inhabited levels top used) v (s.hashable.Among values) := by
  cases operand with
  | frozenSet mem shallow => exact presents_frozenSet mem shallow
  | keys mem shallow => exact presents_keys mem shallow
  | items mem shallow => exact presents_items mem shallow
  | tuple inside fits => exact presents_tuple inside fits

end Region

end DynamicObjects
