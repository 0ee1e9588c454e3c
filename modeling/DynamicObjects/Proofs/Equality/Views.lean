import DynamicObjects.Dicts.Views
import DynamicObjects.Proofs.Equality.Collections

/-!
Comparing what acts as a set. The keys or items of a dictionary are made into a set first, and items
are new tuples then: the data that is looked at grows while the comparison runs. A region is a
collection of plain data; each set stands for the elements of a value within some larger region.
-/
namespace DynamicObjects

open Script (hooks)

structure Region (s : Store) where
  bound : Identity
  Mem : Value → Prop
  plain : Plain s bound Mem

variable {s : Store} {n : Nat} {v : Value} {xs ys : List Value}

namespace Region

instance : Preorder (Region s) where
  le G G' := G.bound ≤ G'.bound ∧ ∀ v, G.Mem v → G'.Mem v
  le_refl G := ⟨Nat.le_refl _, fun _ => id⟩
  le_trans _ _ _ first second :=
    ⟨Nat.le_trans first.1 second.1, fun v mem => second.2 v (first.2 v mem)⟩

def minted (id : Identity) : List (Value × Value) → List Value
  | [] => []
  | p :: rest => .tuple id [p.1, p.2] :: minted (id + 1) rest

theorem mem_minted {id : Identity} {pairs : List (Value × Value)} :
    v ∈ minted id pairs ↔ ∃ i p, pairs[i]? = some p ∧ v = .tuple (id + i) [p.1, p.2] := by
  induction pairs generalizing id with
  | nil => simp [minted]
  | cons p rest ih =>
    rw [minted, List.mem_cons, ih]
    constructor
    · rintro (rfl | ⟨i, q, found, rfl⟩)
      · exact ⟨0, p, rfl, rfl⟩
      · exact ⟨i + 1, q, by simpa using found, by rw [Nat.add_right_comm]; rfl⟩
    · rintro ⟨i, q, found, rfl⟩
      cases i with
      | zero =>
        obtain rfl : p = q := by simpa using found
        exact .inl rfl
      | succ i => exact .inr ⟨i, q, by simpa using found, by rw [Nat.add_right_comm]; rfl⟩

theorem pairwise_minted {R : Value → Value → Prop} {pairs : List (Value × Value)} {id : Identity}
    (h : pairs.Pairwise fun p q => ∀ i j, R (.tuple i [p.1, p.2]) (.tuple j [q.1, q.2])) :
    (minted id pairs).Pairwise R := by
  induction pairs generalizing id with
  | nil => exact .nil
  | cons p rest ih =>
    obtain ⟨first, rest⟩ := List.pairwise_cons.mp h
    refine List.pairwise_cons.mpr ⟨fun v mem => ?_, ih rest⟩
    obtain ⟨i, q, found, rfl⟩ := mem_minted.mp mem
    exact first q (List.mem_of_getElem? found) id (id + 1 + i)

theorem newTuples_apply (pairs : List (Value × Value)) (w : World) :
    (pairs.mapM fun p => Run.newTuple [p.1, p.2]) w =
      (.ok (minted w.store.nextId pairs),
        { w with store := { w.store with nextId := w.store.nextId + pairs.length } }) := by
  induction pairs generalizing w with
  | nil => rfl
  | cons p rest ih =>
    have first : Run.newTuple [p.1, p.2] w = (.ok (.tuple w.store.nextId [p.1, p.2]),
      { w with store := { w.store with nextId := w.store.nextId + 1 } }) := rfl
    rw [List.mapM_cons, Run.bind_ok first, Run.bind_ok (ih _), Run.pure_apply]
    simp only [minted, List.length_cons, Nat.add_right_comm, Nat.add_assoc]

end Region

namespace Calm

variable {bound : Identity} {w : World} (calm : Calm s bound w) (r : DictRef)

include calm

theorem keys_apply : r.keys w = (.ok (s.dict r).table.keys, w) := by
  rw [← calm.dict r]
  rfl

theorem itemTuples_apply :
    r.itemTuples w = (.ok (Region.minted w.store.nextId (s.dict r).table.pairs),
      { w with store := { w.store with
          nextId := w.store.nextId + (s.dict r).table.pairs.length } }) := by
  have read : r.pairs w = (.ok (s.dict r).table.pairs, w) := by
    rw [← calm.dict r]
    rfl
  exact (Run.bind_ok read).trans (Region.newTuples_apply _ w)

end Calm

namespace Region

theorem isSame_tuple {a : Value} {id : Identity} {items : List Value}
    (same : a.isSame (.tuple id items)) : ∃ items', a = .tuple id items' := by
  cases a <;> simp [Value.isSame] at same
  case tuple id' items' => exact ⟨items', same ▸ rfl⟩

theorem tuple_isSame {b : Value} {id : Identity} {items : List Value}
    (same : (Value.tuple id items).isSame b) : ∃ items', b = .tuple id items' := by
  cases b <;> simp [Value.isSame] at same
  case tuple id' items' => exact ⟨items', same ▸ rfl⟩

section Minting

variable (G : Region s) {id : Identity} (new : G.bound ≤ id) (pairs : List (Value × Value))

include new

theorem not_mem_of_new {i : Nat} {items : List Value} : ¬ G.Mem (.tuple (id + i) items) := by
  intro mem
  have older := G.plain.older _ _ mem
  exact Nat.lt_irrefl _ (Nat.lt_of_lt_of_le older (Nat.le_add_right_of_le new))

theorem identity_withTuples {a b : Value} (ha : G.Mem a ∨ a ∈ minted id pairs)
    (hb : G.Mem b ∨ b ∈ minted id pairs) (same : a.isSame b) : a = b := by
  rcases hb with hb | hb
  · rcases ha with ha | ha
    · exact G.plain.identity a b ha hb same
    · obtain ⟨i, p, -, rfl⟩ := mem_minted.mp ha
      obtain ⟨items, rfl⟩ := tuple_isSame same
      exact absurd hb (G.not_mem_of_new new)
  · obtain ⟨i, p, found, rfl⟩ := mem_minted.mp hb
    obtain ⟨items, rfl⟩ := isSame_tuple same
    rcases ha with ha | ha
    · exact absurd ha (G.not_mem_of_new new)
    · obtain ⟨j, q, found', made⟩ := mem_minted.mp ha
      obtain ⟨place, rfl⟩ := Value.tuple.inj made
      obtain rfl : i = j := Nat.add_left_cancel place
      obtain rfl := Option.some.inj (found.symm.trans found')
      rfl

end Minting

/-- New tuples of values of a region, with identities that the region does not use, belong to a larger
region. -/
def withTuples (G : Region s) (id : Identity) (new : G.bound ≤ id) (pairs : List (Value × Value))
    (inside : ∀ p ∈ pairs, G.Mem p.1 ∧ G.Mem p.2) : Region s where
  bound := id + pairs.length
  Mem v := G.Mem v ∨ v ∈ minted id pairs
  plain := by
    have plain := G.plain
    refine ⟨?_, ?_, fun a b => G.identity_withTuples new pairs, ?_, ?_, ?_⟩
    · rintro v (mem | mem)
      · exact plain.builtin v mem
      · obtain ⟨i, p, -, rfl⟩ := mem_minted.mp mem
        exact nofun
    · rintro v (mem | mem) x part
      · exact .inl (plain.parts v mem x part)
      · obtain ⟨i, p, found, rfl⟩ := mem_minted.mp mem
        obtain ⟨key, value⟩ := inside p (List.mem_of_getElem? found)
        rcases List.mem_cons.mp part with rfl | part
        · exact .inl key
        · exact .inl (List.mem_singleton.mp part ▸ value)
    · rintro id' items (mem | mem)
      · exact Nat.lt_of_lt_of_le (plain.older id' items mem) (Nat.le_add_right_of_le new)
      · obtain ⟨i, p, found, same⟩ := mem_minted.mp mem
        obtain ⟨rfl, -⟩ := Value.tuple.inj same
        exact Nat.add_lt_add_left (List.getElem?_eq_some_iff.mp found).1 id
    · rintro id' t (mem | mem)
      · exact plain.set id' t mem
      · obtain ⟨i, p, -, same⟩ := mem_minted.mp mem
        cases same
    · intro r mem
      refine plain.dict r ?_
      simpa [mem_minted] using mem

theorem le_withTuples (G : Region s) {id : Identity} (new : G.bound ≤ id)
    {pairs : List (Value × Value)} (inside : ∀ p ∈ pairs, G.Mem p.1 ∧ G.Mem p.2) :
    G ≤ G.withTuples id new pairs inside :=
  ⟨Nat.le_add_right_of_le new, fun _ => .inl⟩

end Region

def Copies (s : Store) (x y : Value) : Prop := s.content x = s.content y ∧ s.code? x = s.code? y

theorem Copies.near_iff {x x' y y' : Value} (hx : Copies s x x') (hy : Copies s y y') :
    Near s x y ↔ Near s x' y' := by
  have left : Alike s x x' := .of_content_eq hx.1
  have right : Alike s y y' := .of_content_eq hy.1
  rw [Near, Content.Near, Content.Near, hx.2, hy.2]
  refine and_congr_right fun _ => ?_
  exact ⟨fun alike => left.symm.trans (alike.trans right),
    fun alike => left.trans (alike.trans right.symm)⟩

theorem minted_copies (s : Store) (id : Identity) (pairs : List (Value × Value)) :
    List.Forall₂ (Copies s) (Region.minted id pairs) (pairs.map itemTuple) := by
  induction pairs generalizing id with
  | nil => exact .nil
  | cons p rest ih => exact .cons ⟨rfl, by simp [itemTuple, Store.code?]⟩ (ih (id + 1))

theorem mutual_near_iff :
    Mutual (Near s) xs ys ↔ Covers (Near s) xs ys ∧ Covers (Near s) ys xs :=
  mutual_iff_of_symm fun _ _ => Near.symm

section Copying

variable {ts us : List Value} (hx : List.Forall₂ (Copies s) ts xs)
  (hy : List.Forall₂ (Copies s) us ys)

include hx hy

theorem covers_copies_iff : Covers (Near s) ts us ↔ Covers (Near s) xs ys := by
  obtain ⟨forward, backward⟩ := Mutual.of_forall₂ hx
  obtain ⟨forward', backward'⟩ := Mutual.of_forall₂ hy
  constructor
  · intro covers
    refine ((backward.comp covers).comp forward').imp ?_
    rintro x y ⟨u, ⟨t, copies, near⟩, copies'⟩
    exact (copies.near_iff copies').mp near
  · intro covers
    refine ((forward.comp covers).comp backward').imp ?_
    rintro t u ⟨y, ⟨x, copies, near⟩, copies'⟩
    exact (copies.near_iff copies').mpr near

theorem setOrder_copies_iff (op : CompareOp) : SetOrder s op ts us ↔ SetOrder s op xs ys := by
  have forward := covers_copies_iff hx hy
  have backward := covers_copies_iff hy hx
  have both : Mutual (Near s) ts us ↔ Mutual (Near s) xs ys := by
    rw [mutual_near_iff, mutual_near_iff, forward, backward]
  cases op with
  | le => exact forward
  | ge => exact backward
  | lt => rw [SetOrder, SetOrder, hx.length_eq, hy.length_eq, forward]
  | gt => rw [SetOrder, SetOrder, hx.length_eq, hy.length_eq, backward]
  | eq => exact both
  | ne => exact not_congr both

end Copying

/-- A set in a region whose keys stand for certain elements. -/
structure StandsFor (G : Region s) (xs : List Value) (t : SetTable) : Prop where
  keyed : WellKeyed s t
  inside : ∀ key ∈ t.keys, G.Mem key
  copies : List.Forall₂ (Copies s) t.keys xs

/-- A run that makes a set which stands for certain elements, in any region from `G` on. -/
def Collects (G : Region s) (xs : List Value) (x : Run SetTable) : Prop :=
  ∀ G' : Region s, G ≤ G' → ∀ w t w', Calm s G'.bound w → x w = (.ok t, w') →
    ∃ G'' : Region s, G' ≤ G'' ∧ Calm s G''.bound w' ∧ StandsFor G'' xs t

def compareSets (h : Hooks) (op : CompareOp) (mine : Run SetTable) (b : Value) : Run Value := do
  match ← SetTable.snapshot? h b with
  | some other => return .bool (← SetTable.compare h op (← mine) other)
  | none => return .notImplemented

variable {G : Region s} {op : CompareOp}

theorem copies_refl (xs : List Value) : List.Forall₂ (Copies s) xs xs :=
  List.forall₂_same.mpr fun _ _ => ⟨rfl, rfl⟩

theorem collects_frozenSet {id : Identity} {t : SetTable} (mem : G.Mem (.frozenSet id t)) :
    Collects G t.keys (pure t) := by
  intro G' larger w t' w' calm ran
  obtain ⟨given, rfl⟩ := Prod.mk.inj ran
  obtain rfl := Outcome.ok.inj given
  refine ⟨G', le_refl G', calm, G.plain.set id t mem, fun key listed => ?_, copies_refl _⟩
  exact larger.2 key (G.plain.parts _ mem key listed)

section Views

variable (decided : EqualityDecided s n)

include decided

theorem collects_ofValues {values : List Value} (G' : Region s) (inside : ∀ v ∈ values, G'.Mem v)
    (distinct : values.Pairwise fun x y => ¬ Alike s x y)
    (copies : List.Forall₂ (Copies s) values xs) {w w' : World} {t : SetTable}
    (calm : Calm s G'.bound w) (ran : SetTable.ofValues (hooks n) values w = (.ok t, w')) :
    Calm s G'.bound w' ∧ StandsFor G' xs t := by
  obtain ⟨calm', keyed, keys⟩ :=
    SetTable.ofValues_gives decided G'.plain values inside distinct w t w' calm ran
  exact ⟨calm', keyed, keys ▸ inside, keys ▸ copies⟩

theorem collects_keys {r : DictRef} (mem : G.Mem (.dictKeys r)) :
    Collects G (s.dict r).table.keys (DictView.receiveSet (hooks n) (.dictKeys r)) := by
  intro G' larger w t w' calm ran
  have keyed := G.plain.dict r (.inr (.inl mem))
  have ran : SetTable.ofValues (hooks n) (s.dict r).table.keys w = (.ok t, w') := by
    rw [← ran]
    exact (Run.bind_ok (calm.keys_apply r)).symm
  refine ⟨G', le_refl G', collects_ofValues decided G' ?_ ?_ (copies_refl _) calm ran⟩
  · exact fun key listed => larger.2 key (G.plain.parts _ mem key listed)
  · exact List.pairwise_map.mpr keyed.distinct

theorem collects_items {r : DictRef} (mem : G.Mem (.dictItems r)) :
    Collects G ((s.dict r).table.pairs.map itemTuple)
      (DictView.receiveSet (hooks n) (.dictItems r)) := by
  intro G' larger w t w' calm ran
  have keyed := G.plain.dict r (.inr (.inr mem))
  let pairs := (s.dict r).table.pairs
  have inside : ∀ p ∈ pairs, G'.Mem p.1 ∧ G'.Mem p.2 := by
    intro p listed
    obtain ⟨e, mem', rfl⟩ := List.mem_map.mp listed
    constructor
    · exact larger.2 _ (G.plain.parts _ mem _ (List.mem_append_left _ (List.mem_map_of_mem mem')))
    · exact larger.2 _ (G.plain.parts _ mem _ (List.mem_append_right _ (List.mem_map_of_mem mem')))
  have distinct : (Region.minted w.store.nextId pairs).Pairwise fun x y => ¬ Alike s x y := by
    refine Region.pairwise_minted (List.pairwise_map.mpr (keyed.distinct.imp ?_))
    intro e e' unlike i j alike
    cases Alike.iff_matches.mp alike with
    | cons keys _ => exact unlike keys
  have ran : SetTable.ofValues (hooks n) (Region.minted w.store.nextId pairs)
      { w with store := { w.store with nextId := w.store.nextId + pairs.length } } = (.ok t, w') := by
    rw [← ran]
    exact (Run.bind_ok (calm.itemTuples_apply r)).symm
  refine ⟨G'.withTuples w.store.nextId calm.bound pairs inside, G'.le_withTuples _ _,
    collects_ofValues decided _ (fun _ => Or.inr) distinct (minted_copies s _ _) ⟨?_, ?_, ?_⟩ ran⟩
  · rw [calm.store]
  · exact Nat.le_refl _
  · exact calm.honest

theorem snapshot?_spec (mem : G.Mem v) {w w' : World} {o : Option SetTable}
    (calm : Calm s G.bound w) (ran : SetTable.snapshot? (hooks n) v w = (.ok o, w')) :
    (∃ xs t, s.content v = .elements xs ∧ o = some t ∧
      ∃ G' : Region s, G ≤ G' ∧ Calm s G'.bound w' ∧ StandsFor G' xs t) ∨
    (o = none ∧ (∀ xs, s.content v ≠ .elements xs) ∧ Calm s G.bound w') := by
  have view {xs : List Value} {x : Run SetTable} (content : s.content v = .elements xs)
      (collects : Collects G xs x) (ran : (do return some (← x)) w = (.ok o, w')) :
      ∃ xs t, s.content v = .elements xs ∧ o = some t ∧
        ∃ G' : Region s, G ≤ G' ∧ Calm s G'.bound w' ∧ StandsFor G' xs t := by
    obtain ⟨t, w₁, first, last⟩ := Run.bind_eq_ok ran
    obtain ⟨given, rfl⟩ := Prod.mk.inj last
    exact ⟨xs, t, content, (Outcome.ok.inj given).symm, collects G (le_refl G) w t w₁ calm first⟩
  cases v
  case frozenSet id t => exact .inl (view rfl (collects_frozenSet mem) ran)
  case dictKeys r =>
    refine .inl (view rfl (collects_keys decided mem) ?_)
    rw [← ran]
    exact congrFun (bind_assoc r.keys _ _) w
  case dictItems r =>
    refine .inl (view rfl (collects_items decided mem) ?_)
    rw [← ran]
    exact congrFun (bind_assoc r.itemTuples _ _) w
  all_goals
    obtain ⟨given, rfl⟩ := Prod.mk.inj ran
    exact .inr ⟨(Outcome.ok.inj given).symm, nofun, calm⟩

theorem compareSets_gives {b : Value} {mine : Run SetTable} (collects : Collects G xs mine)
    (mem : G.Mem b) :
    Run.Gives (Calm s G.bound)
      (fun v => (v = .notImplemented ∧ ∀ ys, s.content b ≠ .elements ys) ∨
        ∃ x ys, v = .bool x ∧ s.content b = .elements ys ∧ (x = true ↔ SetOrder s op xs ys))
      (compareSets (hooks n) op mine b) := by
  intro w v w' calm ran
  obtain ⟨o, w₁, taken, ran⟩ := Run.bind_eq_ok ran
  rcases snapshot?_spec decided mem calm taken with
    ⟨ys, other, content, rfl, G₁, larger, calm₁, stands⟩ | ⟨rfl, unlike, calm₁⟩
  · obtain ⟨t, w₂, made, ran⟩ := Run.bind_eq_ok ran
    obtain ⟨x, w₃, compared, last⟩ := Run.bind_eq_ok ran
    obtain ⟨G₂, larger', calm₂, stands'⟩ := collects G₁ larger w₁ t w₂ calm₁ made
    obtain ⟨calm₃, answer⟩ := SetTable.compare_gives decided G₂.plain op stands'.keyed stands.keyed
      stands'.inside (fun key mem => larger'.2 key (stands.inside key mem)) w₂ x w₃ calm₂ compared
    obtain ⟨given, rfl⟩ := Prod.mk.inj last
    have given := (Outcome.ok.inj given).symm
    refine ⟨calm₃.mono (le_trans larger larger').1, .inr ⟨x, ys, given, content, ?_⟩⟩
    rw [answer]
    exact setOrder_copies_iff stands'.copies stands.copies op
  · obtain ⟨given, rfl⟩ := Prod.mk.inj ran
    exact ⟨calm₁, .inl ⟨(Outcome.ok.inj given).symm, unlike⟩⟩

end Views

end DynamicObjects
