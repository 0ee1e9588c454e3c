import DynamicObjects.Sets.Slots
import DynamicObjects.Proofs.Equality.Calm
import Mathlib.Data.List.Pairwise

/-!
Searching in plain collections. Where equality of elements is known to be decided rightly, so are
membership, inclusion and equality of sets and dictionaries: a search among the keys under one hash
code finds what is alike under that code, and since the keys of a collection are pairwise unlike, a
comparison of sizes and a search in one direction settle the other direction too.
-/
namespace DynamicObjects

open Script (hooks)

def EqualityDecided (s : Store) (n : Nat) : Prop :=
  ∀ bound P, Plain s bound P → ∀ a b, P a → P b →
    Run.Gives (Calm s bound) (fun x => x = true ↔ Alike s a b) (Protocol.equals (hooks n) a b)

/-- Alike and under one hash code, as a search finds it. -/
abbrev Near (s : Store) : Value → Value → Prop := Content.Near s.code? (Alike s)

variable {s : Store} {bound : Identity} {P : Value → Prop} {n : Nat} {v : Value}

theorem Near.symm {x y : Value} (h : Near s x y) : Near s y x := ⟨h.1.symm, h.2.symm⟩

theorem Near.comm {x y : Value} : Near s x y ↔ Near s y x := ⟨Near.symm, Near.symm⟩

abbrev NearPair (s : Store) : Value × Value → Value × Value → Prop :=
  Content.NearPair s.code? (Alike s)

theorem NearPair.symm {p q : Value × Value} (h : NearPair s p q) : NearPair s q p :=
  ⟨Near.symm h.1, h.2.symm⟩

theorem Plain.alike_of_isSame (plain : Plain s bound P) {a b : Value} (ha : P a) (hb : P b)
    (same : a.isSame b) : Alike s a b := by
  obtain rfl := plain.identity a b ha hb same
  exact .refl a

theorem SetTable.matchesAny_eq (h : Hooks) (v : Value) (candidates : List (Nat × Value)) :
    matchesAny h v candidates = do return (← DictRef.findCandidate h v candidates).isSome := by
  induction candidates with
  | nil => rfl
  | cons c rest ih =>
    rw [matchesAny, DictRef.findCandidate]
    split
    · rfl
    · rw [bind_assoc]
      congr
      funext found
      cases found
      · exact ih
      · rfl

def FoundAmong (s : Store) (v : Value) (candidates : List (Nat × Value)) : Option Nat → Prop
  | some position => ∃ key, (position, key) ∈ candidates ∧ Alike s key v
  | none => ∀ c ∈ candidates, ¬ Alike s c.2 v

section Search

variable (decided : EqualityDecided s n) (plain : Plain s bound P)

include decided plain

theorem findCandidate_gives (mem : P v) (candidates : List (Nat × Value))
    (inside : ∀ c ∈ candidates, P c.2) :
    Run.Gives (Calm s bound) (FoundAmong s v candidates)
      (DictRef.findCandidate (hooks n) v candidates) := by
  induction candidates with
  | nil => exact Run.gives_pure nofun
  | cons c rest ih =>
    obtain ⟨position, key⟩ := c
    have first : P key := inside (position, key) List.mem_cons_self
    rw [DictRef.findCandidate]
    split
    next same =>
      exact Run.gives_pure ⟨key, List.mem_cons_self, plain.alike_of_isSame first mem same⟩
    next =>
      refine Run.gives_bind (decided bound P plain key v first mem) fun x answer => ?_
      cases x with
      | true => exact Run.gives_pure ⟨key, List.mem_cons_self, answer.mp rfl⟩
      | false =>
        have unlike : ¬ Alike s key v := fun alike => Bool.false_ne_true (answer.mpr alike)
        refine (ih fun c mem => inside c (List.mem_cons_of_mem _ mem)).imp fun found among => ?_
        cases found with
        | some p =>
          obtain ⟨key', mem', alike⟩ := among
          exact ⟨key', List.mem_cons_of_mem _ mem', alike⟩
        | none =>
          intro c mem'
          rcases List.mem_cons.mp mem' with rfl | mem'
          · exact unlike
          · exact among c mem'

end Search

/-- Where in a table a key near a value is. -/
def Locates {ν : Type} (s : Store) (t : Table Value ν) (v : Value) : Option Nat → Prop
  | some position => ∃ e, t.entry? position = some e ∧ Near s e.key v
  | none => ∀ e ∈ t.toList, ¬ Near s e.key v

section Tables

variable {ν : Type} {t : Table Value ν} {code : HashCode}

theorem WellKeyed.mem_candidates (keyed : WellKeyed s t) (hashed : s.code? v = some code)
    {position : Nat} {key : Value} : (position, key) ∈ t.candidates code ↔
      ∃ e, t.entry? position = some e ∧ e.key = key ∧ s.code? e.key = s.code? v := by
  rw [Table.mem_candidates keyed.valid]
  refine exists_congr fun e => and_congr_right fun found => ?_
  rw [keyed.coded e (Table.mem_toList_iff.mpr ⟨position, found⟩), hashed, Option.some.injEq]
  exact and_comm

theorem WellKeyed.locates (keyed : WellKeyed s t) (hashed : s.code? v = some code) {found : Option Nat}
    (among : FoundAmong s v (t.candidates code) found) : Locates s t v found := by
  cases found with
  | some position =>
    obtain ⟨key, mem, alike⟩ := among
    obtain ⟨e, found, rfl, same⟩ := (keyed.mem_candidates hashed).mp mem
    exact ⟨e, found, same, alike⟩
  | none =>
    rintro e mem ⟨same, alike⟩
    obtain ⟨position, found⟩ := Table.mem_toList_iff.mp mem
    exact among (position, e.key) ((keyed.mem_candidates hashed).mpr ⟨e, found, rfl, same⟩) alike

theorem Locates.isSome_iff {found : Option Nat} (locates : Locates s t v found) :
    found.isSome = true ↔ ∃ key ∈ t.keys, Near s key v := by
  cases found with
  | some position =>
    obtain ⟨e, found, near⟩ := locates
    have mem : e.key ∈ t.keys := List.mem_map_of_mem (Table.mem_toList_iff.mpr ⟨position, found⟩)
    simpa using ⟨e.key, mem, near⟩
  | none =>
    simp only [Option.isSome_none, Bool.false_eq_true, false_iff]
    rintro ⟨key, mem, near⟩
    obtain ⟨e, mem', rfl⟩ := List.mem_map.mp mem
    exact locates e mem' near

theorem Table.forall_mem_keys {p : Value → Prop} :
    (∀ key ∈ t.keys, p key) ↔ ∀ e ∈ t.toList, p e.key :=
  List.forall_mem_map

theorem wellKeyed_empty : WellKeyed s (.empty : Table Value ν) where
  valid := Table.valid_empty
  coded := nofun
  distinct := .nil

theorem WellKeyed.insertNew (keyed : WellKeyed s t) (hashed : s.code? v = some code)
    (new : ∀ key ∈ t.keys, ¬ Alike s key v) (value : ν) : WellKeyed s (t.insertNew code v value) := by
  refine ⟨keyed.valid.insertNew code v value, ?_, ?_⟩
  · rw [Table.toList_insertNew]
    simpa [or_imp, forall_and] using ⟨keyed.coded, hashed⟩
  · rw [Table.toList_insertNew, List.pairwise_append]
    refine ⟨keyed.distinct, List.pairwise_singleton _ _, ?_⟩
    simpa using Table.forall_mem_keys.mp new

theorem WellKeyed.length_keys (keyed : WellKeyed s t) : t.keys.length = t.size := by
  rw [Table.keys, List.length_map]
  exact keyed.valid.live.symm

theorem WellKeyed.keys_distinct (keyed : WellKeyed s t) :
    t.keys.Pairwise fun x x' => ∀ y, Near s x y → ¬ Near s x' y := by
  refine List.pairwise_map.mpr (keyed.distinct.imp fun {e e'} unlike y near near' => ?_)
  exact unlike (near.2.trans near'.2.symm)

variable (decided : EqualityDecided s n) (plain : Plain s bound P)

include decided plain

theorem WellKeyed.find_gives (keyed : WellKeyed s t) (inside : ∀ key ∈ t.keys, P key) (mem : P v)
    (hashed : s.code? v = some code) :
    Run.Gives (Calm s bound) (Locates s t v)
      (DictRef.findCandidate (hooks n) v (t.candidates code)) := by
  refine (findCandidate_gives decided plain mem _ ?_).imp fun found => keyed.locates hashed
  rintro ⟨position, key⟩ candidate
  obtain ⟨e, found, rfl, -⟩ := (keyed.mem_candidates hashed).mp candidate
  exact inside e.key (List.mem_map_of_mem (Table.mem_toList_iff.mpr ⟨position, found⟩))

end Tables

def SetOrder (s : Store) : CompareOp → List Value → List Value → Prop
  | .eq, xs, ys => Mutual (Near s) xs ys
  | .ne, xs, ys => ¬ Mutual (Near s) xs ys
  | .le, xs, ys => Covers (Near s) xs ys
  | .lt, xs, ys => xs.length < ys.length ∧ Covers (Near s) xs ys
  | .ge, xs, ys => Covers (Near s) ys xs
  | .gt, xs, ys => ys.length < xs.length ∧ Covers (Near s) ys xs

namespace SetTable

variable {t other : SetTable} {code : HashCode} (decided : EqualityDecided s n)
  (plain : Plain s bound P)

include decided plain

theorem containsHashed_gives (keyed : WellKeyed s t) (inside : ∀ key ∈ t.keys, P key) (mem : P v)
    (hashed : s.code? v = some code) :
    Run.Gives (Calm s bound) (fun x => x = true ↔ ∃ key ∈ t.keys, Near s key v)
      (containsHashed (hooks n) t code v) := by
  rw [containsHashed, matchesAny_eq]
  refine Run.gives_bind (keyed.find_gives decided plain inside mem hashed) fun found locates => ?_
  exact Run.gives_pure locates.isSome_iff

theorem containsAll_gives (keyed : WellKeyed s t) (inside : ∀ key ∈ t.keys, P key)
    (entries : List (Entry Value Unit))
    (hashed : ∀ e ∈ entries, P e.key ∧ s.code? e.key = some e.hash) :
    Run.Gives (Calm s bound)
      (fun x => x = true ↔ ∀ e ∈ entries, ∃ key ∈ t.keys, Near s key e.key)
      (containsAll (hooks n) t entries) := by
  induction entries with
  | nil => exact Run.gives_pure (by simp)
  | cons e rest ih =>
    obtain ⟨mem, code⟩ := hashed e List.mem_cons_self
    rw [containsAll]
    refine Run.gives_bind (containsHashed_gives decided plain keyed inside mem code)
      fun x answer => ?_
    cases x with
    | true =>
      refine (ih fun e mem => hashed e (List.mem_cons_of_mem _ mem)).imp fun x all => ?_
      rw [all, List.forall_mem_cons]
      exact ⟨fun rest => ⟨answer.mp rfl, rest⟩, And.right⟩
    | false =>
      refine Run.gives_pure ?_
      rw [List.forall_mem_cons]
      exact ⟨nofun, fun both => answer.mpr both.1⟩

theorem isSubset_gives (ht : WellKeyed s t) (ho : WellKeyed s other) (inside : ∀ key ∈ t.keys, P key)
    (inside' : ∀ key ∈ other.keys, P key) :
    Run.Gives (Calm s bound) (fun x => x = true ↔ Covers (Near s) t.keys other.keys)
      (isSubset (hooks n) t other) := by
  unfold isSubset
  split
  next fewer =>
    refine Run.gives_pure ⟨nofun, fun covers => ?_⟩
    have enough := covers.length_le ht.keys_distinct
    rw [ht.length_keys, ho.length_keys] at enough
    exact absurd fewer (Nat.not_lt.mpr enough)
  next =>
    refine (containsAll_gives decided plain ho inside' t.toList fun e mem =>
      ⟨inside e.key (List.mem_map_of_mem mem), ht.coded e mem⟩).imp fun x all => ?_
    rw [all, Covers, Table.forall_mem_keys]
    exact forall₂_congr fun e mem => exists_congr fun key => and_congr_right fun _ => Near.comm

theorem compare_gives (op : CompareOp) (ht : WellKeyed s t) (ho : WellKeyed s other)
    (inside : ∀ key ∈ t.keys, P key) (inside' : ∀ key ∈ other.keys, P key) :
    Run.Gives (Calm s bound) (fun x => x = true ↔ SetOrder s op t.keys other.keys)
      (compare (hooks n) op t other) := by
  have subset := isSubset_gives decided plain ht ho inside inside'
  have superset := isSubset_gives decided plain ho ht inside' inside
  have sizes := mutual_iff_covers (fun _ _ => Near.symm) ht.keys_distinct ho.keys_distinct
  rw [ht.length_keys, ho.length_keys] at sizes
  cases op with
  | le => exact subset
  | ge => exact superset
  | lt =>
    simp only [compare, SetOrder, ht.length_keys, ho.length_keys]
    split
    next less => exact subset.imp fun x answer => by simp [answer, less]
    next notLess => exact Run.gives_pure (by simp [notLess])
  | gt =>
    simp only [compare, SetOrder, ht.length_keys, ho.length_keys]
    split
    next less => exact superset.imp fun x answer => by simp [answer, less]
    next notLess => exact Run.gives_pure (by simp [notLess])
  | eq =>
    simp only [compare, SetOrder, sizes]
    split
    next same => exact subset.imp fun x answer => by simp [answer, same]
    next differ => exact Run.gives_pure (by simp [differ])
  | ne =>
    simp only [compare, SetOrder, sizes]
    split
    next same =>
      refine Run.gives_bind subset fun x answer => Run.gives_pure ?_
      simp [← answer, same]
    next differ => exact Run.gives_pure (by simp [differ])

theorem insertAll_gives (values : List Value) (keyed : WellKeyed s t)
    (inside : ∀ key ∈ t.keys ++ values, P key)
    (distinct : (t.keys ++ values).Pairwise fun x y => ¬ Alike s x y) :
    Run.Gives (Calm s bound) (fun t' => WellKeyed s t' ∧ t'.keys = t.keys ++ values)
      (insertAll (hooks n) t values) := by
  induction values generalizing t with
  | nil => exact Run.gives_pure ⟨keyed, (List.append_nil _).symm⟩
  | cons v rest ih =>
    have mem : P v := inside v (by simp)
    have new : ∀ key ∈ t.keys, ¬ Alike s key v := fun key mem =>
      (List.pairwise_append.mp distinct).2.2 key mem v List.mem_cons_self
    rw [insertAll, insert, bind_assoc]
    refine Run.gives_bind (plain.hash_gives v mem) fun code hashed => ?_
    rw [insertHashed, bind_assoc]
    refine Run.gives_bind
      (containsHashed_gives decided plain keyed (fun key mem => inside key (by simp [mem])) mem hashed)
      fun x answer => ?_
    cases x with
    | true =>
      obtain ⟨key, mem, near⟩ := answer.mp rfl
      exact absurd near.2 (new key mem)
    | false =>
      have keys : (t.insertNew code v ()).keys = t.keys ++ [v] := by
        simp [Table.keys, Table.toList_insertNew]
      refine (ih (keyed.insertNew hashed new ()) ?_ ?_).imp fun t' found => ?_
      · rwa [keys, List.append_assoc]
      · rwa [keys, List.append_assoc]
      · rw [found.2, keys, List.append_assoc]
        exact ⟨found.1, rfl⟩

theorem ofValues_gives (values : List Value) (inside : ∀ v ∈ values, P v)
    (distinct : values.Pairwise fun x y => ¬ Alike s x y) :
    Run.Gives (Calm s bound) (fun t => WellKeyed s t ∧ t.keys = values) (ofValues (hooks n) values) :=
  insertAll_gives decided plain values wellKeyed_empty inside distinct

end SetTable

theorem Calm.dict {w : World} (calm : Calm s bound w) (r : DictRef) : w.store.dict r = s.dict r := by
  rw [calm.store]
  rfl

/-- The value under a key near a given one, if there is such a key. -/
def Holds (s : Store) (t : Table Value Value) (key : Value) : Option Value → Prop
  | some value => ∃ stored, (stored, value) ∈ t.pairs ∧ Near s stored key
  | none => ∀ q ∈ t.pairs, ¬ Near s q.1 key

namespace WellKeyed

variable {t other : Table Value Value}

theorem length_pairs (keyed : WellKeyed s t) : t.pairs.length = t.size := by
  rw [Table.pairs, List.length_map]
  exact keyed.valid.live.symm

theorem pairs_distinct (keyed : WellKeyed s t) :
    t.pairs.Pairwise fun p p' => ∀ q, NearPair s p q → ¬ NearPair s p' q := by
  refine List.pairwise_map.mpr (keyed.distinct.imp fun {e e'} unlike q near near' => ?_)
  exact unlike (near.1.2.trans near'.1.2.symm)

theorem pair_unique (keyed : WellKeyed s t) {p q : Value × Value} (hp : p ∈ t.pairs) (hq : q ∈ t.pairs)
    {key : Value} (near : Near s p.1 key) (near' : Near s q.1 key) : p = q := by
  by_contra differ
  have unlike : t.pairs.Pairwise fun p q => ¬ Alike s p.1 q.1 := List.pairwise_map.mpr keyed.distinct
  have : Std.Symm fun p q : Value × Value => ¬ Alike s p.1 q.1 :=
    ⟨fun p q unlike alike => unlike alike.symm⟩
  exact unlike.forall hp hq differ (near.2.trans near'.2.symm)

end WellKeyed

namespace DictRef

theorem table_gives (r : DictRef) :
    Run.Gives (Calm s bound) (fun t => t = (s.dict r).table) r.table :=
  Run.gives_readStore fun w calm => by rw [calm.dict r]

variable {r other : DictRef} (decided : EqualityDecided s n) (plain : Plain s bound P)

include decided plain

theorem lookup_gives (keyed : WellKeyed s (s.dict r).table)
    (inside : ∀ key ∈ (s.dict r).table.keys, P key) (mem : P v) {code : HashCode} (hashed : s.code? v = some code) :
    Run.Gives (Calm s bound) (Locates s (s.dict r).table v) (lookup (hooks n) r v code) := by
  -- Nothing changes the dictionary, so the first search counts.
  have once : Run.Gives (Calm s bound)
      (fun o => ∃ found, o = some found ∧ Locates s (s.dict r).table v found)
      (lookupOnce (hooks n) r v code) := by
    refine Run.gives_bind (Run.gives_readStore
      (P := fun o => o = s.dict r) fun w calm => calm.dict r) ?_
    rintro o rfl
    refine Run.gives_bind (keyed.find_gives decided plain inside mem hashed) fun found located => ?_
    refine Run.gives_bind (Run.gives_readStore
      (P := fun version => version = (s.dict r).version) fun w calm => by rw [calm.dict r]) ?_
    rintro version rfl
    exact Run.gives_pure ⟨found, by simp, located⟩
  unfold lookup
  cases (hooks n).fuel with
  | zero =>
    refine Run.gives_bind once ?_
    rintro o ⟨found, rfl, located⟩
    exact Run.gives_pure located
  | succ retries =>
    refine Run.gives_bind once ?_
    rintro o ⟨found, rfl, located⟩
    exact Run.gives_pure located

theorem get?_gives (keyed : WellKeyed s (s.dict r).table)
    (inside : ∀ key ∈ (s.dict r).table.keys, P key) (mem : P v) :
    Run.Gives (Calm s bound) (Holds s (s.dict r).table v) (get? (hooks n) r v) := by
  refine Run.gives_bind (plain.hash_gives v mem) fun code hashed => ?_
  refine Run.gives_bind (lookup_gives decided plain keyed inside mem hashed) fun found located => ?_
  cases found with
  | some position =>
    obtain ⟨e, found, near⟩ := located
    refine Run.gives_bind (Run.gives_readStore (P := fun o => o = some e) fun w calm => ?_) ?_
    · rw [calm.dict r, found]
    · rintro o rfl
      have listed : (e.key, e.value) ∈ (s.dict r).table.pairs :=
        List.mem_map_of_mem (f := fun e => (e.key, e.value))
          (Table.mem_toList_iff.mpr ⟨position, found⟩)
      exact Run.gives_pure ⟨e.key, listed, near⟩
  | none =>
    refine Run.gives_pure fun q mem => ?_
    obtain ⟨e, mem', rfl⟩ := List.mem_map.mp mem
    exact located e mem'

theorem agrees_gives (keyed : WellKeyed s (s.dict r).table)
    (inside : ∀ q ∈ (s.dict r).table.pairs, P q.1 ∧ P q.2) (entries : List (Value × Value))
    (mem : ∀ p ∈ entries, P p.1 ∧ P p.2) :
    Run.Gives (Calm s bound)
      (fun x => x = true ↔ Covers (NearPair s) entries (s.dict r).table.pairs)
      (agrees (hooks n) r entries) := by
  have keys : ∀ key ∈ (s.dict r).table.keys, P key := by
    rw [Table.forall_mem_keys]
    exact fun e mem => (inside _ (List.mem_map_of_mem (f := fun e => (e.key, e.value)) mem)).1
  induction entries with
  | nil => exact Run.gives_pure (by simp [Covers])
  | cons p rest ih =>
    obtain ⟨key, value⟩ := p
    obtain ⟨hk, hv⟩ := mem (key, value) List.mem_cons_self
    rw [agrees]
    refine Run.gives_bind (get?_gives decided plain keyed keys hk) fun o holds => ?_
    cases o with
    | none =>
      refine Run.gives_pure ⟨nofun, fun covers => ?_⟩
      obtain ⟨q, listed, near⟩ := covers _ List.mem_cons_self
      exact absurd (Near.symm near.1) (holds q listed)
    | some theirs =>
      obtain ⟨stored, listed, near⟩ := holds
      refine Run.gives_bind (decided bound P plain value theirs hv (inside _ listed).2)
        fun x answer => ?_
      cases x with
      | true =>
        refine (ih fun p mem' => mem p (List.mem_cons_of_mem _ mem')).imp fun x all => ?_
        rw [all, Covers, Covers, List.forall_mem_cons]
        have first : NearPair s (key, value) (stored, theirs) := ⟨Near.symm near, answer.mp rfl⟩
        exact ⟨fun rest => ⟨⟨_, listed, first⟩, rest⟩, And.right⟩
      | false =>
        refine Run.gives_pure ⟨nofun, fun covers => ?_⟩
        obtain ⟨q, listed', near'⟩ := covers _ List.mem_cons_self
        obtain rfl := keyed.pair_unique listed listed' near (Near.symm near'.1)
        exact answer.mpr near'.2

/-- Two dictionaries are found equal if and only if they are alike. -/
theorem equals_gives (mem : P (.dict r)) (mem' : P (.dict other)) :
    Run.Gives (Calm s bound) (fun x => x = true ↔ Alike s (.dict r) (.dict other))
      (equals (hooks n) r other) := by
  have keyed := plain.dict r (.inl mem)
  have keyed' := plain.dict other (.inl mem')
  have inside (r : DictRef) (mem : P (.dict r)) : ∀ q ∈ (s.dict r).table.pairs, P q.1 ∧ P q.2 := by
    intro q listed
    obtain ⟨e, mem', rfl⟩ := List.mem_map.mp listed
    constructor
    · exact plain.parts _ mem _ (List.mem_append_left _ (List.mem_map_of_mem mem'))
    · exact plain.parts _ mem _ (List.mem_append_right _ (List.mem_map_of_mem mem'))
  have alike : Alike s (.dict r) (.dict other) ↔
      (s.dict r).table.pairs.length = (s.dict other).table.size ∧
        Covers (NearPair s) (s.dict r).table.pairs (s.dict other).table.pairs := by
    rw [Alike.iff_matches, ← keyed'.length_pairs]
    exact mutual_iff_covers (fun _ _ => NearPair.symm) keyed.pairs_distinct keyed'.pairs_distinct
  unfold equals
  split
  next same =>
    obtain rfl := same
    exact Run.gives_pure (by simpa using Alike.refl _)
  next =>
    rw [pairs, bind_assoc]
    refine Run.gives_bind (table_gives r) ?_
    rintro t rfl
    rw [pure_bind, size, bind_assoc]
    refine Run.gives_bind (table_gives other) ?_
    rintro t rfl
    rw [pure_bind]
    split
    next differ => exact Run.gives_pure (by simp [alike, differ])
    next same =>
      refine Run.gives_nested ?_
      refine (agrees_gives decided plain keyed' (inside other mem') _ (inside r mem)).imp ?_
      intro x all
      rw [all, alike, and_iff_right (not_not.mp same)]

end DictRef

end DynamicObjects
