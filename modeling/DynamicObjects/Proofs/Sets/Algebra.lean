import DynamicObjects.Sets.Slots
import DynamicObjects.Proofs.Dicts.Association
import DynamicObjects.Proofs.Equality.Alike
import DynamicObjects.Proofs.Runs

/-!
Sets of keys. What a set has for members is said by a predicate on keys: a table is a set of these
members if its elements are keys, pairwise unequal and each under its own hash code, and a key is equal
to one of them just when the predicate says so. Every operation takes sets of some members to a set of
others, or decides a relation between the members. So neither the order of insertion nor the sizes of
the operands can make a difference, although sizes decide which operand is searched.
-/
namespace DynamicObjects

/-- Hashing and comparing keys gives the answers of the key space, from every state in `J`. -/
structure Elements (keys : KeySpace) (h : Hooks) (J : World → Prop) : Prop where
  hash : ∀ {v}, keys.IsKey v → Run.Answers J (Protocol.hash h v) (keys.code v)
  equals : ∀ {a b}, keys.IsKey a → keys.IsKey b →
    Run.Answers J (Protocol.equals h a b) (keys.equal a b)

namespace KeySpace

variable (keys : KeySpace)

def Among (values : List Value) (x : Value) : Prop := ∃ v ∈ values, keys.equal v x = true

def Subset (M N : Value → Prop) : Prop := ∀ x, keys.IsKey x → M x → N x

def Disjoint (M N : Value → Prop) : Prop := ∀ x, keys.IsKey x → ¬ (M x ∧ N x)

/-- What the comparison operators say about the members of two sets. -/
def Ordered (M N : Value → Prop) : CompareOp → Prop
  | .eq => ∀ x, keys.IsKey x → (M x ↔ N x)
  | .ne => ¬ ∀ x, keys.IsKey x → (M x ↔ N x)
  | .le => keys.Subset M N
  | .lt => keys.Subset M N ∧ ¬ keys.Subset N M
  | .ge => keys.Subset N M
  | .gt => keys.Subset N M ∧ ¬ keys.Subset M N

/-- What the operators of sets make of the members of two sets. -/
def Combined (op : BinaryOp) (M N : Value → Prop) (x : Value) : Prop :=
  match op with
  | .or => M x ∨ N x
  | .and => M x ∧ N x
  | .xor => Xor (M x) (N x)
  | .sub => M x ∧ ¬ N x
  | _ => False

def Same (x y : Value) : Prop := keys.IsKey x ∧ keys.IsKey y ∧ keys.equal x y = true

variable {keys} {x y z : Value}

theorem Same.symm (h : keys.Same x y) : keys.Same y x :=
  ⟨h.2.1, h.1, keys.equal_symm h.1 h.2.1 h.2.2⟩

theorem Same.trans (first : keys.Same x y) (second : keys.Same y z) : keys.Same x z :=
  ⟨first.1, second.2.1, keys.equal_trans first.1 first.2.1 second.2.1 first.2.2 second.2.2⟩

theorem among_nil : keys.Among [] x ↔ False := by
  simp [Among]

theorem among_cons {v : Value} {values : List Value} :
    keys.Among (v :: values) x ↔ keys.equal v x = true ∨ keys.Among values x := by
  simp [Among]

theorem among_append {values others : List Value} :
    keys.Among (values ++ others) x ↔ keys.Among values x ∨ keys.Among others x := by
  simp [Among, or_and_right, exists_or]

theorem Among.of_same {values : List Value} (areKeys : ∀ v ∈ values, keys.IsKey v)
    (among : keys.Among values x) (same : keys.Same x y) : keys.Among values y := by
  obtain ⟨v, mem, equal⟩ := among
  have start : keys.Same v x := ⟨areKeys v mem, same.1, equal⟩
  exact ⟨v, mem, (start.trans same).2.2⟩

theorem ordered_eq_iff {M N : Value → Prop} :
    (∀ x, keys.IsKey x → (M x ↔ N x)) ↔ keys.Subset M N ∧ keys.Subset N M := by
  simp [Subset, iff_iff_implies_and_implies, imp_and, forall_and]

end KeySpace

/-- The table is a set of keys, and its members are those that `M` says. -/
structure SetOf (keys : KeySpace) (M : Value → Prop) (t : SetTable) : Prop where
  valid : t.Valid
  isKey : ∀ e ∈ t.toList, keys.IsKey e.key
  coded : ∀ e ∈ t.toList, e.hash = keys.code e.key
  distinct : t.keys.Pairwise fun a b => keys.equal a b = false
  members : ∀ x, keys.IsKey x → (keys.Among t.keys x ↔ M x)

variable {keys : KeySpace} {h : Hooks} {J : World → Prop} {M N : Value → Prop} {t other : SetTable}
  {v x y : Value}

namespace SetOf

theorem congr (s : SetOf keys M t) (same : ∀ x, keys.IsKey x → (M x ↔ N x)) : SetOf keys N t :=
  { s with members := fun x isKey => (s.members x isKey).trans (same x isKey) }

theorem entries (s : SetOf keys M t) :
    ∀ e ∈ t.toList, keys.IsKey e.key ∧ e.hash = keys.code e.key :=
  fun e there => ⟨s.isKey e there, s.coded e there⟩

theorem isKey_of_mem (s : SetOf keys M t) (mem : v ∈ t.keys) : keys.IsKey v := by
  obtain ⟨e, there, rfl⟩ := List.mem_map.mp mem
  exact s.isKey e there

theorem member_of_mem (s : SetOf keys M t) (mem : v ∈ t.keys) : M v :=
  (s.members v (s.isKey_of_mem mem)).mp ⟨v, mem, keys.equal_refl (s.isKey_of_mem mem)⟩

theorem respects (s : SetOf keys M t) (same : keys.Same x y) (member : M x) : M y := by
  have among := (s.members x same.1).mpr member
  exact (s.members y same.2.1).mp (among.of_same (fun v mem => s.isKey_of_mem mem) same)

theorem respects_iff (s : SetOf keys M t) (same : keys.Same x y) : M x ↔ M y :=
  ⟨s.respects same, s.respects same.symm⟩

theorem empty : SetOf keys (fun _ => False) .empty where
  valid := Table.valid_empty
  isKey := nofun
  coded := nofun
  distinct := .nil
  members _ _ := KeySpace.among_nil

theorem keys_insertNew (t : SetTable) (code : HashCode) (v : Value) :
    (t.insertNew code v ()).keys = t.keys ++ [v] := by
  simp [Table.keys, Table.toList_insertNew]

theorem insertNew (s : SetOf keys M t) (isKey : keys.IsKey v) (absent : ¬ M v) :
    SetOf keys (fun x => M x ∨ keys.equal v x = true) (t.insertNew (keys.code v) v ()) where
  valid := s.valid.insertNew _ v ()
  isKey := by
    rw [Table.toList_insertNew]
    simpa [or_imp, forall_and] using ⟨s.isKey, isKey⟩
  coded := by
    rw [Table.toList_insertNew]
    simpa [or_imp, forall_and] using s.coded
  distinct := by
    rw [keys_insertNew, List.pairwise_append]
    refine ⟨s.distinct, List.pairwise_singleton _ _, ?_⟩
    intro a mem b new
    obtain rfl := List.mem_singleton.mp new
    rw [Bool.eq_false_iff]
    intro equal
    exact absent ((s.members b isKey).mp ⟨a, mem, equal⟩)
  members x xKey := by
    rw [keys_insertNew, KeySpace.among_append, s.members x xKey]
    simp [KeySpace.Among]

theorem forall_iff (s : SetOf keys M t) {P : Value → Prop}
    (respects : ∀ x y, keys.Same x y → P x → P y) :
    (∀ e ∈ t.toList, P e.key) ↔ ∀ x, keys.IsKey x → M x → P x := by
  constructor
  · intro all x isKey member
    obtain ⟨v, mem, equal⟩ := (s.members x isKey).mpr member
    obtain ⟨e, there, rfl⟩ := List.mem_map.mp mem
    exact respects _ x ⟨s.isKey e there, isKey, equal⟩ (all e there)
  · intro all e there
    exact all e.key (s.isKey e there) (s.member_of_mem (List.mem_map_of_mem there))

theorem subset_iff (s : SetOf keys M t) (s' : SetOf keys N other) :
    keys.Subset M N ↔ ∀ e ∈ t.toList, N e.key :=
  (s.forall_iff fun _ _ => s'.respects).symm

theorem disjoint_iff (s : SetOf keys M t) (s' : SetOf keys N other) :
    keys.Disjoint M N ↔ ∀ e ∈ t.toList, ¬ N e.key := by
  rw [s.forall_iff (P := fun x => ¬ N x) fun x y same absent => ?_]
  · exact forall₂_congr fun x _ => not_and
  · exact fun member => absent (s'.respects same.symm member)

/-! ## Sizes -/

theorem length_keys (s : SetOf keys M t) : t.keys.length = t.size := by
  rw [Table.keys, List.length_map]
  exact s.valid.live.symm

theorem keys_distinct (s : SetOf keys M t) :
    t.keys.Pairwise fun x x' => ∀ y, keys.Same x y → ¬ keys.Same x' y := by
  refine s.distinct.imp fun {a b} differs y same same' => ?_
  have equal := (same.trans same'.symm).2.2
  simp [differs] at equal

theorem covers_iff (s : SetOf keys M t) (s' : SetOf keys N other) :
    Covers keys.Same t.keys other.keys ↔ keys.Subset M N := by
  rw [s.subset_iff s', Covers, Table.keys, List.forall_mem_map]
  refine forall₂_congr fun e there => ?_
  rw [← s'.members e.key (s.isKey e there)]
  refine exists_congr fun y => and_congr_right fun mem => ?_
  exact ⟨fun same => same.symm.2.2, fun equal =>
    KeySpace.Same.symm ⟨s'.isKey_of_mem mem, s.isKey e there, equal⟩⟩

theorem size_le (s : SetOf keys M t) (s' : SetOf keys N other) (subset : keys.Subset M N) :
    t.size ≤ other.size := by
  rw [← s.length_keys, ← s'.length_keys]
  exact ((s.covers_iff s').mpr subset).length_le s.keys_distinct

theorem superset_iff_size_le (s : SetOf keys M t) (s' : SetOf keys N other)
    (subset : keys.Subset M N) : keys.Subset N M ↔ other.size ≤ t.size := by
  refine ⟨s'.size_le s, fun few => ?_⟩
  rw [← s.length_keys, ← s'.length_keys] at few
  have covers := (s.covers_iff s').mpr subset
  refine (s'.covers_iff s).mp ((covers.symm_of_length_le s.keys_distinct few).imp ?_)
  exact fun y x same => same.symm

end SetOf

namespace Elements

variable (elements : Elements keys h J)

include elements

/-! ## Searching and inserting -/

theorem matchesAny_yields (isKey : keys.IsKey v) (candidates : List (Nat × Value))
    (areKeys : ∀ c ∈ candidates, keys.IsKey c.2) :
    Run.Yields J (fun found => found = true ↔ keys.Among (candidates.map Prod.snd) v)
      (SetTable.matchesAny h v candidates) := by
  induction candidates with
  | nil => exact Run.yields_pure (by simp [KeySpace.Among])
  | cons c rest ih =>
    obtain ⟨position, stored⟩ := c
    have storedKey : keys.IsKey stored := areKeys (position, stored) List.mem_cons_self
    have others := ih fun c mem => areKeys c (List.mem_cons_of_mem _ mem)
    simp only [List.map_cons, KeySpace.among_cons]
    have compared : Run.Yields J (fun found => found = true ↔ keys.equal stored v = true ∨
        keys.Among (rest.map Prod.snd) v) (do
          if ← Protocol.equals h stored v then return true else SetTable.matchesAny h v rest) := by
      refine Run.yields_bind (elements.equals storedKey isKey).yields fun equal answer => ?_
      subst answer
      cases keys.equal stored v with
      | true => exact Run.yields_pure (by simp)
      | false => simpa using others
    rw [SetTable.matchesAny]
    split
    next same =>
      -- one and the same object is equal to itself, whatever the key space says
      intro w inside
      obtain ⟨w', answered, -⟩ := elements.equals storedKey isKey w inside
      rw [Protocol.equals, if_pos same] at answered
      have equal : keys.equal stored v = true := (Outcome.ok.inj (Prod.mk.inj answered).1).symm
      exact ⟨true, w, rfl, inside, by simp [equal]⟩
    next => exact compared

theorem containsHashed_yields (s : SetOf keys M t) (isKey : keys.IsKey v) :
    Run.Yields J (fun found => found = true ↔ M v)
      (SetTable.containsHashed h t (keys.code v) v) := by
  have candidate {position : Nat} {key : Value} :
      (position, key) ∈ t.candidates (keys.code v) ↔
        ∃ e, t.entry? position = some e ∧ e.hash = keys.code v ∧ e.key = key :=
    Table.mem_candidates s.valid
  refine (elements.matchesAny_yields isKey _ ?_).imp fun found answer => ?_
  · rintro ⟨position, key⟩ mem
    obtain ⟨e, entry, -, rfl⟩ := candidate.mp mem
    exact s.isKey e (Table.mem_toList_iff.mpr ⟨position, entry⟩)
  · rw [answer, ← s.members v isKey]
    constructor
    · rintro ⟨key, mem, equal⟩
      obtain ⟨⟨position, key⟩, there, rfl⟩ := List.mem_map.mp mem
      obtain ⟨e, entry, -, rfl⟩ := candidate.mp there
      exact ⟨e.key, List.mem_map_of_mem (Table.mem_toList_iff.mpr ⟨position, entry⟩), equal⟩
    · rintro ⟨key, mem, equal⟩
      obtain ⟨e, there, rfl⟩ := List.mem_map.mp mem
      obtain ⟨position, entry⟩ := Table.mem_toList_iff.mp there
      have code : e.hash = keys.code v :=
        (s.coded e there).trans (keys.code_eq (s.isKey e there) isKey equal)
      exact ⟨e.key, List.mem_map_of_mem (candidate.mpr ⟨e, entry, code, rfl⟩), equal⟩

theorem contains_yields (s : SetOf keys M t) (isKey : keys.IsKey v) :
    Run.Yields J (fun found => found = true ↔ M v) (SetTable.contains h t v) := by
  refine Run.yields_bind (elements.hash isKey).yields fun code answer => ?_
  subst answer
  exact elements.containsHashed_yields s isKey

theorem insertHashed_yields (s : SetOf keys M t) (isKey : keys.IsKey v) :
    Run.Yields J (SetOf keys fun x => M x ∨ keys.equal v x = true)
      (SetTable.insertHashed h t (keys.code v) v) := by
  refine Run.yields_bind (elements.containsHashed_yields s isKey) fun found answer => ?_
  cases found with
  | true =>
    refine Run.yields_pure (s.congr fun x xKey => ⟨.inl, ?_⟩)
    rintro (member | equal)
    · exact member
    · exact s.respects ⟨isKey, xKey, equal⟩ (answer.mp rfl)
  | false => exact Run.yields_pure (s.insertNew isKey fun member => nomatch answer.mpr member)

theorem insertAll_yields (values : List Value) (areKeys : ∀ v ∈ values, keys.IsKey v)
    (s : SetOf keys M t) :
    Run.Yields J (SetOf keys fun x => M x ∨ keys.Among values x) (SetTable.insertAll h t values) := by
  induction values generalizing M t with
  | nil => exact Run.yields_pure (s.congr fun x _ => by simp [KeySpace.among_nil])
  | cons v rest ih =>
    have isKey := areKeys v List.mem_cons_self
    rw [SetTable.insertAll, SetTable.insert, bind_assoc]
    refine Run.yields_bind (elements.hash isKey).yields fun code answer => ?_
    subst answer
    refine Run.yields_bind (elements.insertHashed_yields s isKey) fun t' s' => ?_
    refine (ih (fun v mem => areKeys v (List.mem_cons_of_mem _ mem)) s').imp fun _ done => ?_
    exact done.congr fun x _ => by rw [KeySpace.among_cons, or_assoc]

theorem ofValues_yields (values : List Value) (areKeys : ∀ v ∈ values, keys.IsKey v) :
    Run.Yields J (SetOf keys (keys.Among values)) (SetTable.ofValues h values) :=
  (elements.insertAll_yields values areKeys .empty).imp fun _ s => s.congr fun x _ => by simp

/-! ## Algebra -/

theorem addEntries_yields (entries : List (Entry Value Unit))
    (coded : ∀ e ∈ entries, keys.IsKey e.key ∧ e.hash = keys.code e.key) (s : SetOf keys M t) :
    Run.Yields J (SetOf keys fun x => M x ∨ keys.Among (entries.map Entry.key) x)
      (SetTable.addEntries h t entries) := by
  induction entries generalizing M t with
  | nil => exact Run.yields_pure (s.congr fun x _ => by simp [KeySpace.among_nil])
  | cons e rest ih =>
    obtain ⟨isKey, code⟩ := coded e List.mem_cons_self
    rw [SetTable.addEntries, code]
    refine Run.yields_bind (elements.insertHashed_yields s isKey) fun t' s' => ?_
    refine (ih (fun e mem => coded e (List.mem_cons_of_mem _ mem)) s').imp fun _ done => ?_
    exact done.congr fun x _ => by rw [List.map_cons, KeySpace.among_cons, or_assoc]

theorem addFiltered_yields (s' : SetOf keys N other) (keep : Bool)
    (entries : List (Entry Value Unit))
    (coded : ∀ e ∈ entries, keys.IsKey e.key ∧ e.hash = keys.code e.key) (s : SetOf keys M t) :
    Run.Yields J
      (SetOf keys fun x => M x ∨ keys.Among (entries.map Entry.key) x ∧ (N x ↔ keep = true))
      (SetTable.addFiltered h other keep t entries) := by
  induction entries generalizing M t with
  | nil => exact Run.yields_pure (s.congr fun x _ => by simp [KeySpace.among_nil])
  | cons e rest ih =>
    obtain ⟨isKey, code⟩ := coded e List.mem_cons_self
    have others {M : Value → Prop} {t : SetTable} (s : SetOf keys M t) :=
      ih (fun e mem => coded e (List.mem_cons_of_mem _ mem)) s
    -- an equal key has the same fate
    have alike {x : Value} (xKey : keys.IsKey x) (equal : keys.equal e.key x = true) : N e.key ↔ N x :=
      s'.respects_iff ⟨isKey, xKey, equal⟩
    rw [SetTable.addFiltered, code]
    refine Run.yields_bind (elements.containsHashed_yields s' isKey) fun found answer => ?_
    split
    next kept =>
      subst kept
      refine Run.yields_bind (elements.insertHashed_yields s isKey) fun t' s' => ?_
      refine (others s').imp fun _ done => done.congr fun x xKey => ?_
      rw [List.map_cons, KeySpace.among_cons, or_assoc, or_and_right]
      refine or_congr_right (or_congr_left (iff_self_and.mpr fun equal => ?_))
      rw [← alike xKey equal, answer]
    next dropped =>
      refine (others s).imp fun _ done => done.congr fun x xKey => ?_
      rw [List.map_cons, KeySpace.among_cons, or_and_right]
      refine or_congr_right (iff_or_self.mpr ?_)
      rintro ⟨equal, fits⟩
      rw [← alike xKey equal, ← answer, ← Bool.eq_iff_iff] at fits
      exact absurd fits dropped

theorem containsAll_yields (s : SetOf keys M t) (entries : List (Entry Value Unit))
    (coded : ∀ e ∈ entries, keys.IsKey e.key ∧ e.hash = keys.code e.key) :
    Run.Yields J (fun answer => answer = true ↔ ∀ e ∈ entries, M e.key)
      (SetTable.containsAll h t entries) := by
  induction entries with
  | nil => exact Run.yields_pure (by simp)
  | cons e rest ih =>
    obtain ⟨isKey, code⟩ := coded e List.mem_cons_self
    rw [SetTable.containsAll, code]
    refine Run.yields_bind (elements.containsHashed_yields s isKey) fun found right => ?_
    cases found with
    | true =>
      refine (ih fun e mem => coded e (List.mem_cons_of_mem _ mem)).imp fun answer all => ?_
      rw [all, List.forall_mem_cons]
      exact ⟨fun rest => ⟨right.mp rfl, rest⟩, And.right⟩
    | false =>
      refine Run.yields_pure ?_
      rw [List.forall_mem_cons]
      exact ⟨nofun, fun both => right.mpr both.1⟩

theorem containsNone_yields (s : SetOf keys M t) (entries : List (Entry Value Unit))
    (coded : ∀ e ∈ entries, keys.IsKey e.key ∧ e.hash = keys.code e.key) :
    Run.Yields J (fun answer => answer = true ↔ ∀ e ∈ entries, ¬ M e.key)
      (SetTable.containsNone h t entries) := by
  induction entries with
  | nil => exact Run.yields_pure (by simp)
  | cons e rest ih =>
    obtain ⟨isKey, code⟩ := coded e List.mem_cons_self
    rw [SetTable.containsNone, code]
    refine Run.yields_bind (elements.containsHashed_yields s isKey) fun found right => ?_
    cases found with
    | true =>
      refine Run.yields_pure ?_
      rw [List.forall_mem_cons]
      exact ⟨nofun, fun both => absurd (right.mp rfl) both.1⟩
    | false =>
      refine (ih fun e mem => coded e (List.mem_cons_of_mem _ mem)).imp fun answer none => ?_
      have absent : ¬ M e.key := fun member => nomatch right.mpr member
      rw [none, List.forall_mem_cons]
      exact ⟨fun rest => ⟨absent, rest⟩, And.right⟩

section Operations

variable (s : SetOf keys M t) (s' : SetOf keys N other)

include s s'

theorem filtered_yields (keep : Bool) :
    Run.Yields J (SetOf keys fun x => M x ∧ (N x ↔ keep = true))
      (SetTable.filtered h t other keep) := by
  refine (elements.addFiltered_yields s' keep _ s.entries .empty).imp fun _ done => ?_
  exact done.congr fun x xKey => by rw [false_or, ← s.members x xKey]; rfl

theorem union_yields :
    Run.Yields J (SetOf keys fun x => M x ∨ N x) (SetTable.union h t other) := by
  refine (elements.addEntries_yields _ s'.entries s).imp fun _ done => ?_
  exact done.congr fun x xKey => by rw [← s'.members x xKey]; rfl

theorem intersection_yields :
    Run.Yields J (SetOf keys fun x => M x ∧ N x) (SetTable.intersection h t other) := by
  unfold SetTable.intersection
  split
  · refine (elements.filtered_yields s s' true).imp fun _ done => ?_
    exact done.congr fun x _ => by simp
  · refine (elements.filtered_yields s' s true).imp fun _ done => ?_
    exact done.congr fun x _ => by simp [and_comm]

theorem difference_yields :
    Run.Yields J (SetOf keys fun x => M x ∧ ¬ N x) (SetTable.difference h t other) := by
  refine (elements.filtered_yields s s' false).imp fun _ done => ?_
  exact done.congr fun x _ => by simp

theorem symmetricDifference_yields :
    Run.Yields J (SetOf keys fun x => Xor (M x) (N x)) (SetTable.symmetricDifference h t other) := by
  refine Run.yields_bind (elements.filtered_yields s s' false) fun t' own => ?_
  refine (elements.addFiltered_yields s false _ s'.entries own).imp fun _ done => ?_
  refine done.congr fun x xKey => ?_
  rw [← Table.keys, s'.members x xKey]
  simp [Xor]

theorem algebra_yields {op : BinaryOp} (known : SetTable.isSetOperator op = true) :
    Run.Yields J (fun answer => ∃ t', answer = some t' ∧ SetOf keys (KeySpace.Combined op M N) t')
      (SetTable.algebra h op t other) := by
  cases op with
  | or => exact Run.yields_bind (elements.union_yields s s') fun t' s => Run.yields_pure ⟨t', rfl, s⟩
  | and =>
    exact Run.yields_bind (elements.intersection_yields s s') fun t' s => Run.yields_pure ⟨t', rfl, s⟩
  | xor =>
    refine Run.yields_bind (elements.symmetricDifference_yields s s') fun t' s => ?_
    exact Run.yields_pure ⟨t', rfl, s⟩
  | sub =>
    exact Run.yields_bind (elements.difference_yields s s') fun t' s => Run.yields_pure ⟨t', rfl, s⟩
  | add | mul | trueDiv | floorDiv | mod | pow | shiftLeft | shiftRight | matMul => cases known

/-! ## Comparison -/

theorem isSubset_yields :
    Run.Yields J (fun answer => answer = true ↔ keys.Subset M N) (SetTable.isSubset h t other) := by
  unfold SetTable.isSubset
  split
  next fewer =>
    refine Run.yields_pure (iff_of_false Bool.false_ne_true fun subset => ?_)
    exact absurd fewer (Nat.not_lt.mpr (s.size_le s' subset))
  next =>
    refine (elements.containsAll_yields s' _ s.entries).imp fun answer all => ?_
    rw [all, s.subset_iff s']

theorem isDisjoint_yields :
    Run.Yields J (fun answer => answer = true ↔ keys.Disjoint M N)
      (SetTable.isDisjoint h t other) := by
  unfold SetTable.isDisjoint
  split
  · refine (elements.containsNone_yields s' _ s.entries).imp fun answer none => ?_
    rw [none, s.disjoint_iff s']
  · refine (elements.containsNone_yields s _ s'.entries).imp fun answer none => ?_
    rw [none, ← s'.disjoint_iff s]
    exact forall₂_congr fun x _ => not_congr and_comm

theorem compare_yields (op : CompareOp) :
    Run.Yields J (fun answer => answer = true ↔ keys.Ordered M N op)
      (SetTable.compare h op t other) := by
  have subset := elements.isSubset_yields s s'
  have superset := elements.isSubset_yields s' s
  have whole := s.superset_iff_size_le s'
  have whole' := s'.superset_iff_size_le s
  have equal : (∀ x, keys.IsKey x → (M x ↔ N x)) ↔ t.size = other.size ∧ keys.Subset M N := by
    rw [KeySpace.ordered_eq_iff]
    constructor
    · rintro ⟨inside, around⟩
      exact ⟨Nat.le_antisymm (s.size_le s' inside) (s'.size_le s around), inside⟩
    · rintro ⟨sizes, inside⟩
      exact ⟨inside, (whole inside).mpr sizes.ge⟩
  cases op with
  | le => exact subset
  | ge => exact superset
  | lt =>
    simp only [SetTable.compare, KeySpace.Ordered]
    split
    next less =>
      refine subset.imp fun answer right => right.trans (iff_self_and.mpr fun inside => ?_)
      rw [whole inside]
      exact Nat.not_le.mpr less
    next notLess =>
      refine Run.yields_pure (iff_of_false Bool.false_ne_true ?_)
      rintro ⟨inside, proper⟩
      exact absurd ((whole inside).mpr (Nat.not_lt.mp notLess)) proper
  | gt =>
    simp only [SetTable.compare, KeySpace.Ordered]
    split
    next less =>
      refine superset.imp fun answer right => right.trans (iff_self_and.mpr fun inside => ?_)
      rw [whole' inside]
      exact Nat.not_le.mpr less
    next notLess =>
      refine Run.yields_pure (iff_of_false Bool.false_ne_true ?_)
      rintro ⟨inside, proper⟩
      exact absurd ((whole' inside).mpr (Nat.not_lt.mp notLess)) proper
  | eq =>
    simp only [SetTable.compare, KeySpace.Ordered, equal]
    split
    next same => exact subset.imp fun answer right => by simp [right, same]
    next differ => exact Run.yields_pure (by simp [differ])
  | ne =>
    simp only [SetTable.compare, KeySpace.Ordered, equal]
    split
    next same =>
      refine Run.yields_bind subset fun answer right => Run.yields_pure ?_
      simp [← right, same]
    next differ => exact Run.yields_pure (by simp [differ])

end Operations

end Elements

/-! ## Laws -/

/-- What the operations give for two sets, as far as it can be said by their members. -/
structure SetLaws (keys : KeySpace) (h : Hooks) (J : World → Prop) (M N : Value → Prop)
    (t other : SetTable) : Prop where
  contains : ∀ x, keys.IsKey x →
    Run.Yields J (fun answer => answer = true ↔ M x) (SetTable.contains h t x)
  union : Run.Yields J (SetOf keys fun x => M x ∨ N x) (SetTable.union h t other)
  intersection : Run.Yields J (SetOf keys fun x => M x ∧ N x) (SetTable.intersection h t other)
  difference : Run.Yields J (SetOf keys fun x => M x ∧ ¬ N x) (SetTable.difference h t other)
  symmetricDifference :
    Run.Yields J (SetOf keys fun x => Xor (M x) (N x)) (SetTable.symmetricDifference h t other)
  isSubset :
    Run.Yields J (fun answer => answer = true ↔ keys.Subset M N) (SetTable.isSubset h t other)
  isDisjoint :
    Run.Yields J (fun answer => answer = true ↔ keys.Disjoint M N) (SetTable.isDisjoint h t other)
  compare : ∀ op,
    Run.Yields J (fun answer => answer = true ↔ keys.Ordered M N op) (SetTable.compare h op t other)

theorem Elements.laws (elements : Elements keys h J) (s : SetOf keys M t) (s' : SetOf keys N other) :
    SetLaws keys h J M N t other where
  contains _ isKey := elements.contains_yields s isKey
  union := elements.union_yields s s'
  intersection := elements.intersection_yields s s'
  difference := elements.difference_yields s s'
  symmetricDifference := elements.symmetricDifference_yields s s'
  isSubset := elements.isSubset_yields s s'
  isDisjoint := elements.isDisjoint_yields s s'
  compare := elements.compare_yields s s'

end DynamicObjects
