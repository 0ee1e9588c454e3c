import DynamicObjects.Proofs.Termination.Walks

/-!
Comparisons of built-in data come to an end, on cyclic data too. Lists, tuples and dictionaries use a
level when they look inside, and there are only so many levels. Sets and views use none: sets hold
their elements directly, and the elements of both can be hashed, so that they are smaller values or
tuples, and no views.
-/
namespace DynamicObjects

open Script (hooks)
open Run

variable {s : Store} {P : Value → Prop} {levels n : Nat} {a b v : Value}

section Hashing

theorem slotHash_halts {k : Kind} (builtin : v.typeKey = .builtin k)
    (refuses : ∀ slot, k.slot? .hash = some slot → slot = unhashableSlot) :
    Halts s levels (fun _ => True) (Protocol.slotHash (hooks (n + 1)) v) := by
  have steady := steady_ready s levels
  cases found : k.slot? .hash with
  | none => exact steady.slotHash_finishes 0 builtin found
  | some slot =>
    obtain rfl := refuses slot found
    unfold Protocol.slotHash
    rw [builtin]
    refine finishes_bind (steady.resolve_finishes 0 (n + 1) .hash k) ?_
    rintro t ⟨op, key, target⟩
    have runs : t.target = .builtin := by rw [target, Kind.hasSlot, found]; rfl
    rw [if_neg (by simp [Thunk.isMissing, runs])]
    refine finishes_bind (P := fun _ => True) ?_ fun answer _ => ?_
    · refine steady.callThunk_finishes 0 (fun _ _ _ => ?_) fun _ _ _ _ _ => trivial
      simp only [Protocol.runTarget, runs, key, op, hooks, found]
      exact finishes_bind (finishes_typeName _) fun _ _ => finishes_raise trivial
    · split
      · exact finishes_pure trivial
      · exact finishes_pure trivial
      · exact finishes_raise trivial

namespace BuiltinData

mutual

theorem hash_halts (data : BuiltinData s P) (levels n : Nat) (v : Value) (made : Made s P v) :
    Halts s levels (fun _ => True) (Protocol.hash (hooks (n + 1)) v) := by
  cases v
  case tuple id items =>
    unfold Protocol.hash
    refine halts_nested fun below _ => ?_
    exact finishes_bind (data.hashAll_halts below n items made.contained)
      fun _ _ => finishes_pure trivial
  case object id number payload => exact absurd rfl made.builtin
  case list | dict | byteArray | dictKeys | dictItems | slice =>
    unfold Protocol.hash
    refine slotHash_halts rfl ?_
    rintro slot ⟨⟩
    rfl
  case native | dictValues =>
    unfold Protocol.hash
    refine slotHash_halts rfl ?_
    rintro slot ⟨⟩
  all_goals
    unfold Protocol.hash
    exact finishes_pure trivial

theorem hashAll_halts (data : BuiltinData s P) (levels n : Nat) (items : List Value) (mem : ∀ v ∈ items, P v) :
    Halts s levels (fun _ => True) (Protocol.hashAll (hooks (n + 1)) items) := by
  cases items with
  | nil =>
    unfold Protocol.hashAll
    exact finishes_pure trivial
  | cons v rest =>
    unfold Protocol.hashAll
    refine finishes_bind (data.hash_halts levels n v (data.made (mem v List.mem_cons_self)))
      fun code _ => ?_
    refine finishes_bind (data.hashAll_halts levels n rest fun v inside =>
      mem v (List.mem_cons_of_mem _ inside)) fun codes _ => ?_
    exact finishes_pure trivial

end

end BuiltinData

end Hashing

/-- Asked how they compare, two values get an answer or an error. -/
structure Compares (s : Store) (levels n : Nat) (a b : Value) : Prop where
  equals : Halts s levels (fun _ => True) (Protocol.equals (hooks n) a b)
  compare : ∀ op, Halts s levels (fun v => ∃ x, v = .bool x) (Protocol.compare (hooks n) op a b)

theorem Compares.compareBool (h : Compares s levels n a b) (op : CompareOp) :
    Halts s levels (fun _ => True) (Protocol.compareBool (hooks n) op a b) := by
  refine finishes_bind (h.compare op) ?_
  rintro v ⟨x, rfl⟩
  exact finishes_pure trivial

theorem compareElements_halts (op : CompareOp) {xs ys : List Value}
    (pairs : ∀ x ∈ xs, ∀ y ∈ ys, Compares s levels n x y) :
    Halts s levels (fun _ => True) (Protocol.compareElements (hooks n) op xs ys) :=
  compareElements_finishes op (fun x mem y mem' => (pairs x mem y mem').equals)
    fun _ _ x mem y mem' => (pairs x mem y mem').compareBool op

/-- The elements of what acts as a set; for items, up to the identity of the tuples. -/
def Store.elements (s : Store) : Value → List Value
  | .frozenSet _ t => t.keys
  | .dictKeys r => (s.dict r).table.keys
  | .dictItems r => (s.dict r).table.pairs.map itemTuple
  | _ => []

/-- An element as a set that is made from the value may hold it. -/
def Store.Element (s : Store) (v x : Value) : Prop := ∃ y ∈ s.elements v, Retags y x

theorem itemTuples_halts (r : DictRef) :
    Halts s levels (fun values => ∀ x ∈ values, s.Element (.dictItems r) x) r.itemTuples := by
  refine ((steady_ready s levels).itemTuples_finishes 0 (fun ready => ready.1) r).imp ?_
  exact fun values retags x => exists_of_retagged retags

/-- The elements of a value can be put into a set. -/
structure Gathers (s : Store) (levels n : Nat) (v : Value) : Prop where
  hashes : ∀ x, s.Element v x → Halts s levels (fun _ => True) (Protocol.hash (hooks n) x)
  pairs : ∀ x y, s.Element v x → s.Element v y → Compares s levels n x y

theorem Gathers.ofValues_halts (gathers : Gathers s levels n v) {values : List Value}
    (inside : ∀ x ∈ values, s.Element v x) :
    Halts s levels (fun made => ∀ key ∈ made.keys, s.Element v key)
      (SetTable.ofValues (hooks n) values) :=
  insertAll_finishes gathers.hashes (fun x y mem mem' => (gathers.pairs x y mem mem').equals) values
    inside nofun

theorem keys_halts (r : DictRef) :
    Halts s levels (fun keys => ∀ x ∈ keys, s.Element (.dictKeys r) x) r.keys := by
  refine (keys_finishes (fun ready => ready.1) r).imp ?_
  rintro _ rfl x listed
  exact ⟨x, listed, .refl x⟩

theorem snapshot?_halts (gathers : v.kind ≠ .frozenSet → Gathers s levels n v) :
    Halts s levels (fun made => ∀ t, made = some t → ∀ key ∈ t.keys, s.Element v key)
      (SetTable.snapshot? (hooks n) v) := by
  cases v
  case frozenSet id t =>
    refine finishes_pure ?_
    rintro _ ⟨⟩ key listed
    exact ⟨key, listed, .inl rfl⟩
  case dictKeys r =>
    refine finishes_bind (keys_halts r) fun keys inside => ?_
    refine finishes_map (((gathers nofun).ofValues_halts inside).imp fun made elements => ?_)
    rintro _ ⟨⟩
    exact elements
  case dictItems r =>
    refine finishes_bind (itemTuples_halts r) fun items inside => ?_
    refine finishes_map (((gathers nofun).ofValues_halts inside).imp fun made elements => ?_)
    rintro _ ⟨⟩
    exact elements
  all_goals exact finishes_pure nofun

/-- Two values that act as sets can be read as such and their elements compared. -/
structure SetsCompare (s : Store) (levels n : Nat) (a b : Value) : Prop where
  left : a.kind ≠ .frozenSet → Gathers s levels n a
  right : b.kind ≠ .frozenSet → Gathers s levels n b
  across : ∀ x y, s.Element a x → s.Element b y → Compares s levels n x y ∧ Compares s levels n y x

def IsAnswer (v : Value) : Prop := v = .notImplemented ∨ ∃ x, v = .bool x

theorem halts_bool {y : Run Bool} (hy : Halts s levels (fun _ => True) y) (f : Bool → Bool) :
    Halts s levels IsAnswer (do return .bool (f (← y))) :=
  finishes_bind hy fun x _ => finishes_pure (.inr ⟨f x, rfl⟩)

theorem halts_declined : Halts s levels IsAnswer (Pure.pure .notImplemented) :=
  finishes_pure (.inl rfl)

theorem compareSets_halts {mine : Run SetTable} (op : CompareOp)
    (reads : Halts s levels (fun t => ∀ key ∈ t.keys, s.Element a key) mine)
    (sets : SetsCompare s levels n a b) : Halts s levels IsAnswer (compareSets (hooks n) op mine b) := by
  refine finishes_bind (snapshot?_halts sets.right) fun made theirs => ?_
  cases made with
  | none => exact halts_declined
  | some other =>
    refine finishes_bind reads fun t ours => ?_
    refine halts_bool (setCompare_finishes op fun x mem y mem' => ?_) id
    have across := sets.across x y (ours x mem) (theirs other rfl y mem')
    exact ⟨across.1.equals, across.2.equals⟩

/-- Nothing is read if the other value does not act as a set. -/
theorem compareSets_declines {mine : Run SetTable} (op : CompareOp) (other : Store.isSetLike b = false) :
    Halts s levels IsAnswer (compareSets (hooks n) op mine b) := by
  have none : SetTable.snapshot? (hooks n) b = Pure.pure none := by
    cases b <;> first | rfl | cases other
  unfold compareSets
  rw [none]
  exact halts_declined

theorem items_halts (r : ListRef) :
    Halts s levels (fun items => items = (s.list r).buffer.toList) r.items := by
  refine finishes_readStore fun w ready => ?_
  rw [ready.1.store]
  rfl

def Deep (s : Store) (levels n : Nat) (xs : List Value) : Prop :=
  ∀ below, levels = below + 1 → ∀ x ∈ xs, ∀ y ∈ xs, Compares s below n x y

theorem Deep.swap {xs ys : List Value} (deep : Deep s levels n (xs ++ ys)) :
    Deep s levels n (ys ++ xs) := by
  have among : ∀ x ∈ ys ++ xs, x ∈ xs ++ ys := by
    intro x mem
    rw [List.mem_append, or_comm, ← List.mem_append]
    exact mem
  exact fun below same x mem y mem' => deep below same x (among x mem) y (among y mem')

theorem SetsCompare.symm (sets : SetsCompare s levels n a b) : SetsCompare s levels n b a :=
  ⟨sets.right, sets.left, fun x y mem mem' => (sets.across y x mem' mem).symm⟩

section Slots

variable (data : BuiltinData s P) (inside : ∀ x ∈ s.parts a, P x)
  (deep : Deep s levels (n + 1) (s.parts a ++ s.parts b))

include deep

theorem tupleSlot_halts (op : CompareOp) {own : Identity} {items : List Value}
    (tuple : a = .tuple own items) :
    Halts s levels IsAnswer (Tuple.compareSlot op (hooks (n + 1)) [a, b]) := by
  subst tuple
  cases b
  case tuple _ other =>
    refine halts_bool (halts_nested fun below same => ?_) id
    exact compareElements_halts op fun x mem y mem' =>
      deep below same x (List.mem_append_left _ mem) y (List.mem_append_right _ mem')
  all_goals exact halts_declined

theorem listSlot_halts (op : CompareOp) {r : ListRef} (list : a = .list r) :
    Halts s levels IsAnswer (ListRef.compareSlot op (hooks (n + 1)) [a, b]) := by
  subst list
  cases b
  case list other =>
    have pairs : ∀ below, levels = below + 1 → ∀ x ∈ (s.list r).buffer.toList,
        ∀ y ∈ (s.list other).buffer.toList, Compares s below (n + 1) x y :=
      fun below same x mem y mem' =>
        deep below same x (List.mem_append_left _ mem) y (List.mem_append_right _ mem')
    have equals : Halts s levels (fun _ => True) (r.equals (hooks (n + 1)) other) := by
      unfold ListRef.equals
      split
      · exact finishes_pure trivial
      refine finishes_bind (items_halts r) ?_
      rintro _ rfl
      refine finishes_bind (items_halts other) ?_
      rintro _ rfl
      split
      · exact finishes_pure trivial
      · exact halts_nested fun below same => equalElements_finishes fun x mem y mem' =>
          (pairs below same x mem y mem').equals
    have ordered : Halts s levels (fun _ => True) (do
        let left ← r.items
        let right ← other.items
        Run.nested (Protocol.compareElements (hooks (n + 1)) op left right)) := by
      refine finishes_bind (items_halts r) ?_
      rintro _ rfl
      refine finishes_bind (items_halts other) ?_
      rintro _ rfl
      exact halts_nested fun below same => compareElements_halts op (pairs below same)
    refine halts_bool ?_ id
    cases op with
    | eq => exact equals
    | ne => exact finishes_map equals
    | lt | le | gt | ge => exact ordered
  all_goals exact halts_declined

include data inside

theorem dictSlot_halts (op : CompareOp) {r : DictRef} (dict : a = .dict r) :
    Halts s levels IsAnswer (DictRef.compareSlot op (hooks (n + 1)) [a, b]) := by
  subst dict
  cases b
  case dict other =>
    have equals : Halts s levels (fun _ => True) (r.equals (hooks (n + 1)) other) := by
      refine dictEquals_finishes (fun ready => ready.1) (halts_nested fun below same => ?_)
      have ours : ∀ y ∈ s.parts (.dict r), y ∈ s.parts (.dict r) ++ s.parts (.dict other) :=
        fun y => List.mem_append_left _
      have theirs : ∀ x ∈ s.parts (.dict other), x ∈ s.parts (.dict r) ++ s.parts (.dict other) :=
        fun x => List.mem_append_right _
      refine agrees_finishes (fun ready => ready.1) (fun e listed => ?_) (fun e listed k mem => ?_)
        fun e listed x mem => ?_
      · have key := inside e.1 (List.mem_append_left _ (mem_of_pair listed).1)
        exact data.hash_halts below n e.1 (data.made key)
      · exact (deep below same k (theirs k (List.mem_append_left _ mem)) e.1
          (ours _ (List.mem_append_left _ (mem_of_pair listed).1))).equals
      · exact (deep below same e.2 (ours _ (List.mem_append_right _ (mem_of_pair listed).2)) x
          (theirs x (List.mem_append_right _ mem))).equals
    cases op with
    | eq => exact halts_bool equals id
    | ne => exact halts_bool equals not
    | lt | le | gt | ge => exact halts_declined
  all_goals
    cases op <;> exact halts_declined

theorem compareSlot_halts
    (sets : Store.isSetLike a = true → Store.isSetLike b = true → SetsCompare s levels (n + 1) a b)
    {op : CompareOp} {slot : Slot} (found : a.kind.slot? (.compare op) = some slot) :
    Halts s levels IsAnswer (slot (hooks (n + 1)) [a, b]) := by
  have asSet {mine : Run SetTable} (like : Store.isSetLike a = true)
      (reads : (Store.isSetLike b = true → SetsCompare s levels (n + 1) a b) →
        Store.isSetLike b = true → Halts s levels (fun t => ∀ key ∈ t.keys, s.Element a key) mine) :
      Halts s levels IsAnswer (compareSets (hooks (n + 1)) op mine b) := by
    cases both : Store.isSetLike b with
    | true => exact compareSets_halts op (reads (sets like) both) (sets like both)
    | false => exact compareSets_declines op both
  cases a
  case tuple own items =>
    cases found
    exact tupleSlot_halts deep op rfl
  case list r =>
    cases found
    exact listSlot_halts deep op rfl
  case dict r =>
    cases found
    exact dictSlot_halts data inside deep op rfl
  case frozenSet id t =>
    cases found
    exact asSet rfl fun _ _ => finishes_pure fun key listed => ⟨key, listed, .inl rfl⟩
  case dictKeys r =>
    cases found
    refine asSet rfl fun sets both => ?_
    refine finishes_bind (keys_halts r) fun keys elements => ?_
    exact ((sets both).left nofun).ofValues_halts elements
  case dictItems r =>
    cases found
    refine asSet rfl fun sets both => ?_
    refine finishes_bind (itemTuples_halts r) fun items elements => ?_
    exact ((sets both).left nofun).ofValues_halts elements
  all_goals cases found

end Slots

theorem callSlot_halts {op : CompareOp} (builtin : a.kind ≠ .object)
    (called : ∀ slot, a.kind.slot? (.compare op) = some slot →
      Halts s levels IsAnswer (slot (hooks n) [a, b])) :
    Halts s levels IsAnswer (Protocol.callSlot (hooks (n + 1)) (.compare op) [a, b]) := by
  have key : (Protocol.receiver [a, b]).typeKey = .builtin a.kind := by
    cases a with
    | object => exact absurd rfl builtin
    | _ => rfl
  refine (steady_ready s levels).callSlot_finishes 0 key (fun slot found _ _ _ => called slot found)
    ?_ fun _ _ _ _ _ => trivial
  rintro - t rfl' -
  unfold Thunk.missing
  rw [rfl']
  exact halts_declined

theorem compares_of_slots (ha : a.kind ≠ .object) (hb : b.kind ≠ .object)
    (forward : ∀ op slot, a.kind.slot? (.compare op) = some slot →
      Halts s levels IsAnswer (slot (hooks n) [a, b]))
    (backward : ∀ op slot, b.kind.slot? (.compare op) = some slot →
      Halts s levels IsAnswer (slot (hooks n) [b, a])) : Compares s levels (n + 1) a b := by
  have compare : ∀ op, Halts s levels (fun v => ∃ x, v = .bool x)
      (Protocol.compare (hooks (n + 1)) op a b) := by
    intro op
    refine finishes_bind (P := fun _ => True) (finishes_readStore fun _ _ => trivial) fun known _ => ?_
    cases known with
    | some order => exact finishes_pure ⟨_, rfl⟩
    | none =>
      refine finishes_bind (callSlot_halts ha (forward op)) ?_
      rintro _ (rfl | ⟨x, rfl⟩)
      · refine finishes_bind (callSlot_halts hb (backward op.reflected)) ?_
        rintro _ (rfl | ⟨x, rfl⟩)
        · cases op with
          | eq | ne => exact finishes_pure ⟨_, rfl⟩
          | lt | le | gt | ge =>
            refine finishes_bind (finishes_typeName a) fun _ _ => ?_
            exact finishes_bind (finishes_typeName b) fun _ _ => finishes_raise trivial
        · exact finishes_pure ⟨x, rfl⟩
      · exact finishes_pure ⟨x, rfl⟩
  refine ⟨?_, compare⟩
  unfold Protocol.equals
  split
  · exact finishes_pure trivial
  refine finishes_bind (P := fun _ => True) (finishes_readStore fun _ _ => trivial) fun known _ => ?_
  cases known with
  | some answer => exact finishes_pure trivial
  | none =>
    refine finishes_bind (compare .eq) ?_
    rintro _ ⟨x, rfl⟩
    exact finishes_pure trivial

theorem Made.compares (data : BuiltinData s P) (ha : Made s P a) (hb : Made s P b)
    (deep : Deep s levels (n + 1) (s.parts a ++ s.parts b))
    (sets : Store.isSetLike a = true → Store.isSetLike b = true → SetsCompare s levels (n + 1) a b) :
    Compares s levels (n + 2) a b := by
  refine compares_of_slots ha.builtin hb.builtin (fun op slot found => ?_) fun op slot found => ?_
  · exact compareSlot_halts data ha.inside deep sets found
  · exact compareSlot_halts data hb.inside deep.swap (fun like like' => (sets like' like).symm) found

end DynamicObjects
